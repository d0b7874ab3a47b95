import EquationStudio.Diagram.Node
import EquationStudio.Proofs.Archive.Writable

/-!
# Texts that can be encoded

A text can be encoded if it holds no code unit without its partner. Texts made of such texts can be
encoded (`isEncodable_append`, `isEncodable_intercalate`, `isEncodable_trimBlank`), and so can
whatever is displayed, since a code unit without its partner does not print and is escaped
(`Datum.isEncodable_display`). In a sentence a text stands as it is, so there it has to be one that
can be encoded (`Datum.Sendable.plain`).
-/

namespace EquationStudio

/-! ## Texts made of others -/

/-- Two texts in a row can be encoded if each can, and only then. -/
theorem isEncodable_append {s t : String} :
    isEncodable (s ++ t) = true ↔ isEncodable s = true ∧ isEncodable t = true := by
  rw [isEncodable_iff, isEncodable_iff, isEncodable_iff, String.toList_append,
    List.forall_mem_append]

/-- Texts with a separator between them can be encoded if they and the separator can. -/
theorem isEncodable_intercalate {separator : String} (hseparator : isEncodable separator = true) :
    ∀ {parts : List String}, (∀ s ∈ parts, isEncodable s = true) →
      isEncodable (String.intercalate separator parts) = true
  | [], _ => rfl
  | [s], h => by
    rw [String.intercalate_singleton]
    exact h s (.head _)
  | s :: t :: parts, h => by
    rw [String.intercalate_cons_cons, isEncodable_append, isEncodable_append]
    exact ⟨⟨h s (.head _), hseparator⟩,
      isEncodable_intercalate hseparator fun u hu => h u (.tail _ hu)⟩

/-- A comma and a blank can be encoded. -/
theorem isEncodable_comma : isEncodable ", " = true := by decide +kernel

/-- What is left of a text can be encoded if the text can. -/
theorem isEncodable_trimBlank {s : String} (h : isEncodable s = true) :
    isEncodable (trimBlank s) = true := by
  refine isEncodable_iff.2 fun c hc => isEncodable_iff.1 h c ?_
  rw [trimBlank, String.toList_ofList, trimEnds, List.mem_reverse] at hc
  have hmem := (List.dropWhile_suffix isBlank).subset hc
  exact (List.dropWhile_suffix isBlank).subset (List.mem_reverse.1 hmem)

/-- The name of a variable can be encoded: it is made of letters and digits. -/
theorem isEncodable_of_isVariableName {s : String} (h : isVariableName s.toList = true) :
    isEncodable s = true := by
  have hbelow : ∀ {c : Char} (last : Char), last.toNat < 0x10f800 → c ≤ last →
      isLoneUnit c = false := by
    intro c last hlast hle
    have hcode : c.toNat ≤ last.toNat := UInt32.le_iff_toNat_le.1 hle
    exact decide_eq_false fun (hlarge : 0x10f800 ≤ c.toNat) => by omega
  have hletter : ∀ {c : Char}, isVariableLetter c = true → isLoneUnit c = false := by
    intro c hc
    obtain hc | hcapital := Bool.or_eq_true_iff.1 hc
    · obtain hc | hsmall := Bool.or_eq_true_iff.1 hc
      · obtain hupper | hlower := Bool.or_eq_true_iff.1 hc
        · exact hbelow 'Z' (by decide) (of_decide_eq_true hupper).2
        · exact hbelow 'z' (by decide) (of_decide_eq_true (Bool.and_eq_true_iff.1 hlower).2)
      · exact hbelow 'ω' (by decide) (of_decide_eq_true (Bool.and_eq_true_iff.1 hsmall).2)
    · exact hbelow 'Ω' (by decide) (of_decide_eq_true (Bool.and_eq_true_iff.1 hcapital).2)
  have hdigit : ∀ {c : Char}, c.isDigit = true → isLoneUnit c = false := fun hc =>
    hbelow '9' (by decide) (of_decide_eq_true (Bool.and_eq_true_iff.1 hc).2)
  refine isEncodable_iff.2 fun c hc => ?_
  cases hs : s.toList with
  | nil => rw [hs] at hc; cases hc
  | cons first rest =>
    rw [hs] at h hc
    obtain ⟨hfirst, hrest⟩ := Bool.and_eq_true_iff.1 h
    obtain rfl | hc := List.mem_cons.1 hc
    · exact hletter hfirst
    · exact (Bool.or_eq_true_iff.1 (List.all_eq_true.1 hrest c hc)).elim hletter hdigit

/-! ## Texts between quotes -/

/-- All bounds lie at or below what is at or above each. -/
theorem boundsUpTo_eq_high {code : Nat} (h : ∀ i, printableBounds.getD i 0 ≤ code) :
    ∀ {fuel low high : Nat}, low ≤ high → high - low < 2 ^ fuel →
    boundsUpTo code fuel low high = high
  | 0, low, high, hle, hlt => by
    rw [boundsUpTo]
    omega
  | fuel + 1, low, high, hle, hlt => by
    rw [boundsUpTo]
    split
    · dsimp only
      rw [if_pos (h _)]
      exact boundsUpTo_eq_high h (by omega) (by omega)
    · omega

/-- What is found in an array lies at or below what all its members do. -/
theorem getD_le {bounds : Array Nat} {limit : Nat}
    (h : bounds.toList.all (· ≤ limit) = true) (i : Nat) :
    bounds.getD i 0 ≤ limit := by
  rw [Array.getD_eq_getD_getElem?]
  cases hi : bounds[i]? with
  | none => exact Nat.zero_le _
  | some bound =>
    exact of_decide_eq_true (List.all_eq_true.1 h bound
      (Array.mem_toList_iff.2 (Array.mem_of_getElem? hi)))

/-- The bounds of what prints: an even number of them, all below the code units without partners. -/
theorem printableBounds_facts : printableBounds.toList.all (· ≤ 918000) = true ∧
    printableBounds.size < 2 ^ 12 ∧ printableBounds.size % 2 = 0 := by
  decide +kernel

/-- A code unit without its partner does not print. -/
theorem isLoneUnit_of_isPrintable {c : Char} (h : isPrintable c = true) : isLoneUnit c = false := by
  obtain ⟨hbounds, hsize, heven⟩ := printableBounds_facts
  refine decide_eq_false fun (hlarge : 0x10f800 ≤ c.toNat) => ?_
  have hend : boundsUpTo c.toNat 12 0 printableBounds.size = printableBounds.size :=
    boundsUpTo_eq_high (fun i => Nat.le_trans (getD_le hbounds i) (Nat.le_trans (by decide) hlarge))
      (Nat.zero_le _) (by rw [Nat.sub_zero]; exact hsize)
  rw [isPrintable, hend, heven] at h
  cases h

/-- Hexadecimal digits are no code units without partners. -/
theorem isLoneUnit_hexDigits {n width : Nat} {c : Char} (h : c ∈ hexDigits n width) :
    isLoneUnit c = false := by
  induction width generalizing n with
  | zero => cases h
  | succ width ih =>
    rw [hexDigits, List.mem_append, List.mem_singleton] at h
    obtain h | rfl := h
    · exact ih h
    · have hall : ∀ k < 16, isLoneUnit (Nat.digitChar k) = false := by decide +kernel
      exact hall _ (Nat.mod_lt _ (by decide))

/-- What stands for a character between quotes holds no code unit without its partner. -/
theorem isLoneUnit_quoteChar {quote c c' : Char} (hquote : isLoneUnit quote = false)
    (h : c' ∈ quoteChar quote c) : isLoneUnit c' = false := by
  have hsigns : ∀ d ∈ ['\\', 'n', 'r', 't', 'u', 'x', 'U'], isLoneUnit d = false :=
    fun d hd => Bool.eq_false_iff.2 (List.any_eq_false.1 (by decide +kernel) d hd)
  have hescaped : ∀ {mark : Char} {n width : Nat}, mark ∈ ['\\', 'n', 'r', 't', 'u', 'x', 'U'] →
      c' ∈ '\\' :: mark :: hexDigits n width → isLoneUnit c' = false := by
    intro mark n width hmark hc'
    obtain rfl | hc' := List.mem_cons.1 hc'
    · exact hsigns _ (by simp)
    obtain rfl | hc' := List.mem_cons.1 hc'
    · exact hsigns _ hmark
    · exact isLoneUnit_hexDigits hc'
  unfold quoteChar at h
  split at h
  · next hc =>
    simp only [List.mem_cons, List.not_mem_nil, or_false] at h
    obtain rfl | rfl := h
    · exact hsigns _ (by simp)
    · obtain rfl | rfl := hc
      · exact hquote
      · exact hsigns _ (by simp)
  iterate 3
    split at h
    · simp only [List.mem_cons, List.not_mem_nil, or_false] at h
      obtain rfl | rfl := h <;> exact hsigns _ (by simp)
  split at h
  · next hprint =>
    rw [List.mem_singleton.1 h]
    exact isLoneUnit_of_isPrintable hprint
  iterate 3
    split at h
    · exact hescaped (by simp) h
  exact hescaped (by simp) h

/-- A text between quotes can be encoded, whatever text it is. -/
theorem isEncodable_quoted (s : String) : isEncodable (quoted s) = true := by
  refine isEncodable_iff.2 fun c hc => ?_
  rw [quoted] at hc
  generalize hquote : (if s.toList.contains '\'' && !s.toList.contains '"' then '"'
    else '\'') = quote at hc
  have hsign : isLoneUnit quote = false := by
    rw [← hquote]
    split <;> decide +kernel
  rw [String.toList_ofList, List.mem_append, List.mem_cons, List.mem_singleton,
    List.mem_flatMap] at hc
  obtain (rfl | ⟨c', -, hc⟩) | rfl := hc
  · exact hsign
  · exact isLoneUnit_quoteChar hsign hc
  · exact hsign

/-! ## Data in words -/

/-- An integer that is written can be encoded. -/
theorem isEncodable_integerText {n : Int} {s : String} (h : integerText n = .ok s) :
    isEncodable s = true := by
  unfold integerText at h
  split at h
  · cases h
    exact (numeralChars_int n).isEncodable
  · cases h

/-- A double that is written can be encoded. -/
theorem Double.isEncodable_write (x : Double) : isEncodable x.write = true := by
  cases x with
  | finite x => exact x.numeralChars_write.isEncodable
  | nan => decide +kernel
  | infinite negative => cases negative <;> decide +kernel

namespace Datum

mutual

/-- What is displayed can be encoded, whatever datum it is. -/
theorem isEncodable_display : ∀ {d : Datum} {s : String}, d.display = .ok s → isEncodable s = true
  | null, s => by
    rw [display]
    rintro ⟨⟩
    decide +kernel
  | bool b, s => by
    rw [display]
    rintro ⟨⟩
    cases b <;> decide +kernel
  | int n, s => by
    rw [display]
    exact isEncodable_integerText
  | float x, s => by
    rw [display]
    rintro ⟨⟩
    exact x.isEncodable_write
  | text t, s => by
    rw [display]
    rintro ⟨⟩
    exact isEncodable_quoted t
  | list items, s => by
    rw [display]
    intro h
    obtain ⟨shown, hshown, h⟩ := ok_of_bind h
    cases h
    rw [isEncodable_append, isEncodable_append]
    have hparts := isEncodable_intercalate isEncodable_comma (isEncodable_displayItems hshown)
    exact ⟨⟨by decide +kernel, hparts⟩, by decide +kernel⟩
  | record fields, s => by
    rw [display]
    intro h
    obtain ⟨shown, hshown, h⟩ := ok_of_bind h
    cases h
    rw [isEncodable_append, isEncodable_append]
    have hparts := isEncodable_intercalate isEncodable_comma (isEncodable_displayFields hshown)
    exact ⟨⟨by decide +kernel, hparts⟩, by decide +kernel⟩

/-- The forms of members can be encoded. -/
theorem isEncodable_displayItems : ∀ {items : List Datum} {shown : List String},
    displayItems items = .ok shown → ∀ s ∈ shown, isEncodable s = true
  | [], shown => by
    rw [displayItems]
    rintro ⟨⟩
    nofun
  | x :: xs, shown => by
    rw [displayItems]
    intro h
    obtain ⟨first, hfirst, h⟩ := ok_of_bind h
    obtain ⟨rest, hrest, h⟩ := ok_of_bind h
    cases h
    exact List.forall_mem_cons.2 ⟨isEncodable_display hfirst, isEncodable_displayItems hrest⟩

/-- The forms of fields can be encoded. -/
theorem isEncodable_displayFields : ∀ {fields : Fields} {shown : List String},
    displayFields fields = .ok shown → ∀ s ∈ shown, isEncodable s = true
  | [], shown => by
    rw [displayFields]
    rintro ⟨⟩
    nofun
  | (key, x) :: fs, shown => by
    rw [displayFields]
    intro h
    obtain ⟨first, hfirst, h⟩ := ok_of_bind h
    obtain ⟨rest, hrest, h⟩ := ok_of_bind h
    cases h
    refine List.forall_mem_cons.2 ⟨?_, isEncodable_displayFields hrest⟩
    rw [isEncodable_append, isEncodable_append]
    exact ⟨⟨isEncodable_quoted key, by decide +kernel⟩, isEncodable_display hfirst⟩

end

/-- If a datum is a text, it can be encoded. -/
def Sendable (d : Datum) : Prop := ∀ s, d = .text s → isEncodable s = true

/-- Null is no text. -/
theorem sendable_null : null.Sendable := nofun

/-- What has to be encoded of a text is the text. -/
theorem sendable_text {s : String} : (text s).Sendable ↔ isEncodable s = true :=
  ⟨fun h => h s rfl, by rintro h _ ⟨⟩; exact h⟩

/-- What stands in a sentence can be encoded, if this is so of a text. -/
theorem Sendable.plain {d : Datum} (h : d.Sendable) {s : String} (hs : d.plain = .ok s) :
    isEncodable s = true := by
  unfold Datum.plain at hs
  split at hs
  · cases hs
    exact h _ rfl
  · exact isEncodable_display hs

end Datum

end EquationStudio
