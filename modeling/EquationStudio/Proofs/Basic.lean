import EquationStudio.Fault
import EquationStudio.Text.Blank
import Mathlib.Data.List.DropRight
import Mathlib.Data.List.Forall2

/-!
# Outcomes and trimmed texts

Facts that every later module uses: how a successful sequence of requests splits into its parts
(`ok_of_bind`), what a member of a list owes to another list (`exists_mem_of_forall₂`), what
trimming does twice (`trimBlank_trimBlank`), and that a name behind the last hyphen of a text can be
told from what stands before it (`append_hyphen_inj`).
-/

namespace EquationStudio

/-! ## Outcomes -/

/-- A sequence of two requests succeeds exactly if the first one does and the second one does with
its answer. -/
theorem ok_of_bind {ε α β : Type} {x : Except ε α} {f : α → Except ε β} {b : β}
    (h : x >>= f = .ok b) : ∃ a, x = .ok a ∧ f a = .ok b := by
  cases x with
  | error e => cases h
  | ok a => exact ⟨a, rfl, h⟩

/-- A sequence of two requests goes on with the answer of the first one. -/
@[simp] theorem ok_bind {ε α β : Type} (a : α) (f : α → Except ε β) :
    (Except.ok a : Except ε α) >>= f = f a := rfl

/-- A sequence of two requests fails if the first one does. -/
@[simp] theorem error_bind {ε α β : Type} (e : ε) (f : α → Except ε β) :
    (Except.error e : Except ε α) >>= f = .error e := rfl

/-- A sequence of two requests fails exactly if the first one does, or the second one does with the
answer of the first. -/
theorem error_of_bind {ε α β : Type} {x : Except ε α} {f : α → Except ε β} {e : ε}
    (h : x >>= f = .error e) : x = .error e ∨ ∃ a, x = .ok a ∧ f a = .error e := by
  cases x with
  | error e' => cases h; exact .inl rfl
  | ok a => exact .inr ⟨a, rfl, h⟩

/-- What holds of every fault of two requests holds of every fault of their sequence. -/
theorem forall_error_of_bind {ε α β : Type} {P : ε → Prop} {x : Except ε α} {f : α → Except ε β}
    (hx : ∀ e, x = .error e → P e) (hf : ∀ a, x = .ok a → ∀ e, f a = .error e → P e) :
    ∀ e, x >>= f = .error e → P e := by
  intro e h
  obtain h | ⟨a, ha, h⟩ := error_of_bind h
  · exact hx e h
  · exact hf a ha e h

/-- A request whose fault is told in other words fails if it does. -/
theorem error_of_mapError {ε ε' α : Type} {f : ε → ε'} {x : Except ε α} {e : ε'}
    (h : x.mapError f = .error e) : ∃ e', x = .error e' ∧ e = f e' := by
  cases x with
  | error e' => cases h; exact ⟨e', rfl, rfl⟩
  | ok a => cases h

/-- What a computation that may fail gives when it succeeds. -/
theorem toOption_eq_some {α : Type} {x : Except Fault α} {a : α} :
    x.toOption = some a ↔ x = .ok a := by
  cases x <;> simp [Except.toOption]

/-! ## Lists member by member -/

/-- Where two lists are related member by member, each member of the second one is related to one of
the first. -/
theorem exists_mem_of_forall₂ {α β : Type} {R : α → β → Prop} {as : List α} {bs : List β}
    (h : List.Forall₂ R as bs) {b : β} (hb : b ∈ bs) : ∃ a ∈ as, R a b := by
  induction h with
  | nil => cases hb
  | @cons a _ _ _ ha _ ih =>
    obtain rfl | hb := List.mem_cons.1 hb
    · exact ⟨a, .head _, ha⟩
    · obtain ⟨a', ha', hr⟩ := ih hb
      exact ⟨a', .tail _ ha', hr⟩

/-! ## Trimming -/

/-- What is left by trimming does not begin with a character that is trimmed. -/
theorem dropWhile_trimEnds (p : Char → Bool) (cs : List Char) :
    (trimEnds p cs).dropWhile p = trimEnds p cs := by
  rw [List.dropWhile_eq_self_iff]
  intro hl
  have hpre : trimEnds p cs <+: cs.dropWhile p := List.rdropWhile_prefix p _
  have hds : 0 < (cs.dropWhile p).length := Nat.lt_of_lt_of_le hl hpre.length_le
  have hfirst := hpre.getElem hl
  rw [hfirst]
  exact List.dropWhile_get_zero_not p cs hds

/-- Trimming twice is trimming once. -/
theorem trimEnds_trimEnds (p : Char → Bool) (cs : List Char) :
    trimEnds p (trimEnds p cs) = trimEnds p cs := by
  have h : trimEnds p (trimEnds p cs) = ((trimEnds p cs).dropWhile p).rdropWhile p := rfl
  rw [h, dropWhile_trimEnds]
  exact List.rdropWhile_idempotent p (cs.dropWhile p)

/-- Trimming takes nothing from characters that are not trimmed. -/
theorem trimEnds_eq_self {p : Char → Bool} {cs : List Char} (h : ∀ c ∈ cs, p c = false) :
    trimEnds p cs = cs := by
  have hdrop : ∀ {ds : List Char}, (∀ c ∈ ds, p c = false) → ds.dropWhile p = ds := by
    intro ds hds
    cases ds with
    | nil => rfl
    | cons d ds => simp [hds d (.head _)]
  unfold trimEnds
  rw [hdrop h, hdrop fun c hc => h c (List.mem_reverse.1 hc), List.reverse_reverse]

/-- A text without blanks around it: trimming leaves it, and something of it. -/
def IsTrimmed (s : String) : Prop := trimBlank s = s ∧ s ≠ ""

/-- A trimmed text stays as it is when it is trimmed again. -/
theorem trimBlank_trimBlank (s : String) : trimBlank (trimBlank s) = trimBlank s := by
  simp only [trimBlank, String.toList_ofList, trimEnds_trimEnds]

/-- A text of blanks is trimmed to nothing, and no other. -/
theorem trimBlank_eq_empty {s : String} : trimBlank s = "" ↔ isBlankText s = true := by
  have h : trimBlank s = "" ↔ trimEnds isBlank s.toList = [] := by
    rw [trimBlank, ← String.toList_inj, String.toList_ofList, String.toList_empty]
  rw [h, isBlankText, List.all_eq_true]
  show List.rdropWhile isBlank (s.toList.dropWhile isBlank) = [] ↔ _
  rw [List.rdropWhile_eq_nil_iff]
  constructor
  · intro hall
    refine List.dropWhile_eq_nil_iff.1 (List.eq_nil_iff_forall_not_mem.2 fun c hc => ?_)
    have hlen : 0 < (s.toList.dropWhile isBlank).length := List.length_pos_of_mem hc
    exact List.dropWhile_get_zero_not isBlank s.toList hlen (hall _ (List.getElem_mem hlen))
  · exact fun hall c hc => hall c ((List.dropWhile_suffix isBlank).subset hc)

/-- What is left of a text that is not blank is trimmed. -/
theorem isTrimmed_trimBlank {s : String} (h : ¬ isBlankText s = true) : IsTrimmed (trimBlank s) :=
  ⟨trimBlank_trimBlank s, fun he => h (trimBlank_eq_empty.1 he)⟩

/-- A trimmed text is not blank. -/
theorem IsTrimmed.not_blank {s : String} (h : IsTrimmed s) : isBlankText s = false :=
  Bool.eq_false_iff.2 fun hb => h.2 (by rw [← h.1]; exact trimBlank_eq_empty.2 hb)

/-- A text of characters none of which is blank is trimmed, unless it is empty. -/
theorem isTrimmed_of_forall {s : String} (h : ∀ c ∈ s.toList, isBlank c = false) (hs : s ≠ "") :
    IsTrimmed s :=
  ⟨by rw [trimBlank, trimEnds_eq_self h, String.ofList_toList], hs⟩

/-! ## Names behind a hyphen -/

/-- Where two lists end in parts without a separator, what stands before the separators and the two
parts agree. -/
theorem append_separator_inj {a : Char} {xs ys us vs : List Char} (hu : a ∉ us) (hv : a ∉ vs)
    (h : xs ++ a :: us = ys ++ a :: vs) : xs = ys ∧ us = vs := by
  have hrev := congrArg List.reverse h
  simp only [List.reverse_append, List.reverse_cons, List.append_assoc, List.singleton_append]
    at hrev
  have hu' : a ∉ us.reverse := by simpa using hu
  rcases List.append_eq_append_iff.1 hrev with ⟨c, hc, hd⟩ | ⟨c, hc, hd⟩
  · cases c with
    | nil => simp_all
    | cons b c =>
      have : a ∈ vs.reverse := by rw [hc]; simp [(List.cons.inj hd).1]
      exact absurd (List.mem_reverse.1 this) hv
  · cases c with
    | nil => simp_all
    | cons b c =>
      have : a ∈ us.reverse := by rw [hc]; simp [(List.cons.inj hd).1]
      exact absurd this hu'

/-- Where two texts end in names without a hyphen, what stands before the last hyphen and the names
agree. -/
theorem append_hyphen_inj {s t u v : String} (hu : '-' ∉ u.toList) (hv : '-' ∉ v.toList)
    (h : s ++ "-" ++ u = t ++ "-" ++ v) : s = t ∧ u = v := by
  have hl : s.toList ++ '-' :: u.toList = t.toList ++ '-' :: v.toList := by
    have := congrArg String.toList h
    simpa [String.toList_append] using this
  obtain ⟨hs, hu⟩ := append_separator_inj hu hv hl
  exact ⟨String.toList_inj.1 hs, String.toList_inj.1 hu⟩

/-- Numbers are told apart after a word. -/
theorem append_toString_inj {word : String} {i j : Nat}
    (h : word ++ toString i = word ++ toString j) : i = j := by
  have hij : Nat.repr i = Nat.repr j := String.append_right_inj word |>.1 h
  have hdigits : Nat.toDigits 10 i = Nat.toDigits 10 j := by
    rw [← Nat.toList_repr, hij, Nat.toList_repr]
  rw [← Nat.ofDigitChars_ten_toDigits (n := i), hdigits, Nat.ofDigitChars_ten_toDigits]

end EquationStudio
