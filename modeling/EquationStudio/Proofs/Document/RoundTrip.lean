import EquationStudio.Proofs.Archive.Writable
import EquationStudio.Proofs.Datum.Equality
import EquationStudio.Proofs.Document.Scalar

/-!
# Documents are read back

A datum that can be written and holds each key once (`Datum.Lossless`) is read back from its
indented document as it was (`Datum.ofDocument_toDocument`): the order of fields, the kinds of
numbers and the sign of zero included. What is written is said apart from how it is pieced together,
as characters in front of what follows them (`Datum.indented`), so that each part is read where it
stands (`Document.readValue_indented`). The reader's rounds are bounded by the length of the text,
and a datum needs no more than that (`Datum.rounds_le`).
-/

namespace EquationStudio

/-- Fields of distinct keys are set without replacing any. -/
theorem Fields.foldl_set : ∀ {new fields : Fields}, ((fields ++ new).map Prod.fst).Nodup →
    new.foldl (fun fs f => set fs f.1 f.2) fields = fields ++ new
  | [], fields, _ => (List.append_nil fields).symm
  | f :: new, fields, h => by
    have hfree : ¬ fields.any (·.1 == f.1) = true := by
      intro hany
      obtain ⟨f', hf', he⟩ := List.any_eq_true.1 hany
      rw [List.map_append] at h
      exact (List.nodup_append.1 h).2.2 f'.1 (List.mem_map_of_mem hf') f.1
        (.head _) (beq_iff_eq.1 he)
    have hset : set fields f.1 f.2 = fields ++ [f] := if_neg hfree
    rw [List.append_cons] at h ⊢
    rw [List.foldl_cons, hset, foldl_set h]

/-- Pairs of distinct keys are the fields of a record. -/
theorem Fields.ofPairs_eq {fields : Fields} (h : (fields.map Prod.fst).Nodup) :
    ofPairs fields = fields :=
  foldl_set h

/-- The start of a line, character by character. -/
theorem toList_newLine (level : Nat) :
    (newLine level).toList = '\n' :: List.replicate (2 * level) ' ' := by
  simp [newLine]

/-- A line has a character at least. -/
theorem length_newLine_pos (level : Nat) : 0 < (newLine level).toList.length := by
  rw [toList_newLine]
  exact Nat.succ_pos _

/-- A text in a document, in front of what follows it. -/
theorem toList_documentText (s : String) (rest : List Char) :
    (documentText s).toList ++ rest = '"' :: (s.toList.flatMap documentChar ++ '"' :: rest) := by
  rw [documentText, String.toList_ofList, List.append_assoc, List.cons_append]
  rfl

/-- An integer that can be written is written in its digits. -/
theorem eq_toString_of_integerText {n : Int} {digits : String} (h : integerText n = .ok digits) :
    digits = toString n := by
  unfold integerText at h
  split at h <;> cases h
  rfl

namespace Datum

mutual

/-- The indented document of a datum, in front of what follows it. -/
def indented (level : Nat) (rest : List Char) : Datum → List Char
  | null => "null".toList ++ rest
  | bool b => (if b then "true" else "false").toList ++ rest
  | int n => (toString n).toList ++ rest
  | float x => (documentDouble x).toList ++ rest
  | text s => (documentText s).toList ++ rest
  | list [] => '[' :: ']' :: rest
  | list (x :: xs) =>
    '[' :: ((newLine (level + 1)).toList ++ indented (level + 1)
      (indentedItems (level + 1) ((newLine level).toList ++ ']' :: rest) xs) x)
  | record [] => '\x7b' :: '\x7d' :: rest
  | record ((key, x) :: fs) =>
    '\x7b' :: ((newLine (level + 1)).toList ++ ((documentText key).toList ++ ':' :: ' ' ::
      indented (level + 1)
        (indentedFields (level + 1) ((newLine level).toList ++ '\x7d' :: rest) fs) x))

/-- The members after the first, in front of what follows them. -/
def indentedItems (level : Nat) (rest : List Char) : List Datum → List Char
  | [] => rest
  | x :: xs => ',' :: ((newLine level).toList ++ indented level (indentedItems level rest xs) x)

/-- The fields after the first, in front of what follows them. -/
def indentedFields (level : Nat) (rest : List Char) : List (String × Datum) → List Char
  | [] => rest
  | (key, x) :: fs =>
    ',' :: ((newLine level).toList ++ ((documentText key).toList ++ ':' :: ' ' ::
      indented level (indentedFields level rest fs) x))

end

mutual

/-- A document that is written to its end is the indented one. -/
theorem toList_draft : ∀ (d : Datum) (level : Nat) (before mark s : String),
    draft level before mark d = .ok s → ∀ rest : List Char,
      s.toList ++ rest = before.toList ++ (mark.toList ++ indented level rest d)
  | null, _, _, _, _ | bool _, _, _, _, _ | float _, _, _, _, _ | list [], _, _, _, _
  | record [], _, _, _, _ => by
    rintro ⟨⟩ rest
    simp [indented]
  | int n, level, before, mark, s => by
    intro h rest
    obtain ⟨digits, hdigits⟩ : ∃ digits, integerText n = .ok digits := by
      unfold draft at h
      split at h
      · next digits hdigits => exact ⟨digits, hdigits⟩
      · cases h
    unfold draft at h
    rw [hdigits] at h
    cases h
    simp [indented, eq_toString_of_integerText hdigits]
  | text s, _, _, _, _ => by
    intro h rest
    unfold draft at h
    split at h <;> cases h
    simp [indented]
  | list (x :: xs), level, before, mark, s => by
    intro h rest
    unfold draft at h
    obtain ⟨first, hfirst, h⟩ := ok_of_bind h
    obtain ⟨items, hitems, h⟩ := ok_of_bind h
    cases h
    have hclose := toList_draftItems xs _ _ _ hitems ((newLine level).toList ++ ']' :: rest)
    rw [toList_draft x _ _ _ _ hfirst] at hclose
    simpa [indented] using hclose
  | record ((key, x) :: fs), level, before, mark, s => by
    intro h rest
    unfold draft draftFields at h
    obtain ⟨fields, hfields, h⟩ := ok_of_bind h
    cases h
    split at hfields
    · obtain ⟨first, hfirst, hfields⟩ := ok_of_bind hfields
      have hclose := toList_draftFields fs _ _ _ hfields ((newLine level).toList ++ '\x7d' :: rest)
      rw [toList_draft x _ _ _ _ hfirst] at hclose
      simpa [indented] using hclose
    · cases hfields

/-- The same for members after the first. -/
theorem toList_draftItems : ∀ (items : List Datum) (level : Nat) (before s : String),
    draftItems level before items = .ok s → ∀ rest : List Char,
      s.toList ++ rest = before.toList ++ indentedItems level rest items
  | [], _, _, _ => by
    rintro ⟨⟩ rest
    rfl
  | x :: xs, level, before, s => by
    intro h rest
    unfold draftItems at h
    obtain ⟨first, hfirst, h⟩ := ok_of_bind h
    rw [toList_draftItems xs _ _ _ h, toList_draft x _ _ _ _ hfirst]
    simp [indentedItems]

/-- The same for fields after the first. -/
theorem toList_draftFields : ∀ (fields : List (String × Datum)) (level : Nat) (before s : String),
    draftFields level before ("," ++ newLine level) fields = .ok s → ∀ rest : List Char,
      s.toList ++ rest = before.toList ++ indentedFields level rest fields
  | [], _, _, _ => by
    rintro ⟨⟩ rest
    rfl
  | (key, x) :: fs, level, before, s => by
    intro h rest
    unfold draftFields at h
    split at h
    · obtain ⟨first, hfirst, h⟩ := ok_of_bind h
      rw [toList_draftFields fs _ _ _ h, toList_draft x _ _ _ _ hfirst]
      simp [indentedFields]
    · cases h

end

mutual

/-- How many rounds the reader takes at most for a datum. -/
def rounds : Datum → Nat
  | list items => roundsItems items + 1
  | record fields => roundsFields fields + 1
  | null | bool _ | int _ | float _ | text _ => 1

/-- How many rounds it takes for members. -/
def roundsItems : List Datum → Nat
  | [] => 0
  | x :: xs => x.rounds + roundsItems xs + 1

/-- How many rounds it takes for fields. -/
def roundsFields : List (String × Datum) → Nat
  | [] => 0
  | (_, x) :: fs => x.rounds + roundsFields fs + 1

end

end Datum

namespace Document

/-- A character with which a number or a word begins. -/
def Bare (c : Char) : Prop := isSpace c = false ∧ c ∉ ['"', '[', ']', '\x7b']

instance (c : Char) : Decidable (Bare c) := inferInstanceAs (Decidable (_ ∧ _))

/-- A numeral begins as a number does. -/
theorem bare_numeral {cs : List Char} (h : NumeralChars cs) (hne : cs ≠ []) :
    ∃ c ds, cs = c :: ds ∧ Bare c := by
  obtain ⟨c, ds, rfl⟩ := List.exists_cons_of_ne_nil hne
  exact ⟨c, ds, rfl, h.forall (P := Bare) (by decide +kernel) c (.head _)⟩

/-- An integer begins as a number does. -/
theorem bare_int (n : Int) : ∃ c cs, (toString n).toList = c :: cs ∧ Bare c := by
  refine bare_numeral (numeralChars_int n) ?_
  rw [toString_int, String.toList_append, String.toList_ofList]
  exact List.append_ne_nil_of_right_ne_nil _ Nat.toDigits_ne_nil

/-- A double begins as a number or a word does. -/
theorem bare_double (x : Double) : ∃ c cs, (documentDouble x).toList = c :: cs ∧ Bare c := by
  cases x with
  | nan => exact ⟨_, _, rfl, by decide⟩
  | infinite negative => cases negative <;> exact ⟨_, _, rfl, by decide⟩
  | finite x =>
    refine bare_numeral x.numeralChars_write fun h => ?_
    obtain ⟨m, hm, -⟩ := Numeral.readNumeral_write .readable (Numeral.shortest x.code)
    unfold documentDouble FiniteDouble.write at h
    rw [String.toList_append, List.append_eq_nil_iff] at h
    rw [h.2] at hm
    cases hm

end Document

namespace Datum

open Document (isSpace Bare bare_int bare_double)

/-- A datum's document begins with no white space and no bracket that closes. -/
theorem starts_indented (d : Datum) (level : Nat) (rest : List Char) :
    ∃ c cs, d.indented level rest = c :: cs ∧ isSpace c = false ∧ c ≠ ']' := by
  have hbare : ∀ {c : Char}, Bare c → isSpace c = false ∧ c ≠ ']' := by
    rintro c ⟨hsolid, hmarks⟩
    exact ⟨hsolid, fun he => hmarks (by rw [he]; decide)⟩
  cases d with
  | null => exact ⟨_, _, rfl, by decide⟩
  | bool b => cases b <;> exact ⟨_, _, rfl, by decide⟩
  | int n =>
    obtain ⟨c, cs, hcs, hc⟩ := bare_int n
    exact ⟨c, cs ++ rest, by rw [indented, hcs, List.cons_append], hbare hc⟩
  | float x =>
    obtain ⟨c, cs, hcs, hc⟩ := bare_double x
    exact ⟨c, cs ++ rest, by rw [indented, hcs, List.cons_append], hbare hc⟩
  | text s => exact ⟨_, _, by rw [indented, toList_documentText], by decide⟩
  | list items => cases items <;> exact ⟨_, _, rfl, by decide⟩
  | record fields => cases fields <;> exact ⟨_, _, rfl, by decide⟩

/-! ## The rounds of the reader -/

/-- The reader takes a round at least. -/
theorem rounds_pos (d : Datum) : 0 < d.rounds := by
  cases d <;> exact Nat.succ_pos _

mutual

/-- An indented document has a character at least for each round. -/
theorem rounds_le : ∀ (d : Datum) (level : Nat) (rest : List Char),
    d.rounds + rest.length ≤ (indented level rest d).length
  | null, _, rest | bool true, _, rest | bool false, _, rest => by
    simp only [indented, rounds, List.length_append]
    exact Nat.add_le_add_right (by decide) _
  | int n, _, rest => by
    obtain ⟨c, cs, hcs, -⟩ := bare_int n
    rw [indented, hcs, rounds, List.length_append, List.length_cons]
    omega
  | float x, _, rest => by
    obtain ⟨c, cs, hcs, -⟩ := bare_double x
    rw [indented, hcs, rounds, List.length_append, List.length_cons]
    omega
  | text s, _, rest => by
    rw [indented, toList_documentText, rounds, List.length_cons,
      List.length_append, List.length_cons]
    omega
  | list [], _, rest | record [], _, rest => by
    simp only [indented, rounds, roundsItems, roundsFields, List.length_cons]
    omega
  | list (x :: xs), level, rest => by
    have hitems := roundsItems_le xs (level + 1) ((newLine level).toList ++ ']' :: rest)
    have hfirst := rounds_le x (level + 1)
      (indentedItems (level + 1) ((newLine level).toList ++ ']' :: rest) xs)
    have hline := length_newLine_pos (level + 1)
    simp only [List.length_append, List.length_cons] at hitems
    simp only [indented, rounds, roundsItems, List.length_append, List.length_cons]
    omega
  | record ((key, x) :: fs), level, rest => by
    have hfields := roundsFields_le fs (level + 1) ((newLine level).toList ++ '\x7d' :: rest)
    have hfirst := rounds_le x (level + 1)
      (indentedFields (level + 1) ((newLine level).toList ++ '\x7d' :: rest) fs)
    simp only [List.length_append, List.length_cons] at hfields
    simp only [indented, rounds, roundsFields, List.length_append, List.length_cons]
    omega

/-- The same for members. -/
theorem roundsItems_le : ∀ (items : List Datum) (level : Nat) (rest : List Char),
    roundsItems items + rest.length ≤ (indentedItems level rest items).length
  | [], _, rest => Nat.le_of_eq (Nat.zero_add _)
  | x :: xs, level, rest => by
    have hitems := roundsItems_le xs level rest
    have hfirst := rounds_le x level (indentedItems level rest xs)
    simp only [indentedItems, roundsItems, List.length_append, List.length_cons]
    omega

/-- The same for fields. -/
theorem roundsFields_le : ∀ (fields : List (String × Datum)) (level : Nat) (rest : List Char),
    roundsFields fields + rest.length ≤ (indentedFields level rest fields).length
  | [], _, rest => Nat.le_of_eq (Nat.zero_add _)
  | (key, x) :: fs, level, rest => by
    have hfields := roundsFields_le fs level rest
    have hfirst := rounds_le x level (indentedFields level rest fs)
    simp only [indentedFields, roundsFields, List.length_append, List.length_cons]
    omega

end

end Datum

namespace Document

/-! ## Reading -/

/-- White space at the start of a line is skipped. -/
theorem dropWhile_newLine (level : Nat) {c : Char} (hc : isSpace c = false) (rest : List Char) :
    ((newLine level).toList ++ c :: rest).dropWhile isSpace = c :: rest := by
  have hspaces : ∀ d ∈ (newLine level).toList, isSpace d = true := by
    intro d hd
    rw [toList_newLine] at hd
    obtain rfl | hd := List.mem_cons.1 hd
    · rfl
    · rw [List.eq_of_mem_replicate hd]
      rfl
  rw [List.dropWhile_append_of_pos hspaces, List.dropWhile_cons_of_neg (by simp [hc])]

/-- What begins with no mark of a text, a list or an object is read as a number or a word. -/
theorem readValue_bare (limit : Option Nat) (fuel : Nat) {c : Char} (hc : Bare c) (cs : List Char) :
    readValue limit (fuel + 1) (c :: cs) = readScalar limit (c :: cs) := by
  have hmark : ∀ d ∈ ['"', '[', ']', '\x7b'], c ≠ d := fun d hd he => hc.2 (he ▸ hd)
  unfold readValue
  split
  · next heq => exact absurd (List.cons.inj heq).1 (hmark _ (by decide))
  · next heq => exact absurd (List.cons.inj heq).1 (hmark _ (by decide))
  · next heq => exact absurd (List.cons.inj heq).1 (hmark _ (by decide))
  · rfl

/-- A line that begins after a number does not go on with it. -/
theorem closed_newLine (level : Nat) (rest : List Char) :
    Closed ((newLine level).toList ++ rest) := by
  rw [toList_newLine]
  intro c hc
  cases hc
  decide

/-- Members that follow a number do not go on with it. -/
theorem closed_indentedItems (level outer : Nat) (rest : List Char) (items : List Datum) :
    Closed (Datum.indentedItems level ((newLine outer).toList ++ rest) items) := by
  cases items with
  | nil => exact closed_newLine outer rest
  | cons =>
    intro c hc
    cases hc
    decide

/-- Fields that follow a number do not go on with it. -/
theorem closed_indentedFields (level outer : Nat) (rest : List Char) (fields : Fields) :
    Closed (Datum.indentedFields level ((newLine outer).toList ++ rest) fields) := by
  cases fields with
  | nil => exact closed_newLine outer rest
  | cons =>
    intro c hc
    cases hc
    decide

mutual

/-- A datum is read back from its document, in front of anything that does not go on with a
number. -/
theorem readValue_indented : ∀ (d : Datum) (fuel level : Nat) (rest : List Char), d.Writable →
    d.Distinct →
    d.rounds ≤ fuel → Closed rest →
    readValue (some writtenDigits) fuel (d.indented level rest) = .ok (d, rest)
  | d, 0, _, _ => fun _ _ hfuel _ => absurd hfuel (Nat.not_le_of_gt d.rounds_pos)
  | .null, fuel + 1, _, _ | .bool true, fuel + 1, _, _ | .bool false, fuel + 1, _, _
  | .list [], fuel + 1, _, _ | .record [], fuel + 1, _, _ => fun _ _ _ _ => rfl
  | .int n, fuel + 1, _, rest => by
    rintro ⟨digits, h⟩ - - hr
    obtain ⟨c, cs, hcs, hc⟩ := bare_int n
    have hread := readScalar_int h hr
    rw [eq_toString_of_integerText h, hcs, List.cons_append] at hread
    rw [Datum.indented, hcs, List.cons_append, readValue_bare _ _ hc, hread]
  | .float x, fuel + 1, _, rest => by
    intro _ _ _ hr
    obtain ⟨c, cs, hcs, hc⟩ := bare_double x
    have hread := readScalar_double (some writtenDigits) x hr
    rw [hcs, List.cons_append] at hread
    rw [Datum.indented, hcs, List.cons_append, readValue_bare _ _ hc, hread]
  | .text s, fuel + 1, _, rest => by
    intro _ _ _ _
    rw [Datum.indented, toList_documentText, readValue, readText_text, ok_bind]
    rfl
  | .list (x :: xs), fuel + 1, level, rest => by
    intro hw hd hfuel _
    obtain ⟨c, cs, hcs, hsolid, hend⟩ := x.starts_indented (level + 1)
      (Datum.indentedItems (level + 1) ((newLine level).toList ++ ']' :: rest) xs)
    have hitems :=
      readItems_indented x xs fuel (level + 1) level rest [] hw hd (Nat.le_of_succ_le_succ hfuel)
    rw [Datum.indented, readValue]
    rw [hcs] at hitems ⊢
    rw [dropWhile_newLine _ hsolid]
    split
    · next heq => exact absurd (List.cons.inj heq).1 hend
    · rw [hitems, ok_bind]
      rfl
  | .record ((key, x) :: fs), fuel + 1, level, rest => by
    intro hw hd hfuel _
    have hfields := readFields_indented key x fs fuel (level + 1) level rest [] hw hd.2
      (Nat.le_of_succ_le_succ hfuel)
    rw [Datum.indented, readValue]
    rw [toList_documentText] at hfields ⊢
    rw [dropWhile_newLine _ (by decide)]
    split
    · next heq => exact absurd (List.cons.inj heq).1 (by decide)
    · rw [hfields, ok_bind]
      exact congrArg (fun fields => Except.ok (Datum.record fields, rest)) (Fields.ofPairs_eq hd.1)
termination_by structural _ fuel => fuel

/-- Members are read back up to the end of their list. -/
theorem readItems_indented :
    ∀ (x : Datum) (xs : List Datum) (fuel level outer : Nat) (rest : List Char)
    (read : List Datum), Datum.WritableItems (x :: xs) → Datum.DistinctItems (x :: xs) →
    Datum.roundsItems (x :: xs) ≤ fuel →
    readItems (some writtenDigits) fuel read (x.indented level
      (Datum.indentedItems level ((newLine outer).toList ++ ']' :: rest) xs)) =
        .ok (read.reverse ++ x :: xs, rest)
  | _, _, 0, _, _, _, _ => nofun
  | x, xs, fuel + 1, level, outer, rest, read => by
    rintro ⟨hx, hxs⟩ ⟨hdx, hdxs⟩ hfuel
    have hfuel : x.rounds + Datum.roundsItems xs ≤ fuel := Nat.le_of_succ_le_succ hfuel
    have hfirst :=
      readValue_indented x fuel level _ hx hdx (Nat.le_trans (Nat.le_add_right _ _) hfuel)
      (closed_indentedItems level outer (']' :: rest) xs)
    rw [readItems, hfirst, ok_bind]
    cases xs with
    | nil =>
      dsimp only [Datum.indentedItems]
      rw [dropWhile_newLine _ (by decide)]
      simp only [List.reverse_cons]
      rfl
    | cons y ys =>
      obtain ⟨c, cs, hcs, hsolid, -⟩ := y.starts_indented level
        (Datum.indentedItems level ((newLine outer).toList ++ ']' :: rest) ys)
      have hrest := readItems_indented y ys fuel level outer rest (x :: read) hxs hdxs
        (Nat.le_trans (Nat.le_add_left _ _) hfuel)
      dsimp only [Datum.indentedItems]
      rw [hcs] at hrest ⊢
      rw [List.dropWhile_cons_of_neg (by decide)]
      simp only [dropWhile_newLine _ hsolid, hrest, List.reverse_cons, List.append_assoc]
      rfl
termination_by structural _ _ fuel => fuel

/-- Fields are read back up to the end of their object. -/
theorem readFields_indented : ∀ (key : String) (x : Datum) (fs : List (String × Datum))
    (fuel level outer : Nat) (rest : List Char)
    (read : Fields), Datum.WritableFields ((key, x) :: fs) →
    Datum.DistinctFields ((key, x) :: fs) → Datum.roundsFields ((key, x) :: fs) ≤ fuel →
    readFields (some writtenDigits) fuel read
      ((documentText key).toList ++ ':' :: ' ' :: x.indented level
      (Datum.indentedFields level ((newLine outer).toList ++ '\x7d' :: rest) fs)) =
        .ok (read.reverse ++ (key, x) :: fs, rest)
  | _, _, _, 0, _, _, _, _ => nofun
  | key, x, fs, fuel + 1, level, outer, rest, read => by
    rintro ⟨-, hx, hfs⟩ ⟨hdx, hdfs⟩ hfuel
    have hfuel : x.rounds + Datum.roundsFields fs ≤ fuel := Nat.le_of_succ_le_succ hfuel
    have hfirst :=
      readValue_indented x fuel level _ hx hdx (Nat.le_trans (Nat.le_add_right _ _) hfuel)
      (closed_indentedFields level outer ('\x7d' :: rest) fs)
    obtain ⟨c, cs, hcs, hsolid, -⟩ := x.starts_indented level
      (Datum.indentedFields level ((newLine outer).toList ++ '\x7d' :: rest) fs)
    have hvalue : (' ' :: c :: cs).dropWhile isSpace = c :: cs := by
      rw [List.dropWhile_cons_of_pos (by decide), List.dropWhile_cons_of_neg (by simp [hsolid])]
    rw [toList_documentText, readFields]
    dsimp only
    rw [readText_text, ok_bind]
    dsimp only
    rw [List.dropWhile_cons_of_neg (by decide)]
    rw [hcs] at hfirst ⊢
    simp only [hvalue, hfirst, ok_bind]
    cases fs with
    | nil =>
      rw [Datum.indentedFields, dropWhile_newLine _ (by decide)]
      simp only [List.reverse_cons]
      rfl
    | cons f fs =>
      have hrest := readFields_indented f.1 f.2 fs fuel level outer rest ((key, x) :: read) hfs hdfs
        (Nat.le_trans (Nat.le_add_left _ _) hfuel)
      rw [Datum.indentedFields, List.dropWhile_cons_of_neg (by decide)]
      rw [toList_documentText] at hrest ⊢
      simp only [dropWhile_newLine _ (show isSpace '"' = false by decide), hrest, List.reverse_cons,
        List.append_assoc]
      rfl
termination_by structural _ _ _ fuel => fuel

end

end Document

namespace Datum

/-! ## Nothing is lost -/

/-- A datum that a document holds without loss: it can be written, and its records hold each key
once. -/
structure Lossless (d : Datum) : Prop where
  writable : d.Writable
  distinct : d.Distinct

/-- A list is held without loss if its members are. -/
theorem lossless_list {items : List Datum} : (list items).Lossless ↔ ∀ x ∈ items, x.Lossless := by
  constructor
  · exact fun h x hx => ⟨writable_list.1 h.writable x hx, distinct_list.1 h.distinct x hx⟩
  · exact fun h =>
      ⟨writable_list.2 fun x hx => (h x hx).writable, distinct_list.2 fun x hx => (h x hx).distinct⟩

/-- A record is held without loss if its keys are distinct and can be written, and its values are
held without loss. -/
theorem lossless_record {fields : Fields} : (record fields).Lossless ↔
    (fields.map Prod.fst).Nodup ∧ ∀ f ∈ fields, isEncodable f.1 = true ∧ f.2.Lossless := by
  constructor
  · rintro ⟨hw, hd⟩
    obtain ⟨hkeys, hvalues⟩ := distinct_record.1 hd
    refine ⟨hkeys, fun f hf => ?_⟩
    obtain ⟨hkey, hvalue⟩ := writable_record.1 hw f hf
    exact ⟨hkey, hvalue, hvalues f hf⟩
  · rintro ⟨hkeys, hvalues⟩
    exact ⟨writable_record.2 fun f hf => ⟨(hvalues f hf).1, (hvalues f hf).2.writable⟩,
      distinct_record.2 ⟨hkeys, fun f hf => (hvalues f hf).2.distinct⟩⟩

/-- Whether an integer can be written is decided by its size. -/
theorem writable_int {n : Int} : (int n).Writable ↔ n.natAbs < Nat.pow 10 writtenDigits := by
  show (∃ digits, integerText n = .ok digits) ↔ _
  unfold integerText
  split
  · next h => exact iff_of_true ⟨_, rfl⟩ h
  · next h => exact iff_of_false nofun h

mutual

/-- Whether a datum can be written is decided part by part. -/
def decideWritable : (d : Datum) → Decidable d.Writable
  | null | bool _ | float _ => .isTrue trivial
  | int n => decidable_of_iff (n.natAbs < Nat.pow 10 writtenDigits) writable_int.symm
  | text s => inferInstanceAs (Decidable (isEncodable s = true))
  | list items => decideWritableItems items
  | record fields => decideWritableFields fields

/-- Whether members can be written. -/
def decideWritableItems : (items : List Datum) → Decidable (WritableItems items)
  | [] => .isTrue trivial
  | x :: xs => @instDecidableAnd _ _ (decideWritable x) (decideWritableItems xs)

/-- Whether fields can be written. -/
def decideWritableFields : (fields : List (String × Datum)) → Decidable (WritableFields fields)
  | [] => .isTrue trivial
  | (key, x) :: fs => @instDecidableAnd _ _ (inferInstanceAs (Decidable (isEncodable key = true)))
    (@instDecidableAnd _ _ (decideWritable x) (decideWritableFields fs))

end

instance (d : Datum) : Decidable d.Writable := d.decideWritable

instance (d : Datum) : Decidable d.Lossless :=
  decidable_of_iff (d.Writable ∧ d.Distinct) ⟨fun h => ⟨h.1, h.2⟩, fun h => ⟨h.1, h.2⟩⟩

/-- A text that a file can hold is held without loss. -/
theorem lossless_text {s : String} (h : isEncodable s = true) : (text s).Lossless := ⟨h, trivial⟩

/-- A double is held without loss. -/
theorem lossless_float (x : Double) : (float x).Lossless := ⟨trivial, trivial⟩

/-- A record in which a field is set is held without loss if it was before and the field is. -/
theorem Lossless.set {fields : Fields} (h : (record fields).Lossless) {key : String}
    (hkey : isEncodable key = true) {value : Datum} (hvalue : value.Lossless) :
    (record (Fields.set fields key value)).Lossless := by
  obtain ⟨hkeys, hvalues⟩ := lossless_record.1 h
  refine lossless_record.2 ⟨Fields.nodup_set hkeys key value, fun f hf => ?_⟩
  obtain rfl | hf := Fields.mem_set hf
  · exact ⟨hkey, hvalue⟩
  · exact hvalues f hf

/-- What a record has under a key is held without loss if the record is. -/
theorem Lossless.get {fields : Fields} (h : (record fields).Lossless) (key : String) :
    (Fields.get fields key).Lossless := by
  unfold Fields.get
  cases hfound : Fields.get? fields key with
  | none => exact ⟨trivial, trivial⟩
  | some value => exact ((lossless_record.1 h).2 _ (Fields.mem_of_get? hfound)).2

/-- A datum that a document holds without loss is written to its end, and read back from what was
written as it was. -/
theorem ofDocument_toDocument {d : Datum} (h : d.Lossless) :
    ∃ s, d.toDocument = .ok s ∧ ofDocument (some writtenDigits) s = .ok d := by
  obtain ⟨s, hs⟩ := exists_toDocument h.writable
  have hchars : s.toList = d.indented 0 [] := by
    have hdraft := d.toList_draft 0 "" "" s hs []
    simpa using hdraft
  obtain ⟨c, cs, hcs, hsolid, -⟩ := d.starts_indented 0 []
  have hrounds : d.rounds ≤ s.toList.length + 1 := by
    rw [hchars]
    exact Nat.le_succ_of_le (d.rounds_le 0 [])
  have hread := Document.readValue_indented d _ 0 [] h.writable h.distinct hrounds nofun
  refine ⟨s, hs, ?_⟩
  unfold ofDocument
  dsimp only
  rw [← hchars] at hread
  rw [hchars, hcs, List.dropWhile_cons_of_neg (by simp [hsolid]), ← hcs, ← hchars, hread, ok_bind]
  rfl

end Datum

end EquationStudio
