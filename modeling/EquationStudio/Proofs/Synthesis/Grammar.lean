import EquationStudio.Proofs.Diagram.WellFormed
import EquationStudio.Proofs.Numeric.Literal
import EquationStudio.Proofs.Synthesis.Formula
import EquationStudio.Synthesis.Text

/-!
# The grammar of expressions

The text of a formula follows the grammar

    E := literal | name | '(' E ' ' op ' ' E ')'

and no two formulas have the same text. `Formula.parse` reads a text by this grammar, and
`Formula.parse_eq_some` says that it reads the formula of which a text is written, and nothing else.
Where an operand ends is told by what may stand in literals and names: they hold neither blanks nor
parentheses, so the signs in `-3`, `1e+20` and `-2.5e-07` are no operators, and none of them is a
name.
-/

namespace EquationStudio

/-! ## Written formulas -/

namespace Formula

/-- The text of a formula. -/
def text : Formula → String
  | number v => v.literal
  | symbol name => name
  | join op left right => op.joined left.text right.text
  | loose n => n.label

/-- What is made of a formula in text. -/
theorem fold_textEmitter (t : Formula) : t.fold textEmitter = .ok t.text := by
  induction t with
  | number | symbol | loose => rfl
  | join op left right ihl ihr =>
    rw [fold, ihl, ihr]
    rfl

/-- A formula of numbers and names that the editor accepts, without loose nodes. -/
def Plain : Formula → Prop
  | number v => Number.ofDatum v.toDatum = .ok v
  | symbol name => readVariable (.text name) = .ok name
  | join _ left right => left.Plain ∧ right.Plain
  | loose _ => False

instance decidablePlain : (t : Formula) → Decidable t.Plain
  | number v => inferInstanceAs (Decidable (Number.ofDatum v.toDatum = .ok v))
  | symbol name => inferInstanceAs (Decidable (readVariable (.text name) = .ok name))
  | join _ left right =>
    have := decidablePlain left
    have := decidablePlain right
    inferInstanceAs (Decidable (left.Plain ∧ right.Plain))
  | loose _ => inferInstanceAs (Decidable False)

/-- A formula that is neither joined nor loose. -/
def IsAtom : Formula → Prop
  | number _ | symbol _ => True
  | join .. | loose _ => False

end Formula

/-! ## Literals and names -/

/-- The characters of literals and names: neither blanks nor parentheses. -/
def isAtomChar (c : Char) : Bool := c != ' ' && c != '(' && c != ')'

/-- A character of literals and names is no parenthesis. -/
theorem ne_of_isAtomChar {c : Char} (h : isAtomChar c = true) : c ≠ '(' := by
  rintro rfl
  exact absurd h (by decide)

/-- Characters of a kind may stand in literals and names if blanks and parentheses are of another
kind. -/
theorem isAtomChar_of {P : Char → Bool} (hP : [' ', '(', ')'].all (! P ·) = true) {c : Char}
    (hc : P c = true) : isAtomChar c = true := by
  have hne : ∀ d ∈ [' ', '(', ')'], c ≠ d := by
    rintro d hd rfl
    have hnot := List.all_eq_true.1 hP c hd
    rw [hc] at hnot
    cases hnot
  simpa [isAtomChar, and_assoc] using hne

/-- A text that can be told from what stands around it: characters of literals and names, at least
one. -/
structure IsWord (s : String) : Prop where
  chars : ∀ c ∈ s.toList, isAtomChar c = true
  ne : s.toList ≠ []

/-- A literal is a word. -/
theorem Number.isWord_literal (v : Number) : IsWord v.literal where
  chars := v.numeralChars_literal.forall (by decide)
  ne h := v.isTrimmed_literal.2 (String.toList_eq_nil_iff.1 h)

/-- What begins with a letter and goes on with letters and digits is a word. -/
theorem isWord_of_isVariableName {name : String} (h : isVariableName name.toList = true) :
    IsWord name := by
  unfold isVariableName at h
  split at h
  · cases h
  · next c cs hname =>
    rw [Bool.and_eq_true, List.all_eq_true] at h
    refine ⟨?_, by rw [hname]; exact List.cons_ne_nil _ _⟩
    rw [hname, List.forall_mem_cons]
    exact ⟨isAtomChar_of (P := isVariableLetter) (by decide) h.1, fun d hd =>
      isAtomChar_of (P := fun d => isVariableLetter d || d.isDigit) (by decide) (h.2 d hd)⟩

/-- An accepted number is not written like the name of a variable: no numeral begins with a
letter. -/
theorem Number.not_isVariableName_literal {v : Number} (h : ofDatum v.toDatum = .ok v) :
    ¬ isVariableName v.literal.toList = true := by
  intro hname
  have hread := ofDatum_literal h
  rw [ofDatum, v.isTrimmed_literal.1, ← String.ofList_toList (s := v.literal),
    readDouble_ofList v.numeralChars_literal] at hread
  have hchars := v.numeralChars_literal
  unfold isVariableName at hname
  split at hname
  · cases hname
  · next c cs hliteral =>
    have hletter : isVariableLetter c = true := (Bool.and_eq_true _ _ ▸ hname).1
    -- The letter that may stand in a numeral begins none.
    have hhead := hchars.forall (P := fun c => isVariableLetter c = true → c = 'e') (by decide) c
      (hliteral ▸ .head _) hletter
    subst hhead
    rw [hliteral, show splitSign ('e' :: cs) = (false, 'e' :: cs) from rfl,
      readNumeral_letter (by decide) (by decide)] at hread
    cases hread

/-! ## Reading -/

/-- The operator of a sign. -/
def Operator.ofSign? : Char → Option Operator
  | '+' => some .add
  | '-' => some .subtract
  | '*' => some .multiply
  | '/' => some .divide
  | '^' => some .power
  | _ => none

/-- The sign of an operator is one character. -/
def Operator.sign : Operator → Char
  | add => '+'
  | subtract => '-'
  | multiply => '*'
  | divide => '/'
  | power => '^'

/-- The operator of a sign has that sign. -/
theorem Operator.ofSign?_eq_some {c : Char} {op : Operator} :
    ofSign? c = some op ↔ op.sign = c := by
  unfold ofSign?
  constructor
  · intro h
    split at h <;> cases h <;> rfl
  · rintro rfl
    cases op <;> rfl

/-- A binary expression, character by character. -/
theorem Operator.toList_joined (op : Operator) (left right : String) :
    (op.joined left right).toList =
    '(' :: (left.toList ++ ' ' :: op.sign :: ' ' :: (right.toList ++ [')'])) := by
  have hsymbol : op.symbol.toList = [op.sign] := by cases op <;> rfl
  simp [joined, hsymbol]

namespace Formula

/-- Reads an operator between two blanks. -/
def readOperator : List Char → Option (Operator × List Char)
  | ' ' :: c :: ' ' :: rest => (Operator.ofSign? c).map (·, rest)
  | _ => none

/-- Reads a name or a literal, each written as the editor writes it. -/
def readAtom (s : String) : Option Formula :=
  if (readVariable (.text s)).toOption = some s then some (symbol s)
  else ((Number.ofDatum (.text s)).toOption.filter (·.literal = s)).map number

/-- Reads a formula at the beginning of a text, with no more parentheses in one another than given.
The answer holds what stands behind it. -/
def parseFrom : Nat → List Char → Option (Formula × List Char)
  | 0, _ => none
  | depth + 1, cs =>
    match cs with
    | '(' :: cs => do
      let (left, cs) ← parseFrom depth cs
      let (op, cs) ← readOperator cs
      let (right, cs) ← parseFrom depth cs
      match cs with
      | ')' :: cs => return (join op left right, cs)
      | _ => none
    | cs => do
      let atom ← readAtom (String.ofList (cs.takeWhile isAtomChar))
      return (atom, cs.dropWhile isAtomChar)

/-- Reads the whole of a text as a formula. -/
def parse (s : String) : Option Formula :=
  match parseFrom (s.toList.length + 1) s.toList with
  | some (t, []) => some t
  | _ => none

/-- A name or a literal is read exactly as it is written. -/
theorem readAtom_eq_some {s : String} {t : Formula} :
    readAtom s = some t ↔ t.IsAtom ∧ t.Plain ∧ t.text = s := by
  unfold readAtom
  constructor
  · intro h
    split at h
    · next hname =>
      cases h
      exact ⟨trivial, toOption_eq_some.1 hname, rfl⟩
    · obtain ⟨v, hv, rfl⟩ := Option.map_eq_some_iff.1 h
      obtain ⟨hv, hs⟩ := Option.filter_eq_some_iff.1 hv
      exact ⟨trivial, Number.ofDatum_toDatum (toOption_eq_some.1 hv), of_decide_eq_true hs⟩
  · rintro ⟨hatom, hplain, rfl⟩
    cases t with
    | number v =>
      have hname : ¬ (readVariable (.text v.literal)).toOption = some v.literal := fun h =>
        Number.not_isVariableName_literal hplain
          (isVariableName_of_readVariable (toOption_eq_some.1 h)).1
      rw [text, if_neg hname, Number.ofDatum_literal hplain]
      simp [Except.toOption]
    | symbol name => rw [text, if_pos (toOption_eq_some.2 hplain)]
    | join | loose => cases hatom

/-- A name or a literal is a word. -/
theorem isWord_text {t : Formula} (h : t.IsAtom) (hplain : t.Plain) : IsWord t.text := by
  cases t with
  | number v => exact v.isWord_literal
  | symbol name => exact isWord_of_isVariableName (isVariableName_of_readVariable hplain).1
  | join | loose => cases h

/-- An operator is read between two blanks exactly if it stands there. -/
theorem readOperator_eq_some {cs rest : List Char} {op : Operator} :
    readOperator cs = some (op, rest) ↔ cs = ' ' :: op.sign :: ' ' :: rest := by
  unfold readOperator
  constructor
  · intro h
    split at h
    · next c rest' =>
      obtain ⟨op', hop, he⟩ := Option.map_eq_some_iff.1 h
      cases he
      rw [Operator.ofSign?_eq_some.1 hop]
    · cases h
  · rintro rfl
    simp only [Operator.ofSign?_eq_some.2 rfl, Option.map_some]

/-- What is read at the beginning of a text is plain, and stands there. -/
theorem eq_of_parseFrom {depth : Nat} {cs rest : List Char} {t : Formula}
    (h : parseFrom depth cs = some (t, rest)) : t.Plain ∧ t.text.toList ++ rest = cs := by
  induction depth generalizing cs rest t with
  | zero => cases h
  | succ depth ih =>
    unfold parseFrom at h
    split at h
    · obtain ⟨⟨left, cs₁⟩, hleft, h⟩ := Option.bind_eq_some_iff.1 h
      obtain ⟨⟨op, cs₂⟩, hop, h⟩ := Option.bind_eq_some_iff.1 h
      obtain ⟨⟨right, cs₃⟩, hright, h⟩ := Option.bind_eq_some_iff.1 h
      obtain ⟨hplain, hcs⟩ := ih hleft
      obtain ⟨hplain', hcs'⟩ := ih hright
      rw [readOperator_eq_some] at hop
      dsimp only at h hop hcs'
      split at h
      · cases h
        refine ⟨⟨hplain, hplain'⟩, ?_⟩
        rw [← hcs, hop, ← hcs', text, Operator.toList_joined]
        simp
      · cases h
    · obtain ⟨atom, hatom, h⟩ := Option.bind_eq_some_iff.1 h
      cases h
      obtain ⟨-, hplain, htext⟩ := readAtom_eq_some.1 hatom
      refine ⟨hplain, ?_⟩
      rw [htext, String.toList_ofList, List.takeWhile_append_dropWhile]

/-- Words end where blanks and parentheses stand. -/
theorem span_word {word rest : List Char} (h : ∀ c ∈ word, isAtomChar c = true)
    (hrest : ∀ c ∈ rest.head?, isAtomChar c = false) :
    (word ++ rest).takeWhile isAtomChar = word ∧ (word ++ rest).dropWhile isAtomChar = rest := by
  rw [List.takeWhile_append_of_pos h, List.dropWhile_append_of_pos h]
  cases rest with
  | nil => simp
  | cons c rest =>
    have hc : ¬ isAtomChar c = true := by simp [hrest c (by simp)]
    rw [List.takeWhile_cons_of_neg hc, List.dropWhile_cons_of_neg hc, List.append_nil]
    exact ⟨rfl, rfl⟩

/-- A name or a literal is read wherever something stands behind it that ends a word. -/
theorem parseFrom_atom {t : Formula} (h : t.IsAtom) (ht : t.Plain) (depth : Nat) {rest : List Char}
    (hrest : ∀ c ∈ rest.head?, isAtomChar c = false) :
    parseFrom (depth + 1) (t.text.toList ++ rest) = some (t, rest) := by
  obtain ⟨hchars, hne⟩ := isWord_text h ht
  obtain ⟨htake, hdrop⟩ := span_word hchars hrest
  unfold parseFrom
  split
  · next cs hcs =>
    -- No word begins with a parenthesis.
    obtain ⟨c, word, hword⟩ := List.exists_cons_of_ne_nil hne
    rw [hword, List.cons_append] at hcs
    exact absurd (List.cons.inj hcs).1 (ne_of_isAtomChar (hchars c (by simp [hword])))
  · rw [htake, hdrop, String.ofList_toList, readAtom_eq_some.2 ⟨h, ht, rfl⟩]
    rfl

/-- A plain formula is read wherever something stands behind it that ends a word. -/
theorem parseFrom_text {t : Formula} (ht : t.Plain) {depth : Nat} {rest : List Char}
    (hdepth : t.text.toList.length < depth) (hrest : ∀ c ∈ rest.head?, isAtomChar c = false) :
    parseFrom depth (t.text.toList ++ rest) = some (t, rest) := by
  induction t generalizing depth rest with
  | number | symbol =>
    obtain ⟨depth, rfl⟩ := Nat.exists_eq_add_of_lt hdepth
    exact parseFrom_atom (by trivial) ht _ hrest
  | loose => cases ht
  | join op left right ihl ihr =>
    rw [text, Operator.toList_joined] at hdepth ⊢
    simp only [List.length_cons, List.length_append, List.length_nil] at hdepth
    obtain ⟨depth, rfl⟩ : ∃ d, depth = d + 1 := ⟨depth - 1, by omega⟩
    have hleft : ∀ behind,
        parseFrom depth (left.text.toList ++ ' ' :: behind) = some (left, ' ' :: behind) :=
      fun _ => ihl ht.1 (by omega) fun c hc => by cases hc; rfl
    have hop : ∀ behind, readOperator (' ' :: op.sign :: ' ' :: behind) = some (op, behind) :=
      fun _ => readOperator_eq_some.2 rfl
    have hright : parseFrom depth (right.text.toList ++ ')' :: rest) = some (right, ')' :: rest) :=
      ihr ht.2 (by omega) fun c hc => by cases hc; rfl
    simp only [List.cons_append, List.append_assoc, List.nil_append, parseFrom, hleft, hop, hright,
      Option.bind_eq_bind, Option.bind_some]
    rfl

/-- **The grammar is unambiguous.** A formula is read from a text exactly if the text is written of
it. -/
theorem parse_eq_some {s : String} {t : Formula} : parse s = some t ↔ t.Plain ∧ t.text = s := by
  unfold parse
  constructor
  · intro h
    split at h
    · next t' hread =>
      cases h
      obtain ⟨hplain, htext⟩ := eq_of_parseFrom hread
      rw [List.append_nil] at htext
      exact ⟨hplain, String.toList_injective htext⟩
    · cases h
  · rintro ⟨hplain, rfl⟩
    have hread : parseFrom (t.text.toList.length + 1) (t.text.toList ++ []) = some (t, []) :=
      parseFrom_text hplain (Nat.lt_succ_self _) (by simp)
    rw [List.append_nil] at hread
    rw [hread]

example : (parse "(-3 - 1e+20)").isSome = true ∧ (parse "-3 - 1e+20").isSome = false := by
  decide +kernel

end Formula

end EquationStudio
