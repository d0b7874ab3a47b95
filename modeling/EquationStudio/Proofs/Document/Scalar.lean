import EquationStudio.Document.Reading
import EquationStudio.Document.Writing
import EquationStudio.Proofs.Numeric.Literal

/-!
# Texts and numbers read back from documents

A text in a document is read back character by character, each from its escape or from itself
(`Document.readText_documentText`). A number is read up to where its characters end, so it is read
back before anything that goes on in no such character (`Document.Closed`): an integer from its
digits (`Document.readScalar_int`), and a double from its shortest form
(`Document.readScalar_double`), which has a point or an exponent and no needless zero in front
(`Numeral.spelled_write`).
-/

namespace EquationStudio

namespace Document

/-! ## Texts -/

/-- A hexadecimal digit is read as its value. -/
theorem hexValue?_digitChar : ∀ d < 16, hexValue? (Nat.digitChar d) = some d := by decide

/-- Four hexadecimal digits are read as the code unit that they were written for. -/
theorem readUnit_hexDigits {n : Nat} (hn : n < 0x10000) (rest : List Char) :
    readUnit (hexDigits n 4 ++ rest) = some (n, rest) := by
  have hdigit : ∀ k, hexValue? (Nat.digitChar (k % 16)) = some (k % 16) := fun k =>
    hexValue?_digitChar _ (Nat.mod_lt _ (by decide))
  have hvalue : (n / 16 / 16 / 16 % 16 * 16 + n / 16 / 16 % 16) * 256 + n / 16 %
      16 * 16 + n % 16 = n := by
    omega
  simp only [hexDigits, List.nil_append, List.cons_append, readUnit, hdigit, Option.bind_eq_bind,
    Option.bind_some, hvalue]
  rfl

/-- The escape of a control character is read as that character. -/
theorem readEscape_control {c : Char} (hc : c.toNat < 0x20) (rest : List Char) :
    readEscape (hexDigits c.toNat 4 ++ rest) = some (c, rest) := by
  unfold readEscape
  rw [readUnit_hexDigits (by omega), Option.bind_eq_bind, Option.bind_some]
  dsimp only
  rw [if_neg (by omega), if_neg (by omega), Char.ofNat_toNat]
  rfl

/-- A character is read back in one step. -/
theorem readText_documentChar (fuel : Nat) (read : List Char) (c : Char) (rest : List Char) :
    readText (fuel + 1) read (documentChar c ++ rest) = readText fuel (c :: read) rest := by
  unfold documentChar
  split
  · next h => subst h; rfl
  split
  · next h => subst h; rfl
  split
  · next h => subst h; rfl
  split
  · next h => subst h; rfl
  split
  · next h => subst h; rfl
  split
  · next h => subst h; rfl
  split
  · next h => subst h; rfl
  split
  · next hcontrol =>
    rw [List.cons_append, List.cons_append, readText, if_neg (by decide), if_pos rfl,
      readEscape_control hcontrol]
  · next hquote hbackslash _ _ _ _ _ hplain =>
    rw [List.singleton_append, readText.eq_def]
    dsimp only
    rw [if_neg hquote, if_neg hbackslash, if_neg hplain]

/-- Characters are read back up to the closing quote. -/
theorem readText_documentText : ∀ {cs : List Char} {fuel : Nat}, cs.length < fuel →
    ∀ read rest : List Char, readText fuel read (cs.flatMap documentChar ++ '"' :: rest) =
      .ok (String.ofList (read.reverse ++ cs), rest)
  | [], fuel + 1, _, read, rest => by
    rw [List.flatMap_nil, List.nil_append, readText.eq_def, List.append_nil]
    exact if_pos rfl
  | c :: cs, fuel + 1, h, read, rest => by
    rw [List.flatMap_cons, List.append_assoc, readText_documentChar,
      readText_documentText (Nat.lt_of_succ_lt_succ h), List.reverse_cons, List.append_assoc,
      List.singleton_append]

/-- A character is written with one character at least. -/
theorem length_le_flatMap_documentChar (cs : List Char) :
    cs.length ≤ (cs.flatMap documentChar).length := by
  induction cs with
  | nil => exact Nat.le_refl _
  | cons c cs ih =>
    have hpos : 0 < (documentChar c).length := by
      unfold documentChar
      repeat' split
      all_goals exact Nat.succ_pos _
    rw [List.flatMap_cons, List.length_append, List.length_cons]
    omega

/-- A text is read back from behind its opening quote. -/
theorem readText_text (s : String) (rest : List Char) :
    readText ((s.toList.flatMap documentChar ++ '"' :: rest).length + 1) []
      (s.toList.flatMap documentChar ++ '"' :: rest) = .ok (s, rest) := by
  have hlength := length_le_flatMap_documentChar s.toList
  rw [readText_documentText (by rw [List.length_append]; omega), List.reverse_nil, List.nil_append,
    String.ofList_toList]

/-! ## The parts of a number -/

/-- What follows a number: nothing, or a character that does not go on with it. -/
def Closed (rest : List Char) : Prop :=
  ∀ c ∈ rest.head?, c.isDigit = false ∧ c ≠ '.' ∧ c ≠ 'e' ∧ c ≠ 'E'

/-- What follows a number begins with no digit. -/
theorem Closed.undigited {rest : List Char} (h : Closed rest) : Undigited rest :=
  fun c hc => (h c hc).1

/-- The digits of a whole number, without a zero in front unless it is zero. -/
structure Whole (cs : List Char) : Prop where
  digits : Digits cs
  ne_nil : cs ≠ []
  zero : cs.head? = some '0' → cs = ['0']

/-- The fraction of a number, from the point on, if it has one. -/
def Fraction (cs : List Char) : Prop :=
  cs = [] ∨ ∃ digits, cs = '.' :: digits ∧ Digits digits ∧ digits ≠ []

/-- The exponent of a number, with its sign, if it has one. -/
def Exponent (cs : List Char) : Prop :=
  cs = [] ∨ ∃ sign digits, cs = 'e' :: sign :: digits ∧ (sign = '-' ∨ sign = '+') ∧
    Digits digits ∧ digits ≠ []

/-- No digits come after the digits of a whole number. -/
theorem Whole.leading {digits rest : List Char} (h : Whole digits) (hr : Undigited rest) :
    (match digits ++ rest with
      | '0' :: _ => ['0']
      | _ => (digits ++ rest).takeWhile Char.isDigit) = digits := by
  split
  · next heq =>
    refine (h.zero ?_).symm
    cases digits with
    | nil => exact absurd rfl h.ne_nil
    | cons c cs => rw [List.head?_cons, (List.cons.inj heq).1]
  · exact takeWhile_digits h.digits hr

/-- The fraction of a number is read up to its exponent. -/
theorem Fraction.read {fraction rest : List Char} (h : Fraction fraction) (hr : Undigited rest)
    (hpoint : ∀ c ∈ rest.head?, c ≠ '.') : fractionPart (fraction ++ rest) = (fraction, rest) := by
  obtain rfl | ⟨digits, rfl, hdigits, hne⟩ := h
  · cases rest with
    | nil => rfl
    | cons c cs =>
      rw [List.nil_append, fractionPart.eq_def]
      split
      · next heq => exact absurd (List.cons.inj heq).1 (hpoint c rfl)
      · rfl
  · rw [List.cons_append, fractionPart, takeWhile_digits hdigits hr, dropWhile_digits hdigits hr,
      if_neg (by simpa using hne)]

/-- The exponent of a number is read to its end. -/
theorem Exponent.read {exponent rest : List Char} (h : Exponent exponent) (hr : Closed rest) :
    exponentPart (exponent ++ rest) = (exponent, rest) := by
  obtain rfl | ⟨sign, digits, rfl, hsign, hdigits, hne⟩ := h
  · cases rest with
    | nil => rfl
    | cons c cs =>
      obtain ⟨-, -, he, hE⟩ := hr c rfl
      rw [List.nil_append, exponentPart.eq_def]
      exact if_neg fun h => h.elim he hE
  · have htake := takeWhile_digits hdigits hr.undigited
    have hdrop := dropWhile_digits hdigits hr.undigited
    obtain rfl | rfl := hsign <;>
      simp only [List.cons_append, exponentPart, htake, hdrop, true_or, if_true,
        List.isEmpty_eq_false_iff.2 hne, Bool.false_eq_true, if_false, List.nil_append]

/-- Behind a whole number and its fraction no digit comes before the exponent or the end. -/
theorem Exponent.undigited {exponent rest : List Char} (h : Exponent exponent) (hr : Closed rest) :
    ∀ c ∈ (exponent ++ rest).head?, c.isDigit = false ∧ c ≠ '.' := by
  obtain rfl | ⟨sign, digits, rfl, -⟩ := h
  · exact fun c hc => ⟨(hr c hc).1, (hr c hc).2.1⟩
  · intro c hc
    cases hc
    decide

/-! ## Numbers -/

section
variable {limit : Option Nat} {negative : Bool} {whole fraction exponent rest : List Char}

/-- A number with a fraction or an exponent is read back as a double. -/
theorem readNumber_double (hw : Whole whole) (hf : Fraction fraction) (he : Exponent exponent)
    (hpart : fraction ≠ [] ∨ exponent ≠ []) (hr : Closed rest) {n : Numeral}
    (hn : readNumeral (whole ++ fraction ++ exponent) = some n) :
    readNumber limit negative (whole ++ fraction ++ exponent ++ rest) =
      .ok (.float (n.toDouble negative), rest) := by
  have hbehind := he.undigited hr
  have hundigited : Undigited (fraction ++ (exponent ++ rest)) := by
    obtain rfl | ⟨digits, rfl, -⟩ := hf
    · exact fun c hc => (hbehind c hc).1
    · intro c hc
      cases hc
      rfl
  have hfraction := hf.read (fun c hc => (hbehind c hc).1) fun c hc => (hbehind c hc).2
  have hnone : (fraction.isEmpty && exponent.isEmpty) = false := by
    obtain h | h := hpart <;> simp [h]
  rw [List.append_assoc, List.append_assoc]
  unfold readNumber
  extract_lets leading
  have hlead : leading = whole := hw.leading hundigited
  clear_value leading
  subst hlead
  simp only [List.isEmpty_eq_false_iff.2 hw.ne_nil, List.drop_left, hfraction,
    he.read hr, hnone, hn, Bool.false_eq_true, if_false]

/-- Digits are read back as an integer. -/
theorem readNumber_int (hw : Whole whole) (hr : Closed rest)
    (hlimit : limit.any (· < whole.length) = false) :
    readNumber limit negative (whole ++ rest) =
      .ok (.int (if negative then -(digitsToNat whole : Int) else digitsToNat whole), rest) := by
  have hfraction := Fraction.read (.inl rfl) hr.undigited fun c hc => (hr c hc).2.1
  have hexponent := Exponent.read (.inl rfl) hr
  rw [List.nil_append] at hfraction hexponent
  unfold readNumber
  extract_lets leading
  have hlead : leading = whole := hw.leading hr.undigited
  clear_value leading
  subst hlead
  simp only [List.isEmpty_eq_false_iff.2 hw.ne_nil, List.drop_left, hfraction, hexponent, hlimit,
    List.isEmpty_nil, Bool.and_self, Bool.false_eq_true, if_false, if_true]
  rfl

end

/-! ## Words -/

/-- What begins with a digit is read as a number. -/
theorem readScalar_digit (limit : Option Nat) {c : Char} (hc : c.isDigit = true)
    (rest : List Char) : readScalar limit (c :: rest) = readNumber limit false (c :: rest) := by
  have hne : ∀ d : Char, d.isDigit = false → d ≠ c := by
    rintro d hd rfl
    rw [hc] at hd
    cases hd
  unfold readScalar
  simp only [afterWord?, List.isPrefixOf_iff_prefix, Option.map_if, String.reduceToList,
    List.cons_prefix_cons, Char.isValue, Char.reduceIsDigit, hne, false_and, ↓reduceIte,
    Option.isNone_none, List.findSome?_cons_of_isNone, List.findSome?_nil]
  split
  · next heq => exact absurd (List.cons.inj heq).1.symm (hne '-' rfl)
  · rfl

/-- What begins with a minus sign and a digit is read as a number below zero. -/
theorem readScalar_minus (limit : Option Nat) {c : Char} (hc : c.isDigit = true)
    (rest : List Char) :
    readScalar limit ('-' :: c :: rest) = readNumber limit true (c :: rest) := by
  have hne : ∀ d : Char, d.isDigit = false → d ≠ c := by
    rintro d hd rfl
    rw [hc] at hd
    cases hd
  unfold readScalar
  simp [afterWord?, hne]

/-! ## Written numbers -/

/-- The digits of a natural have no zero in front. -/
theorem head?_toDigits {n : Nat} (hn : n ≠ 0) : (Nat.toDigits 10 n).head? ≠ some '0' := by
  induction n using Nat.strongRecOn with
  | ind n ih =>
    obtain hlt | hle := Nat.lt_or_ge n 10
    · have hdigit : ∀ k < 10, k ≠ 0 → Nat.digitChar k ≠ '0' := by decide
      rw [Nat.toDigits_of_lt_base hlt]
      exact fun h => hdigit n hlt hn (Option.some.inj h)
    · rw [Nat.toDigits_of_base_le (by decide) hle,
        List.head?_append_of_ne_nil _ Nat.toDigits_ne_nil]
      exact ih (n / 10) (by omega) (by omega)

/-- The digits of a natural are those of a whole number. -/
theorem whole_toDigits (n : Nat) : Whole (Nat.toDigits 10 n) := by
  refine ⟨digits_toDigits n, Nat.toDigits_ne_nil, fun h => ?_⟩
  by_cases hn : n = 0
  · rw [hn, Nat.toDigits_zero]
  · exact absurd h (head?_toDigits hn)

/-- A natural below a power of ten has no more digits than that power has zeros. -/
theorem length_toDigits_le {n k : Nat} (hk : 0 < k) (h : n < Nat.pow 10 k) :
    (Nat.toDigits 10 n).length ≤ k :=
  (Nat.length_toDigits_le_iff (by decide) hk).2 h

/-- More digits make another whole number, unless they come behind zero. -/
theorem Whole.append {cs ds : List Char} (h : Whole cs) (hd : Digits ds)
    (hzero : cs = ['0'] → ds = []) : Whole (cs ++ ds) := by
  refine ⟨digits_append.2 ⟨h.digits, hd⟩,
    List.append_ne_nil_of_left_ne_nil h.ne_nil _, fun hhead => ?_⟩
  rw [List.head?_append_of_ne_nil _ h.ne_nil] at hhead
  rw [hzero (h.zero hhead), List.append_nil, h.zero hhead]

/-- The first digits of a whole number make one. -/
theorem Whole.take {cs : List Char} (h : Whole cs) {k : Nat} (hk : 0 < k) : Whole (cs.take k) := by
  obtain ⟨c, cs, rfl⟩ := List.exists_cons_of_ne_nil h.ne_nil
  obtain ⟨k, rfl⟩ := Nat.exists_eq_add_one_of_ne_zero hk.ne'
  refine ⟨h.digits.subset (List.take_subset _ _), List.cons_ne_nil _ _, fun hhead => ?_⟩
  rw [h.zero hhead, List.take_succ_cons, List.take_nil]

end Document

open Document

/-- A numeral is written as a whole number and a fraction or an exponent, if zero is written without
a power of ten. -/
theorem Numeral.spelled_write {n : Numeral} (hn : n.digits = 0 → n.exponent = 0) (style : Style) :
    ∃ whole fraction exponent, (n.write style).toList = whole ++ fraction ++ exponent ∧
      Whole whole ∧
      Fraction fraction ∧ Exponent exponent ∧ (fraction ≠ [] ∨ exponent ≠ []) := by
  have hwhole := whole_toDigits n.digits
  have hzero : Nat.toDigits 10 n.digits = ['0'] → n.exponent = 0 := by
    intro h
    refine hn (by_contra fun hne => head?_toDigits hne ?_)
    rw [h]
    rfl
  unfold write
  dsimp only
  rw [toList_toString]
  generalize Nat.toDigits 10 n.digits = digits at *
  have hlen := List.length_pos_iff.2 hwhole.ne_nil
  split
  · split
    · next hpoint =>
      refine ⟨['0'], '.' :: (List.replicate (-(n.exponent + digits.length)).toNat '0' ++ digits),
        [], by simp, ⟨by simp [Digits], by simp, fun _ => rfl⟩, ?_, .inl rfl,
        .inl (List.cons_ne_nil _ _)⟩
      exact .inr ⟨_, rfl, digits_append.2 ⟨digits_zeros _, hwhole.digits⟩,
        List.append_ne_nil_of_right_ne_nil _ hwhole.ne_nil⟩
    · split
      · next hpoint hbeyond =>
        refine ⟨digits ++ List.replicate (n.exponent + digits.length - digits.length).toNat '0',
          ['.', '0'], [], by simp, hwhole.append (digits_zeros _) fun h => ?_, ?_, .inl rfl,
          .inl (List.cons_ne_nil _ _)⟩
        · simp [hzero h]
        · exact .inr ⟨['0'], rfl, digits_zeros 1, List.cons_ne_nil _ _⟩
      · next hpoint hbetween =>
        refine ⟨digits.take (n.exponent + digits.length).toNat,
          '.' :: digits.drop (n.exponent + digits.length).toNat, [], by simp,
          hwhole.take (by omega), ?_,
          .inl rfl, .inl (List.cons_ne_nil _ _)⟩
        refine .inr ⟨_, rfl, hwhole.digits.subset (List.drop_subset _ _), ?_⟩
        rw [← List.length_pos_iff, List.length_drop]
        omega
  · obtain ⟨hpadded, hne, -⟩ :=
      paddedDigits_spec style.exponentDigits (n.exponent + digits.length - 1).natAbs
    refine ⟨digits.take 1, if (digits.drop 1).isEmpty then [] else '.' :: digits.drop 1,
      'e' :: (if n.exponent + digits.length - 1 < 0 then '-' else '+') ::
        (paddedDigits style.exponentDigits (n.exponent + digits.length - 1).natAbs).toList, ?_,
      hwhole.take Nat.one_pos, ?_, .inr ⟨_, _, rfl, ?_, hpadded, hne⟩, .inr (List.cons_ne_nil _ _)⟩
    · by_cases he : n.exponent + digits.length - 1 < 0 <;> simp [he]
    · split
      · exact .inl rfl
      · next hmore =>
        exact .inr ⟨_, rfl, hwhole.digits.subset (List.drop_subset _ _), by simpa using hmore⟩
    · split
      · exact .inl rfl
      · exact .inr rfl

namespace Document

/-- A double is read back before anything that does not go on with it. -/
theorem readScalar_double (limit : Option Nat) (x : Double) {rest : List Char} (hr : Closed rest) :
    readScalar limit ((documentDouble x).toList ++ rest) = .ok (.float x, rest) := by
  cases x with
  | nan => rfl
  | infinite negative => cases negative <;> rfl
  | finite x =>
    obtain ⟨m, hm, -⟩ := Numeral.readNumeral_write .readable (Numeral.shortest x.code)
    have hvalue : m.toDouble x.negative = .finite x := by
      have hread := readDouble_signed (Numeral.numeralChars_write .readable _) hm x.negative
      rw [String.ofList_toList] at hread
      exact Option.some.inj (hread.symm.trans x.readDouble_write)
    have hzero : (Numeral.shortest x.code).digits = 0 → (Numeral.shortest x.code).exponent = 0 := by
      intro hdigits
      by_cases hcode : (x.code : Nat) = 0
      · rw [hcode]
        rfl
      · refine absurd hdigits (Numeral.digits_ne_zero ?_)
        rwa [Numeral.code_shortest]
    obtain ⟨whole, fraction, exponent, hwritten, hw, hf, he, hpart⟩ :=
      Numeral.spelled_write hzero .readable
    rw [hwritten] at hm
    have hread : ∀ negative, readNumber limit negative (whole ++ fraction ++ exponent ++ rest) =
        .ok (.float (m.toDouble negative), rest) := fun _ => readNumber_double hw hf he hpart hr hm
    obtain ⟨c, cs, rfl⟩ := List.exists_cons_of_ne_nil hw.ne_nil
    have hc : c.isDigit = true := hw.digits c (.head _)
    show readScalar limit (x.write.toList ++ rest) = _
    rw [FiniteDouble.write, String.toList_append, hwritten]
    cases hneg : x.negative with
    | true =>
      rw [hneg] at hvalue
      exact (readScalar_minus limit hc _).trans ((hread true).trans (by rw [hvalue]))
    | false =>
      rw [hneg] at hvalue
      exact (readScalar_digit limit hc _).trans ((hread false).trans (by rw [hvalue]))

/-- An integer that can be written is read back before anything that does not go on with it. -/
theorem readScalar_int {n : Int} {digits : String} (h : integerText n = .ok digits)
    {rest : List Char} (hr : Closed rest) :
    readScalar (some writtenDigits) (digits.toList ++ rest) = .ok (.int n, rest) := by
  unfold integerText at h
  split at h
  · next hsize =>
    cases h
    have hlength := length_toDigits_le (by decide) hsize
    have hread : ∀ negative, readNumber (some writtenDigits) negative
        (Nat.toDigits 10 n.natAbs ++ rest) =
        .ok (.int (if negative then -(n.natAbs : Int) else n.natAbs), rest) := fun negative => by
      rw [readNumber_int (whole_toDigits n.natAbs) hr (by simpa using hlength),
        digitsToNat_toDigits]
    obtain ⟨c, cs, hcs⟩ :=
      List.exists_cons_of_ne_nil (Nat.toDigits_ne_nil (b := 10) (n := n.natAbs))
    have hc : c.isDigit = true := (whole_toDigits n.natAbs).digits c (hcs ▸ .head _)
    rw [toString_int, String.toList_append, String.toList_ofList]
    rw [hcs] at hread ⊢
    by_cases hn : n < 0
    · rw [if_pos (decide_eq_true hn)]
      refine (readScalar_minus _ hc _).trans ((hread true).trans ?_)
      rw [if_pos rfl, Int.ofNat_natAbs_of_nonpos (Int.le_of_lt hn), Int.neg_neg]
    · rw [if_neg (by simpa using hn)]
      refine (readScalar_digit _ hc _).trans ((hread false).trans ?_)
      rw [if_neg (by decide), Int.natAbs_of_nonneg (Int.not_lt.1 hn)]
  · cases h

end Document

end EquationStudio
