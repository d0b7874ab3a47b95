import EquationStudio.Proofs.Numeric.Code
import Mathlib.Tactic.IntervalCases

/-!
# Literals are read back

A numeral is written in one of four forms, and each is read as a numeral of the same value
(`Numeral.readNumeral_write`). Around it stand a sign at most, no blanks, no underscores, no digits
of other scripts and no words, so nothing but the sign is taken off before it is read
(`readDouble_ofList`). Every finite double is therefore read from its shortest form as that double
(`FiniteDouble.readDouble_write`), and the literal of a number that was accepted as that number
(`Number.ofDatum_literal`).

Read as a decimal, without rounding (`decimal?`), a literal gives the rational that takes the place
of the number in algebra (`Number.decimal?_literal`).
-/

namespace EquationStudio

/-! ## Digits -/

/-- Characters all of which are digits. -/
def Digits (cs : List Char) : Prop := ∀ c ∈ cs, c.isDigit = true

/-- Digits in a row. -/
@[simp] theorem digits_append {cs ds : List Char} : Digits (cs ++ ds) ↔ Digits cs ∧ Digits ds :=
  List.forall_mem_append

/-- Zeros are digits. -/
@[simp] theorem digits_zeros (k : Nat) : Digits (List.replicate k '0') := fun c hc => by
  rw [List.eq_of_mem_replicate hc]; rfl

/-- The digits of a natural. -/
theorem toList_toString (n : Nat) : (toString n).toList = Nat.toDigits 10 n := by
  rw [Nat.toString_eq_ofList_toDigits, String.toList_ofList]

/-- A natural is written in digits. -/
@[simp] theorem digits_toDigits (n : Nat) : Digits (Nat.toDigits 10 n) := fun _ hc =>
  Nat.isDigit_of_mem_toDigits (by decide) (by decide) hc

/-- Fewer digits. -/
theorem Digits.subset {cs ds : List Char} (h : Digits ds) (hs : cs ⊆ ds) : Digits cs :=
  fun c hc => h c (hs hc)

/-- The digits of a natural stand for it. -/
@[simp] theorem digitsToNat_toDigits (n : Nat) : digitsToNat (Nat.toDigits 10 n) = n :=
  Nat.ofDigitChars_ten_toDigits

/-- Digits in a row stand for the first ones moved to the left, and the others. -/
theorem digitsToNat_append (cs ds : List Char) :
    digitsToNat (cs ++ ds) = 10 ^ ds.length * digitsToNat cs + digitsToNat ds := by
  show Nat.ofDigitChars 10 (cs ++ ds) 0 = _
  rw [Nat.ofDigitChars_append, Nat.ofDigitChars_eq_ofDigitChars_zero]
  rfl

/-- Zeros stand for nothing. -/
@[simp] theorem digitsToNat_zeros (k : Nat) : digitsToNat (List.replicate k '0') = 0 := by
  show Nat.ofDigitChars 10 (List.replicate k '0') 0 = 0
  rw [Nat.ofDigitChars_replicate_zero, Nat.mul_zero]

/-- A list that does not begin with a digit. -/
def Undigited (cs : List Char) : Prop := ∀ c ∈ cs.head?, c.isDigit = false

/-- Digits end where something else begins. -/
theorem takeWhile_digits {cs rest : List Char} (h : Digits cs) (hr : Undigited rest) :
    (cs ++ rest).takeWhile Char.isDigit = cs := by
  rw [List.takeWhile_append_of_pos h]
  cases rest with
  | nil => simp
  | cons c rest => rw [List.takeWhile_cons_of_neg (by simp [hr c (by simp)]), List.append_nil]

/-- What stands behind digits. -/
theorem dropWhile_digits {cs rest : List Char} (h : Digits cs) (hr : Undigited rest) :
    (cs ++ rest).dropWhile Char.isDigit = rest := by
  rw [List.dropWhile_append_of_pos h]
  cases rest with
  | nil => rfl
  | cons c rest => rw [List.dropWhile_cons_of_neg (by simp [hr c (by simp)])]

/-! ## Numerals -/

/-- What may stand behind the digits of a numeral: an exponent or nothing. -/
def ExponentPart (cs : List Char) : Prop := cs = [] ∨ ∃ rest, cs = 'e' :: rest

/-- An exponent does not begin with a digit. -/
theorem ExponentPart.undigited {cs : List Char} (h : ExponentPart cs) : Undigited cs := by
  obtain rfl | ⟨rest, rfl⟩ := h
  · intro c hc; cases hc
  · intro c hc; cases hc; rfl

/-- A numeral with a point. -/
theorem readNumeral_point {whole fraction rest : List Char} (hw : Digits whole) (hne : whole ≠ [])
    (hf : Digits fraction) (hr : ExponentPart rest) :
    readNumeral (whole ++ '.' :: (fraction ++ rest)) = (readExponent rest).map fun exponent =>
      ⟨digitsToNat (whole ++ fraction), exponent - fraction.length⟩ := by
  have hpoint : Undigited ('.' :: (fraction ++ rest)) := fun c hc => by cases hc; rfl
  unfold readNumeral
  simp only [takeWhile_digits hw hpoint, dropWhile_digits hw hpoint,
    takeWhile_digits hf hr.undigited, dropWhile_digits hf hr.undigited,
    List.isEmpty_eq_false_iff.2 hne, Bool.false_and,
    Bool.false_eq_true, if_false]

/-- A numeral without a point. -/
theorem readNumeral_plain {whole rest : List Char} (hw : Digits whole) (hne : whole ≠ [])
    (hr : ExponentPart rest) :
    readNumeral (whole ++ rest) = (readExponent rest).map fun exponent =>
      ⟨digitsToNat whole, exponent⟩ := by
  unfold readNumeral
  simp only [takeWhile_digits hw hr.undigited, dropWhile_digits hw hr.undigited]
  obtain rfl | ⟨rest, rfl⟩ := hr <;> simp [hne]

/-- A natural with zeros in front is written in digits that stand for it. -/
theorem paddedDigits_spec (width n : Nat) : Digits (paddedDigits width n).toList ∧
    (paddedDigits width n).toList ≠ [] ∧ digitsToNat (paddedDigits width n).toList = n := by
  simp only [paddedDigits, String.toList_append, String.toList_ofList, toList_toString]
  exact ⟨by simp, fun h => Nat.toDigits_ne_nil (List.append_eq_nil_iff.1 h).2,
    by simp [digitsToNat_append]⟩

/-- A written exponent is read. -/
theorem readExponent_written (e : Int) (width : Nat) :
    readExponent ('e' :: (if e < 0 then '-' else '+') :: (paddedDigits width e.natAbs).toList) =
      some e := by
  obtain ⟨hdigits, hne, hvalue⟩ := paddedDigits_spec width e.natAbs
  have hall : (paddedDigits width e.natAbs).toList.all Char.isDigit = true :=
    List.all_eq_true.2 hdigits
  generalize (paddedDigits width e.natAbs).toList = cs at *
  by_cases he : e < 0
  · simp only [readExponent, if_pos he, splitSign, List.isEmpty_eq_false_iff.2 hne, hall]
    simp
    omega
  · simp only [readExponent, if_neg he, splitSign, List.isEmpty_eq_false_iff.2 hne, hall]
    simp
    omega

/-! ## Written numerals -/

/-- A numeral with a point and no exponent. -/
theorem readNumeral_positional {whole fraction : List Char} (hw : Digits whole) (hne : whole ≠ [])
    (hf : Digits fraction) : readNumeral (whole ++ '.' :: fraction) =
      some ⟨digitsToNat (whole ++ fraction), -fraction.length⟩ := by
  have h := readNumeral_point hw hne hf (.inl rfl)
  rw [List.append_nil] at h
  rw [h, readExponent, Option.map_some, Int.zero_sub]

section
variable {digits : List Char} (hd : Digits digits)
include hd

/-- Digits behind a point and zeros. -/
theorem readNumeral_below (k : Nat) :
    readNumeral ('0' :: '.' :: (List.replicate k '0' ++ digits)) =
      some ⟨digitsToNat digits, -(k + digits.length : Nat)⟩ := by
  have hfraction : Digits (List.replicate k '0' ++ digits) := digits_append.2 ⟨digits_zeros k, hd⟩
  have hvalue : digitsToNat (List.replicate 1 '0' ++ (List.replicate k '0' ++ digits)) =
      digitsToNat digits := by
    rw [digitsToNat_append, digitsToNat_append, digitsToNat_zeros, digitsToNat_zeros, Nat.mul_zero,
      Nat.mul_zero, Nat.zero_add, Nat.zero_add]
  have hread := readNumeral_positional (digits_zeros 1) (List.cons_ne_nil _ _) hfraction
  rw [hvalue, List.length_append, List.length_replicate] at hread
  exact hread

/-- Digits and zeros in front of a point, and a zero behind it. -/
theorem readNumeral_beyond (hne : digits ≠ []) (k : Nat) :
    readNumeral (digits ++ List.replicate k '0' ++ ['.', '0']) =
      some ⟨digitsToNat digits * 10 ^ (k + 1), -1⟩ := by
  have hwhole : Digits (digits ++ List.replicate k '0') := digits_append.2 ⟨hd, digits_zeros k⟩
  have hvalue : digitsToNat (digits ++ List.replicate k '0' ++ List.replicate 1 '0') =
      digitsToNat digits * 10 ^ (k + 1) := by
    rw [List.append_assoc, List.replicate_append_replicate, digitsToNat_append, digitsToNat_zeros,
      List.length_replicate, Nat.mul_comm, Nat.add_zero]
  have hread :=
    readNumeral_positional hwhole (List.append_ne_nil_of_left_ne_nil hne _) (digits_zeros 1)
  rw [hvalue, List.length_replicate] at hread
  exact hread

/-- A point between digits. -/
theorem readNumeral_between {k : Nat} (hk : 0 < k) (hlen : k < digits.length) :
    readNumeral (digits.take k ++ '.' :: digits.drop k) =
      some ⟨digitsToNat digits, -(digits.length - k : Nat)⟩ := by
  have hne : digits.take k ≠ [] := by
    rw [← List.length_pos_iff, List.length_take]
    omega
  have hread := readNumeral_positional (hd.subset (List.take_subset k digits)) hne
    (hd.subset (List.drop_subset k digits))
  rwa [List.take_append_drop, List.length_drop] at hread

/-- A point behind the first digit, if there are more, and an exponent. -/
theorem readNumeral_scientific (hne : digits ≠ []) (e : Int) (width : Nat) :
    readNumeral (digits.take 1 ++ (if (digits.drop 1).isEmpty then [] else '.' :: digits.drop 1) ++
        'e' :: (if e < 0 then '-' else '+') :: (paddedDigits width e.natAbs).toList) =
      some ⟨digitsToNat digits, e - (digits.length - 1 : Nat)⟩ := by
  have hr : ExponentPart ('e' :: (if e < 0 then '-' else '+') ::
      (paddedDigits width e.natAbs).toList) :=
    .inr ⟨_, rfl⟩
  have hfirst : digits.take 1 ≠ [] := by simpa using hne
  have hwhole := hd.subset (List.take_subset 1 digits)
  have hfraction := hd.subset (List.drop_subset 1 digits)
  rw [← List.length_drop]
  cases hmore : digits.drop 1 with
  | nil =>
    have hone : digits.take 1 = digits := List.take_of_length_le (List.drop_eq_nil_iff.1 hmore)
    rw [List.isEmpty_nil, if_pos rfl, List.append_nil, hone, readNumeral_plain hd hne hr,
      readExponent_written]
    simp
  | cons c cs =>
    rw [hmore] at hfraction
    rw [List.isEmpty_cons, if_neg (by decide), List.append_assoc, List.cons_append,
      readNumeral_point hwhole hfirst hfraction hr, readExponent_written, ← hmore,
      List.take_append_drop]
    rfl

end

/-- A numeral is written so that a numeral of the same value is read. -/
theorem Numeral.readNumeral_write (style : Style) (n : Numeral) :
    ∃ m, readNumeral (n.write style).toList = some m ∧ m.toRat = n.toRat := by
  have hdigits := digits_toDigits n.digits
  have hne : Nat.toDigits 10 n.digits ≠ [] := Nat.toDigits_ne_nil
  have hlen := List.length_pos_iff.2 hne
  have hsame : ∀ {d : Nat} {e : Int}, d = n.digits → e = n.exponent →
      (⟨d, e⟩ : Numeral).toRat = n.toRat := by rintro d e rfl rfl; rfl
  have hvalue := digitsToNat_toDigits n.digits
  unfold write
  dsimp only
  rw [toList_toString]
  generalize Nat.toDigits 10 n.digits = digits at *
  split
  · split
    · have hread := readNumeral_below hdigits (-(n.exponent + digits.length)).toNat
      exact ⟨_, by simpa using hread, hsame hvalue (by omega)⟩
    · split
      · next hpoint hbeyond =>
        have hread :=
          readNumeral_beyond hdigits hne (n.exponent + digits.length - digits.length).toNat
        refine ⟨_, by simpa using hread, ?_⟩
        rw [toRat_shift]
        exact hsame hvalue (by omega)
      · next hpoint hbetween =>
        have hread :=
          readNumeral_between hdigits (k := (n.exponent + digits.length).toNat) (by omega)
          (by omega)
        exact ⟨_, by simpa using hread, hsame hvalue (by omega)⟩
  · have hread :=
      readNumeral_scientific hdigits hne (n.exponent + digits.length - 1) style.exponentDigits
    by_cases he : n.exponent + digits.length - 1 < 0
    · exact ⟨_, by simpa [he] using hread, hsame hvalue (by omega)⟩
    · exact ⟨_, by simpa [he] using hread, hsame hvalue (by omega)⟩

/-! ## Texts of numerals -/

/-- The characters of which numerals are written, one by one. -/
theorem mem_of_numeralChar {c : Char} (h : c.isDigit = true ∨ c ∈ ['-', '+', '.', 'e']) :
    c ∈ "0123456789-+.e".toList := by
  rcases h with h | h
  · obtain ⟨hlow, hhigh⟩ : 48 ≤ c.toNat ∧ c.toNat ≤ 57 := Char.isDigit_iff_toNat.1 h
    rw [← Char.ofNat_toNat c]
    generalize c.toNat = k at hlow hhigh
    interval_cases k <;> decide
  · have hall : ['-', '+', '.', 'e'].all ("0123456789-+.e".toList.contains ·) = true := rfl
    exact List.contains_iff_mem.1 (List.all_eq_true.1 hall c h)

/-- What holds of each character of numerals holds wherever a numeral is written. -/
theorem NumeralChars.forall {cs : List Char} (h : NumeralChars cs)
    {P : Char → Prop} [DecidablePred P] (hP : "0123456789-+.e".toList.all (decide <| P ·) = true) :
    ∀ c ∈ cs, P c :=
  fun c hc => of_decide_eq_true (List.all_eq_true.1 hP c (mem_of_numeralChar (h c hc)))

/-- The digits of a numeral are Latin ones. -/
theorem latinDigits_of_numeralChars {cs : List Char} (h : NumeralChars cs) :
    latinDigits cs = cs := by
  have hsame :=
    h.forall (P := fun c => ((digitValue? c).map Nat.digitChar).getD c = c) (by decide +kernel)
  exact (List.map_congr_left hsame).trans (List.map_id cs)

/-- A numeral has no underscores to be dropped. -/
theorem dropUnderscores_of_numeralChars : ∀ {cs : List Char} {p : Char}, NumeralChars cs →
    p ≠ '_' → dropUnderscores p cs = some cs
  | [], _, _, hp => by rw [dropUnderscores, if_neg hp]
  | c :: cs, p, h, hp => by
    have hc := h.forall (P := fun c => c ≠ '_') (by decide +kernel) c (.head _)
    rw [dropUnderscores, if_neg hc, if_neg fun hand => hp hand.1,
      dropUnderscores_of_numeralChars (fun c hc => h c (.tail _ hc)) hc]
    rfl

/-- A numeral is no word. -/
theorem lowerLatin_ne_of_numeralChars {cs : List Char} (h : NumeralChars cs)
    (word : String) {c : Char} (hc : c ∈ word.toList) (hne : c ∉ "0123456789-+.e".toList) :
    lowerLatin (String.ofList cs) ≠ word := by
  intro he
  have hlower : (lowerLatin (String.ofList cs)).toList = cs.map Char.toLower := by
    rw [lowerLatin, String.toList_map, String.toList_ofList]
  rw [he] at hlower
  rw [hlower] at hc
  obtain ⟨d, hd, rfl⟩ := List.mem_map.1 hc
  exact hne (h.forall (P := fun c => c.toLower ∈ "0123456789-+.e".toList) (by decide +kernel) d hd)

/-- What stands behind the sign of a numeral is written of the same characters. -/
theorem NumeralChars.splitSign {cs : List Char} (h : NumeralChars cs) :
    NumeralChars (splitSign cs).2 := by
  refine h.subset ?_
  unfold EquationStudio.splitSign
  split
  · exact List.subset_cons_self _ _
  · exact List.subset_cons_self _ _
  · exact List.Subset.refl _

/-- A text that is written as numerals are is read as the numeral behind its sign. -/
theorem readDouble_ofList {cs : List Char} (h : NumeralChars cs) : readDouble (String.ofList cs) =
    (readNumeral (splitSign cs).2).map (Numeral.toDouble (splitSign cs).1) := by
  have hblank : ∀ c ∈ cs, isNumberBlank c = false := fun c hc => by
    rw [isNumberBlank, not_blank_of_numeralChar (h c hc), Bool.false_and]
  have hunderscores := dropUnderscores_of_numeralChars (p := ' ') h (by decide)
  have hinf := lowerLatin_ne_of_numeralChars h.splitSign "inf" (c := 'i') (by decide) (by decide)
  have hinfinity := lowerLatin_ne_of_numeralChars h.splitSign "infinity" (c := 'i')
    (by decide) (by decide)
  have hnan := lowerLatin_ne_of_numeralChars h.splitSign "nan" (c := 'n') (by decide) (by decide)
  unfold readDouble
  rw [String.toList_ofList, trimEnds_eq_self hblank]
  simp only [latinDigits_of_numeralChars h, hunderscores, Option.bind_eq_bind, Option.bind_some,
    hinf, hinfinity, hnan, or_self, if_false]
  cases readNumeral (EquationStudio.splitSign cs).2 <;> rfl

/-- What is read as an unsigned numeral begins with no sign. -/
theorem splitSign_of_readNumeral {cs : List Char} {m : Numeral} (h : readNumeral cs = some m) :
    splitSign cs = (false, cs) := by
  unfold splitSign
  split
  · cases h
  · cases h
  · rfl

/-- A numeral behind a sign at most is read. -/
theorem readDouble_signed {body : List Char} {m : Numeral} (hbody : NumeralChars body)
    (hm : readNumeral body = some m) (negative : Bool) :
    readDouble ((if negative then "-" else "") ++ String.ofList body) =
    some (m.toDouble negative) := by
  cases negative with
  | true =>
    have hsigned : "-" ++ String.ofList body = String.ofList ('-' :: body) := by
      simp [String.ofList_cons]
    rw [if_pos rfl, hsigned, readDouble_ofList (numeralChars_cons.2 ⟨by simp, hbody⟩),
      splitSign, hm, Option.map_some]
  | false =>
    rw [if_neg (by decide), String.empty_append, readDouble_ofList hbody,
      splitSign_of_readNumeral hm, hm, Option.map_some]

/-- No numeral begins with a letter. -/
theorem readNumeral_letter {c : Char} (hc : c.isDigit = false) (hpoint : c ≠ '.') (cs : List Char) :
    readNumeral (c :: cs) = none := by
  unfold readNumeral
  rw [List.takeWhile_cons_of_neg (by simp [hc]), List.dropWhile_cons_of_neg (by simp [hc])]
  split
  · next hdigits =>
    split at hdigits
    · next h => exact absurd (List.cons.inj h).1 hpoint
    · cases hdigits; rfl

/-! ## Literals -/

/-- An integer in words is its magnitude behind a sign at most. -/
theorem toString_int (n : Int) :
    toString n = (if decide (n < 0) then "-" else "") ++ String.ofList
    (Nat.toDigits 10 n.natAbs) := by
  rw [← Nat.toString_eq_ofList_toDigits]
  cases n with
  | ofNat k => exact (String.empty_append).symm
  | negSucc k =>
    rw [if_pos (decide_eq_true (Int.negSucc_lt_zero k))]
    rfl

/-- No other code than zero measures no step. -/
theorem codeSteps_eq_zero {code : Nat} : codeSteps code = 0 ↔ code = 0 := by
  unfold codeSteps
  split
  · rfl
  · next h =>
    have hpos : 0 < Nat.pow 2 (code / Nat.pow 2 52 - 1) := Nat.two_pow_pos _
    have hcode : code ≠ 0 := fun hzero => h (hzero ▸ Nat.two_pow_pos 52)
    refine iff_of_false (Nat.mul_ne_zero ?_ hpos.ne') hcode
    exact (Nat.add_pos_left (Nat.two_pow_pos 52) _).ne'

/-- A double of no magnitude is the whole number zero, and no other is. -/
theorem FiniteDouble.toInt?_eq_zero {x : FiniteDouble} : x.toInt? = some 0 ↔
    (x.code : Nat) = 0 := by
  rw [toInt?_eq_some, Int.zero_mul, ← Int.natAbs_eq_zero, x.natAbs_steps, codeSteps_eq_zero]

/-- A whole number that is a double is read from its digits as that double. -/
theorem readDouble_toString {x : FiniteDouble} {n : Int} (h : x.toInt? = some n) :
    readDouble (toString n) = some (Double.ofInt n) := by
  have hread : readNumeral (Nat.toDigits 10 n.natAbs) = some ⟨n.natAbs, 0⟩ := by
    have hplain := readNumeral_plain (digits_toDigits n.natAbs) Nat.toDigits_ne_nil (.inl rfl)
    rwa [List.append_nil, digitsToNat_toDigits] at hplain
  have hchars : NumeralChars (Nat.toDigits 10 n.natAbs) := fun c hc => .inl (digits_toDigits _ c hc)
  rw [toString_int, readDouble_signed hchars hread, Option.some.injEq]
  by_cases hn : n = 0
  · subst hn
    decide +kernel
  · have hcode : (⟨n.natAbs, 0⟩ : Numeral).code = x.code := by
      rw [← FiniteDouble.codeOfRatio_toInt? h]
      show codeOfRatio (n.natAbs * 1) 1 = _
      rw [Nat.mul_one]
    have hne : (⟨n.natAbs, 0⟩ : Numeral).code ≠ 0 := fun hzero => by
      rw [hcode, ← FiniteDouble.toInt?_eq_zero, h] at hzero
      exact hn (Option.some.inj hzero)
    rw [Numeral.toDouble_of_code (Numeral.digits_ne_zero hne) hne (hcode ▸ x.code.isLt), hcode,
      FiniteDouble.ofInt_toInt? h, Double.ofCode, dif_pos x.code.isLt]

/-- A finite double is read from its shortest form as that double, the sign of zero included. -/
theorem FiniteDouble.readDouble_write (x : FiniteDouble) :
    readDouble x.write = some (.finite x) := by
  obtain ⟨m, hm, hvalue⟩ := Numeral.readNumeral_write .readable (Numeral.shortest x.code)
  have hcode := (Numeral.code_congr hvalue).trans (Numeral.code_shortest x.code)
  by_cases hzero : (x.code : Nat) = 0
  · obtain ⟨negative, code⟩ := x
    obtain rfl : code = FiniteDouble.zero.code := Fin.ext hzero
    cases negative <;> decide +kernel
  · have hne : m.code ≠ 0 := hcode ▸ hzero
    have hread := readDouble_signed (Numeral.numeralChars_write .readable _) hm x.negative
    rw [String.ofList_toList, Numeral.toDouble_of_code (Numeral.digits_ne_zero hne) hne
      (hcode ▸ x.code.isLt), hcode, Double.ofCode, dif_pos x.code.isLt] at hread
    exact hread

namespace Number

/-- The literal of a number that was accepted is read as that number. -/
theorem ofDatum_literal {d : Datum} {v : Number} (h : ofDatum d = .ok v) :
    ofDatum (.text v.literal) = .ok v := by
  have hread : ∀ {x : Double}, readDouble v.literal = some x → ofDouble x = .ok v →
      ofDatum (.text v.literal) = .ok v := by
    intro x hx hv
    rw [ofDatum, v.isTrimmed_literal.1, hx]
    exact hv
  have haccepted := ofDatum_toDatum h
  obtain ⟨x, rfl⟩ := exists_ofFinite h
  obtain ⟨n, hn, hlimit, hplain, he⟩ | ⟨hplain, he⟩ := ofFinite_cases x
  · rw [he] at hread haccepted ⊢
    exact hread (readDouble_toString hn) haccepted
  · have hliteral : (ofFinite x).literal = x.write := by
      rw [he, literal, realLiteral, hplain]
    rw [hliteral] at hread ⊢
    exact hread x.readDouble_write rfl

end Number

/-! ## Decimals -/

/-- The rational that a text spells as a decimal, behind a sign at most. -/
def decimal? (s : String) : Option Rat :=
  let signed := splitSign s.toList
  (readNumeral signed.2).map fun n => if signed.1 then -n.toRat else n.toRat

/-- A numeral behind a sign at most is read as a decimal. -/
theorem decimal?_signed {body : List Char} {m : Numeral} (hm : readNumeral body = some m)
    (negative : Bool) : decimal? ((if negative then "-" else "") ++ String.ofList body) =
      some (if negative then -m.toRat else m.toRat) := by
  unfold decimal?
  cases negative with
  | true =>
    have hsigned : splitSign ("-" ++ String.ofList body).toList = (true, body) := by
      rw [String.toList_append, String.toList_ofList, String.toList_ofList]
      rfl
    simp only [if_true, hsigned, hm, Option.map_some]
  | false =>
    simp only [Bool.false_eq_true, if_false, String.empty_append, String.toList_ofList,
      splitSign_of_readNumeral hm, hm, Option.map_some]

/-- The digits of an integer spell it. -/
theorem decimal?_toString (n : Int) : decimal? (toString n) = some (n : Rat) := by
  have hread := readNumeral_plain (digits_toDigits n.natAbs) Nat.toDigits_ne_nil (.inl rfl)
  rw [List.append_nil, digitsToNat_toDigits] at hread
  rw [toString_int, decimal?_signed hread, Option.some.injEq]
  have hvalue : (⟨n.natAbs, 0⟩ : Numeral).toRat = ((n.natAbs : Int) : Rat) := by
    show mkRat (n.natAbs * 1 : Nat) 1 = _
    rw [Nat.mul_one, Rat.mkRat_one]
  by_cases hn : n < 0
  · rw [if_pos (decide_eq_true hn), hvalue, ← Rat.intCast_neg,
      Int.ofNat_natAbs_of_nonpos (Int.le_of_lt hn),
      Int.neg_neg]
  · rw [if_neg (by simpa using hn), hvalue, Int.natAbs_of_nonneg (Int.not_lt.1 hn)]

/-- A literal spells the rational that the number stands for in algebra. -/
theorem Number.decimal?_literal (v : Number) : decimal? v.literal = some v.literalValue := by
  cases v with
  | whole n => exact decimal?_toString n
  | real x =>
    rw [literal, realLiteral, literalValue]
    split
    · exact decimal?_toString _
    · obtain ⟨m, hm, hvalue⟩ := Numeral.readNumeral_write .readable (Numeral.shortest x.code)
      have hsigned := decimal?_signed hm x.negative
      rwa [String.ofList_toList, hvalue] at hsigned

end EquationStudio
