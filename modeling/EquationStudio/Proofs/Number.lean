import EquationStudio.Number
import EquationStudio.Proofs.Basic
import Mathlib.Algebra.Group.Nat.Defs

/-!
# Numbers that the editor has accepted

Rounding leaves a magnitude that a double has (`codeOfRatio_codeSteps`), so an integer that comes
from a double is read back as it is (`Double.ofInt_toInt?`). A number that `Number.ofDatum` returns
is therefore returned again when it is offered as a datum (`Number.ofDatum_toDatum`). The literal of
a number is a text without blanks (`Number.isTrimmed_literal`).
-/

namespace EquationStudio

/-! ## Rounding -/

/-- A quotient without remainder is not rounded. -/
theorem roundQuotient_mul {d : Nat} (hd : 0 < d) (m : Nat) : roundQuotient (m * d) d = m := by
  simp [roundQuotient, Nat.mul_div_cancel m hd, hd]

/-- The size of a normal magnitude in bits. -/
theorem log2_normal {m e : Nat} (hm : m < 2 ^ 52) : ((2 ^ 52 + m) * 2 ^ e).log2 = 52 + e := by
  have hpos : 0 < 2 ^ e := Nat.pow_pos (by decide)
  have hne : (2 ^ 52 + m) * 2 ^ e ≠ 0 := Nat.mul_ne_zero (by omega) (Nat.ne_of_gt hpos)
  rw [Nat.log2_eq_iff hne]
  constructor
  · rw [Nat.pow_add]
    exact Nat.mul_le_mul_right _ (by omega)
  · rw [Nat.add_right_comm, Nat.pow_add]
    exact Nat.mul_lt_mul_of_pos_right (by omega) hpos

/-- A quotient that is the magnitude of a double is rounded to that double. -/
theorem codeOfRatio_codeSteps {num den code : Nat} (hden : 0 < den)
    (h : num * 2 ^ stepBits = codeSteps code * den) : codeOfRatio num den = code := by
  unfold codeOfRatio
  simp only [Nat.pow_eq]
  rw [h, Nat.mul_div_cancel _ hden]
  unfold codeSteps
  simp only [Nat.pow_eq]
  split
  · next hcode =>
    have hlog : code.log2 - 52 = 0 := by
      rcases Nat.eq_zero_or_pos code with rfl | hpos
      · rfl
      · have := (Nat.log2_lt (Nat.ne_of_gt hpos)).2 hcode
        omega
    rw [hlog, Nat.zero_mul, Nat.zero_add, Nat.pow_zero, Nat.mul_one]
    exact roundQuotient_mul hden code
  · next hcode =>
    have hlt : code % 2 ^ 52 < 2 ^ 52 := Nat.mod_lt _ (by decide)
    rw [log2_normal hlt, Nat.add_sub_cancel_left, Nat.mul_assoc, Nat.mul_comm (2 ^ _) den,
      roundQuotient_mul (Nat.mul_pos hden (Nat.pow_pos (by decide)))]
    omega

/-! ## Whole doubles -/

/-- A double is a whole number if it measures that many times the steps of one. -/
theorem FiniteDouble.toInt?_eq_some {x : FiniteDouble} {n : Int} :
    x.toInt? = some n ↔ x.steps = n * (2 ^ stepBits : Nat) := by
  rw [toInt?, isIntegral, truncate]
  generalize stepBits = bits
  have hpos : ((2 ^ bits : Nat) : Int) ≠ 0 := Int.natCast_ne_zero.2 (Nat.two_pow_pos bits).ne'
  rw [Nat.pow_eq]
  generalize ((2 ^ bits : Nat) : Int) = k at hpos ⊢
  constructor
  · intro h
    split at h
    · next hdvd =>
      obtain ⟨m, hm⟩ := Int.dvd_of_emod_eq_zero (beq_iff_eq.1 hdvd)
      rw [hm, Int.mul_tdiv_cancel_left _ hpos] at h
      rw [hm, Int.mul_comm, Option.some.inj h]
    · cases h
  · intro h
    simp [h, Int.mul_tdiv_cancel _ hpos]

/-- The magnitude of a double in steps. -/
theorem FiniteDouble.natAbs_steps (x : FiniteDouble) : x.steps.natAbs = codeSteps x.code := by
  unfold steps
  split <;> simp

/-- The magnitude of a whole number that a double is has the code of the double. -/
theorem FiniteDouble.codeOfRatio_toInt? {x : FiniteDouble} {n : Int} (h : x.toInt? = some n) :
    codeOfRatio n.natAbs 1 = x.code := by
  have hsteps := congrArg Int.natAbs (toInt?_eq_some.1 h)
  rw [x.natAbs_steps, Int.natAbs_mul, Int.natAbs_natCast] at hsteps
  exact codeOfRatio_codeSteps (by decide) (by rw [Nat.mul_one, hsteps])

/-- A whole number that a double is is read as a double of the same code. -/
theorem FiniteDouble.ofInt_toInt? {x : FiniteDouble} {n : Int} (h : x.toInt? = some n) :
    Double.ofInt n = .finite ⟨decide (n < 0), x.code⟩ := by
  unfold Double.ofInt Double.ofCode
  rw [codeOfRatio_toInt? h, dif_pos x.code.isLt]

/-- The double that a whole number is read as is that number again. -/
theorem FiniteDouble.toInt?_ofInt {x : FiniteDouble} {n : Int} (h : x.toInt? = some n) :
    (⟨decide (n < 0), x.code⟩ : FiniteDouble).toInt? = some n := by
  have hsteps := toInt?_eq_some.1 h
  have hnat := congrArg Int.natAbs hsteps
  rw [x.natAbs_steps] at hnat
  rw [toInt?_eq_some]
  unfold steps
  have hpos : (0 : Int) < ((2 ^ stepBits : Nat) : Int) :=
    Int.natCast_pos.2 (Nat.two_pow_pos stepBits)
  generalize ((2 ^ stepBits : Nat) : Int) = k at hpos hnat ⊢
  rw [hnat]
  by_cases hn : n < 0
  · have hle : n * k ≤ 0 := Int.mul_nonpos_of_nonpos_of_nonneg (Int.le_of_lt hn) (Int.le_of_lt hpos)
    simp only [hn, decide_true, if_true]
    omega
  · have hle : 0 ≤ n * k := Int.mul_nonneg (Int.not_lt.1 hn) (Int.le_of_lt hpos)
    simp only [hn, decide_false, Bool.false_eq_true, if_false]
    omega

namespace Number

/-- The number of a double is a whole number below the limit, or the double itself. -/
theorem ofFinite_cases (x : FiniteDouble) :
    (∃ n, x.toInt? = some n ∧ n.natAbs < plainLimit ∧ plainInt? x = some n ∧
      ofFinite x = .whole n) ∨
      plainInt? x = none ∧ ofFinite x = .real x := by
  cases hplain : plainInt? x with
  | none => exact .inr ⟨rfl, by rw [ofFinite, hplain]⟩
  | some n =>
    obtain ⟨m, hm, hlt⟩ := Option.bind_eq_some_iff.1 hplain
    split at hlt
    · next hlimit =>
      cases hlt
      exact .inl ⟨n, hm, hlimit, rfl, by rw [ofFinite, hplain]⟩
    · cases hlt

/-- The number of a double, offered again as a datum, is accepted as it is. -/
theorem ofDatum_toDatum_ofFinite (x : FiniteDouble) :
    ofDatum (ofFinite x).toDatum = .ok (ofFinite x) := by
  obtain ⟨n, hn, hlimit, -, he⟩ | ⟨-, he⟩ := ofFinite_cases x
  · rw [he]
    show ofDouble (Double.ofInt n) = _
    rw [FiniteDouble.ofInt_toInt? hn]
    show Except.ok (ofFinite _) = _
    simp only [ofFinite, plainInt?, FiniteDouble.toInt?_ofInt hn, Option.bind_some, if_pos hlimit]
  · rw [he]
    show Except.ok (ofFinite x) = _
    rw [he]

/-- A number that is accepted comes from a double. -/
theorem exists_ofFinite {d : Datum} {v : Number} (h : ofDatum d = .ok v) : ∃ x, v = ofFinite x := by
  have hdouble : ∀ {x : Double}, ofDouble x = .ok v → ∃ y, v = ofFinite y := by
    intro x hx
    cases x with
    | finite x => cases hx; exact ⟨x, rfl⟩
    | _ => cases hx
  cases d with
  | int n => exact hdouble h
  | float x => exact hdouble h
  | text s =>
    simp only [ofDatum] at h
    split at h
    · exact hdouble h
    · cases h
  | _ => cases h

/-- A number that is accepted is accepted again. -/
theorem ofDatum_toDatum {d : Datum} {v : Number} (h : ofDatum d = .ok v) :
    ofDatum v.toDatum = .ok v := by
  obtain ⟨x, rfl⟩ := exists_ofFinite h
  exact ofDatum_toDatum_ofFinite x

end Number

/-! ## Written numbers -/

/-- Characters of which numerals are written: digits, signs, points and the letter of the
exponent. -/
def NumeralChars (cs : List Char) : Prop :=
  ∀ c ∈ cs, c.isDigit = true ∨ c ∈ ['-', '+', '.', 'e']

/-- A character of a numeral is not blank. -/
theorem not_blank_of_numeralChar {c : Char} (h : c.isDigit = true ∨ c ∈ ['-', '+', '.', 'e']) :
    isBlank c = false := by
  rcases h with h | h
  · obtain ⟨hlow, hhigh⟩ : 48 ≤ c.toNat ∧ c.toNat ≤ 57 := Char.isDigit_iff_toNat.1 h
    simp only [isBlank, blankCodes, List.contains_cons, List.contains_nil, Bool.or_eq_false_iff,
      beq_eq_false_iff_ne, and_true]
    omega
  · have hall : ['-', '+', '.', 'e'].all (! isBlank ·) = true := rfl
    simpa using List.all_eq_true.1 hall c h

/-- Numerals in a row are written of the same characters. -/
@[simp] theorem numeralChars_append {cs ds : List Char} :
    NumeralChars (cs ++ ds) ↔ NumeralChars cs ∧ NumeralChars ds := List.forall_mem_append

/-- A character stands in a numeral or it does not, wherever it stands. -/
@[simp] theorem numeralChars_cons {c : Char} {cs : List Char} :
    NumeralChars (c :: cs) ↔
      (c.isDigit = true ∨ c ∈ ['-', '+', '.', 'e']) ∧ NumeralChars cs := List.forall_mem_cons

/-- No character is written. -/
@[simp] theorem numeralChars_nil : NumeralChars [] := by simp [NumeralChars]

/-- Parts of a numeral are written of the same characters. -/
theorem NumeralChars.subset {cs ds : List Char} (h : NumeralChars ds) (hs : cs ⊆ ds) :
    NumeralChars cs := fun c hc => h c (hs hc)

/-- Zeros in a row. -/
theorem numeralChars_zeros (k : Nat) : NumeralChars (List.replicate k '0') := by
  intro c hc
  rw [List.eq_of_mem_replicate hc]
  exact .inl rfl

/-- A natural is written in digits. -/
theorem numeralChars_nat (n : Nat) : NumeralChars (toString n).toList := by
  intro c hc
  rw [show toString n = n.repr from rfl, Nat.toList_repr] at hc
  exact .inl (Nat.isDigit_of_mem_toDigits (by decide) (by decide) hc)

/-- An integer is written in digits behind a sign at most. -/
theorem numeralChars_int (n : Int) : NumeralChars (toString n).toList := by
  cases n with
  | ofNat k => exact numeralChars_nat k
  | negSucc k =>
    rw [show toString (Int.negSucc k) = "-" ++ toString (k + 1) from rfl, String.toList_append]
    exact numeralChars_append.2 ⟨by simp, numeralChars_nat _⟩

/-- A numeral is written of the characters of numerals. -/
theorem Numeral.numeralChars_write (style : Style) (n : Numeral) :
    NumeralChars (n.write style).toList := by
  have hdigits := numeralChars_nat n.digits
  have hexp := numeralChars_nat (n.exponent + (toString n.digits).toList.length - 1).natAbs
  have htake : ∀ k, NumeralChars ((toString n.digits).toList.take k) := fun k =>
    hdigits.subset (List.take_subset k _)
  have hdrop : ∀ k, NumeralChars ((toString n.digits).toList.drop k) := fun k =>
    hdigits.subset (List.drop_subset k _)
  unfold write
  dsimp only
  generalize (toString n.digits).toList = digits at *
  split
  · split
    · simp [hdigits, numeralChars_zeros]
    · split
      · simp [hdigits, numeralChars_zeros]
      · simp [htake, hdrop]
  · simp only [paddedDigits, String.toList_append, String.toList_ofList, numeralChars_append]
    refine ⟨⟨⟨⟨htake 1, ?_⟩, by simp⟩, ?_⟩, numeralChars_zeros _, hexp⟩
    · split
      · simp
      · exact numeralChars_cons.2 ⟨by simp, hdrop 1⟩
    · split <;> simp

/-- A finite double is written of the characters of numerals. -/
theorem FiniteDouble.numeralChars_write (x : FiniteDouble) : NumeralChars x.write.toList := by
  rw [FiniteDouble.write, String.toList_append, numeralChars_append]
  refine ⟨?_, Numeral.numeralChars_write _ _⟩
  split <;> simp

/-- The literal of a number is written of the characters of numerals. -/
theorem Number.numeralChars_literal (v : Number) : NumeralChars v.literal.toList := by
  cases v with
  | whole n => exact numeralChars_int n
  | real x =>
    unfold literal realLiteral
    dsimp only
    split
    · exact numeralChars_int _
    · exact x.numeralChars_write

/-- A natural is written with one digit at least. -/
theorem toString_nat_ne_empty (n : Nat) : toString n ≠ "" := by
  intro h
  have := congrArg String.toList h
  rw [show toString n = n.repr from rfl, Nat.toList_repr] at this
  exact Nat.toDigits_ne_nil this

/-- An integer is written with one digit at least. -/
theorem toString_int_ne_empty (n : Int) : toString n ≠ "" := by
  cases n with
  | ofNat k => exact toString_nat_ne_empty k
  | negSucc k =>
    rw [show toString (Int.negSucc k) = "-" ++ toString (k + 1) from rfl]
    simp

/-- A numeral is not written as nothing. -/
theorem Numeral.write_ne_empty (style : Style) (n : Numeral) : n.write style ≠ "" := by
  unfold write
  dsimp only
  split
  · split
    · simp
    · split <;> simp
  · simp

/-- The literal of a number has no blanks around it. -/
theorem Number.isTrimmed_literal (v : Number) : IsTrimmed v.literal := by
  refine isTrimmed_of_forall (fun c hc => not_blank_of_numeralChar (v.numeralChars_literal c hc)) ?_
  cases v with
  | whole n => exact toString_int_ne_empty n
  | real x =>
    unfold literal realLiteral
    dsimp only
    split
    · exact toString_int_ne_empty _
    · simp [FiniteDouble.write, Numeral.write_ne_empty]

end EquationStudio
