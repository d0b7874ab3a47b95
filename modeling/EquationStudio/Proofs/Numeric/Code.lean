import EquationStudio.Numeric.Reading
import EquationStudio.Proofs.Number

/-!
# Numerals and the magnitudes that they are nearest to

The code of a numeral depends on its value only (`Numeral.code_congr`), so the zeros at the end of
its digits do not matter. Each candidate for a shortest numeral is read before it is taken, and the
exact expansion is not rounded: `Numeral.code_shortest`. A numeral of more than `decimalReach`
places before the point, or of as many zeros behind it, has no finite code other than zero, so a
numeral that is nearest to a finite magnitude other than zero is expanded when it is read
(`Numeral.toDouble_of_code`).
-/

namespace EquationStudio

/-! ## Rounding quotients -/

/-- Rounding depends on the quotient only. -/
theorem roundQuotient_mul_left {k : Nat} (hk : 0 < k) (num den : Nat) :
    roundQuotient (k * num) (k * den) = roundQuotient num den := by
  have hlt : ∀ a b : Nat, k * a < k * b ↔ a < b := fun a b => Nat.mul_lt_mul_left hk
  simp only [roundQuotient, Nat.mul_div_mul_left num den hk, Nat.mul_mod_mul_left,
    Nat.mul_left_comm 2 k, hlt]

/-- The code of a quotient is that of the reduced quotient. -/
theorem codeOfRatio_mul_left {k : Nat} (hk : 0 < k) (num den : Nat) :
    codeOfRatio (k * num) (k * den) = codeOfRatio num den := by
  simp only [codeOfRatio, Nat.mul_assoc, Nat.mul_div_mul_left _ den hk, roundQuotient_mul_left hk]

/-- Equal quotients have the same code. -/
theorem codeOfRatio_congr {num den num' den' : Nat} (hden : 0 < den) (hden' : 0 < den')
    (h : num * den' = num' * den) : codeOfRatio num den = codeOfRatio num' den' := by
  rw [← codeOfRatio_mul_left hden' num den, ← codeOfRatio_mul_left hden num' den',
    Nat.mul_comm den' num, h, Nat.mul_comm num' den, Nat.mul_comm den' den]

/-- A quotient below half a step is rounded to zero. -/
theorem codeOfRatio_eq_zero {num den : Nat} (h : 2 * (num * 2 ^ stepBits) < den) :
    codeOfRatio num den = 0 := by
  unfold codeOfRatio
  simp only [Nat.pow_eq]
  generalize num * 2 ^ stepBits = scaled at h ⊢
  have hlt : scaled < den := by omega
  rw [Nat.div_eq_of_lt hlt]
  simp [roundQuotient, Nat.div_eq_of_lt hlt, Nat.mod_eq_of_lt hlt, h]

/-- A quotient of many bits has no finite code. -/
theorem finiteCodes_le_codeOfRatio {num den : Nat} (bits : Nat) (hden : 0 < den)
    (hbits : 1025 ≤ bits) (h : den * 2 ^ bits ≤ num) : finiteCodes ≤ codeOfRatio num den := by
  have hshift : ∀ l, bits + stepBits ≤ l → 2047 ≤ l - 52 := fun l hl => by
    have hsteps : stepBits = 1074 := rfl
    omega
  unfold codeOfRatio finiteCodes
  simp only [Nat.pow_eq]
  have hle : 2 ^ (bits + stepBits) ≤ num * 2 ^ stepBits / den := by
    rw [Nat.le_div_iff_mul_le hden, Nat.pow_add, Nat.mul_right_comm, Nat.mul_comm (2 ^ bits)]
    exact Nat.mul_le_mul_right _ h
  generalize num * 2 ^ stepBits = scaled at hle ⊢
  have hne : scaled / den ≠ 0 :=
    Nat.ne_of_gt (Nat.lt_of_lt_of_le (Nat.two_pow_pos _) hle)
  exact Nat.le_trans (Nat.mul_le_mul_right _ (hshift _ ((Nat.le_log2 hne).2 hle)))
    (Nat.le_add_right _ _)

namespace Numeral

/-! ## Codes of numerals -/

/-- The denominator of a numeral is positive. -/
theorem denominator_pos (n : Numeral) : 0 < n.denominator := Nat.pow_pos (by decide)

/-- The code of a numeral is that of its value. -/
theorem code_congr {m n : Numeral} (h : m.toRat = n.toRat) : m.code = n.code := by
  refine codeOfRatio_congr m.denominator_pos n.denominator_pos ?_
  have hcross := (Rat.mkRat_eq_iff m.denominator_pos.ne' n.denominator_pos.ne').1 h
  exact_mod_cast hcross

/-- Zeros at the end of the digits are places of the exponent. -/
theorem toRat_shift (d k : Nat) (e : Int) :
    (⟨d * 10 ^ k, e⟩ : Numeral).toRat = (⟨d, e + k⟩ : Numeral).toRat := by
  refine (Rat.mkRat_eq_iff (denominator_pos _).ne' (denominator_pos _).ne').2 ?_
  norm_cast
  simp only [numerator, denominator, Nat.pow_eq, Nat.mul_assoc, ← Nat.pow_add]
  congr 2
  omega

/-- Cutting zeros off leaves the code. -/
theorem code_trim : ∀ (fuel : Nat) (n : Numeral), (n.trim fuel).code = n.code
  | 0, _ => rfl
  | fuel + 1, n => by
    rw [trim]
    split
    · next h =>
      rw [code_trim fuel]
      have hshift := code_congr (toRat_shift (n.digits / 10) 1 n.exponent)
      rw [Nat.pow_one, Nat.div_mul_cancel (Nat.dvd_of_mod_eq_zero h.2)] at hshift
      exact hshift.symm
    · rfl

/-- What is found has the code that it was searched for. -/
theorem code_search {code num den : Nat} {size : Int} {n : Numeral} : ∀ {fuel count : Nat},
    search code num den size fuel count = some n → n.code = code
  | 0, _, h => by cases h
  | fuel + 1, count, h => by
    rw [search] at h
    split at h
    · next hfirst => cases h; exact hfirst
    · split at h
      · next hsecond => cases h; exact hsecond
      · exact code_search h

/-- The exact expansion is not rounded. -/
theorem code_exact (code : Nat) : (exact code).code = code := by
  have hnumerator : (exact code).numerator = codeSteps code * 5 ^ stepBits := by
    simp [numerator, exact]
  have hdenominator : (exact code).denominator = 10 ^ stepBits := by
    simp only [denominator, exact, Int.neg_neg, Int.toNat_natCast, Nat.pow_eq]
  have hpow : ∀ bits, codeSteps code * 5 ^ bits * 2 ^ bits = codeSteps code * 10 ^ bits :=
    fun bits => by
    rw [Nat.mul_assoc, ← Nat.mul_pow]
  refine codeOfRatio_codeSteps (denominator_pos _) ?_
  rw [hnumerator, hdenominator]
  exact hpow stepBits

/-- The shortest numeral reads back as the magnitude that it was found for. -/
theorem code_shortest (code : Nat) : (shortest code).code = code := by
  unfold shortest
  split
  · next hzero =>
      rw [hzero]; exact codeOfRatio_codeSteps (by decide) (by simp [numerator, codeSteps])
  · dsimp only
    split
    · next n hn => rw [code_trim, code_search hn]
    · exact code_exact code

/-! ## Numerals within reach -/

/-- Ten is more than three bits. -/
theorem two_pow_le_ten_pow {bits k : Nat} (h : bits ≤ 3 * k) : 2 ^ bits ≤ 10 ^ k := by
  refine (Nat.pow_le_pow_right (by decide) h).trans ?_
  rw [Nat.pow_mul]
  exact Nat.pow_le_pow_left (by decide) k

/-- How many digits a natural is written with. -/
theorem length_toString (d : Nat) : (toString d).length = (Nat.toDigits 10 d).length := by
  rw [Nat.toString_eq_ofList_toDigits, String.length_ofList]

/-- A natural is less than the power of ten with as many zeros as it has digits. -/
theorem lt_pow_length (d : Nat) : d < 10 ^ (toString d).length := by
  rw [length_toString, ← Nat.length_toDigits_le_iff (by decide) Nat.length_toDigits_pos]

/-- A positive natural is no less than the power of ten with as many digits. -/
theorem pow_length_le {d : Nat} (hd : d ≠ 0) : 10 ^ ((toString d).length - 1) ≤ d := by
  rw [length_toString]
  rcases Nat.lt_or_ge 1 (Nat.toDigits 10 d).length with hlen | hlen
  · by_contra hlt
    have := (Nat.length_toDigits_le_iff (by decide) (by omega)).2 (Nat.not_le.1 hlt)
    omega
  · rw [Nat.sub_eq_zero_of_le hlen]
    exact Nat.pos_of_ne_zero hd

/-- A numeral that is nearest to a finite magnitude does not have too many places before the
point. -/
theorem size_le_of_code {n : Numeral} (hd : n.digits ≠ 0) (h : n.code < finiteCodes) :
    n.exponent + (toString n.digits).length ≤ decimalReach := by
  by_contra hsize
  obtain ⟨reach, hreach⟩ : ∃ reach : Nat, reach = 400 := ⟨_, rfl⟩
  have hdecimal : decimalReach = reach := by rw [hreach]; rfl
  have hlen := pow_length_le hd
  generalize (toString n.digits).length = len at hsize hlen
  refine Nat.not_le.2 h (finiteCodes_le_codeOfRatio (3 * reach) (denominator_pos n) (by omega) ?_)
  calc n.denominator * 2 ^ (3 * reach)
      ≤ n.denominator * 10 ^ reach := Nat.mul_le_mul_left _ (two_pow_le_ten_pow (Nat.le_refl _))
    _ = 10 ^ ((-n.exponent).toNat + reach) := (Nat.pow_add 10 _ _).symm
    _ ≤ 10 ^ (len - 1 + n.exponent.toNat) := Nat.pow_le_pow_right (by decide) (by omega)
    _ = 10 ^ (len - 1) * 10 ^ n.exponent.toNat := Nat.pow_add 10 _ _
    _ ≤ n.numerator := Nat.mul_le_mul_right _ hlen

/-- A numeral that is nearest to a magnitude other than zero does not have too many zeros behind the
point. -/
theorem neg_le_size_of_code {n : Numeral} (h : n.code ≠ 0) :
    -decimalReach ≤ n.exponent + (toString n.digits).length := by
  by_contra hsize
  obtain ⟨reach, hreach⟩ : ∃ reach : Nat, reach = 400 := ⟨_, rfl⟩
  have hdecimal : decimalReach = reach := by rw [hreach]; rfl
  have hlen := lt_pow_length n.digits
  generalize (toString n.digits).length = len at hsize hlen
  have hexponent : n.exponent.toNat = 0 := by omega
  have hnum : n.numerator = n.digits := by rw [numerator, hexponent]; exact Nat.mul_one _
  refine h (codeOfRatio_eq_zero ?_)
  rw [hnum]
  obtain ⟨bits, hbits⟩ : ∃ bits, bits = stepBits := ⟨_, rfl⟩
  have hbits' : bits + 1 ≤ 3 * reach := by rw [hbits, hreach]; decide
  rw [← hbits]
  calc 2 * (n.digits * 2 ^ bits)
      = n.digits * 2 ^ (bits + 1) := by rw [Nat.pow_succ, Nat.mul_comm 2, Nat.mul_assoc]
    _ ≤ n.digits * 10 ^ reach := Nat.mul_le_mul_left _ (two_pow_le_ten_pow hbits')
    _ < 10 ^ len * 10 ^ reach := Nat.mul_lt_mul_of_pos_right hlen (Nat.pow_pos (by decide))
    _ = 10 ^ (len + reach) := (Nat.pow_add 10 _ _).symm
    _ ≤ n.denominator := Nat.pow_le_pow_right (by decide) (by omega)

/-- A numeral that is nearest to a finite magnitude other than zero is read as that magnitude. -/
theorem toDouble_of_code {n : Numeral} (hd : n.digits ≠ 0) (hne : n.code ≠ 0)
    (h : n.code < finiteCodes) (negative : Bool) :
    n.toDouble negative = .ofCode negative n.code := by
  have hupper := size_le_of_code hd h
  have hlower := neg_le_size_of_code hne
  rw [toDouble]
  dsimp only
  rw [if_neg (by omega), if_neg (by omega)]

/-- A numeral that is nearest to a magnitude other than zero has other digits than zero. -/
theorem digits_ne_zero {n : Numeral} (h : n.code ≠ 0) : n.digits ≠ 0 := by
  intro hd
  refine h (codeOfRatio_eq_zero ?_)
  rw [numerator, hd]
  simpa using n.denominator_pos

end Numeral

end EquationStudio
