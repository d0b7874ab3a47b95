import EquationStudio.Proofs.Constraint.Arithmetic
import Mathlib.Data.Nat.Prime.Basic

/-!
# Trial division finds the primes

A number is prime for the editor exactly if its value is a prime (`Number.isPrime_iff`), whether it
is an integer or a double. Divisors by two and three are tried first; from then on only the
candidates next to the multiples of six are, since a number without those two divisors has no
others. A search in vain has tried every candidate up to the root (`not_dvd_of_hasNoDivisorFrom`),
and a composite has a prime divisor there. A candidate that ends the search is a proper divisor even
where it is beyond the root (`exists_dvd_of_hasNoDivisorFrom`).
-/

namespace EquationStudio

/-! ## The search -/

/-- A search in vain from a candidate on has tried every later one up to the root. -/
theorem not_dvd_of_hasNoDivisorFrom {n i d : Nat} (h : hasNoDivisorFrom n i = true) (hi : i % 6 = 5)
    (hid : i ≤ d) (hd : d % 6 = 5 ∨ d % 6 = 1) (hroot : d * d ≤ n) : ¬ d ∣ n := by
  induction i using hasNoDivisorFrom.induct n with
  | case1 i hround hdvd =>
    unfold hasNoDivisorFrom at h
    rw [dif_pos hround, if_pos hdvd] at h
    cases h
  | case2 i hround hdvd ih =>
    unfold hasNoDivisorFrom at h
    rw [dif_pos hround, if_neg hdvd] at h
    intro hn
    have hzero := Nat.mod_eq_zero_of_dvd hn
    -- between the candidates of this round and those of the next there is none
    obtain rfl | rfl | hle : d = i ∨ d = i + 2 ∨ i + 6 ≤ d := by omega
    · exact hdvd (.inl hzero)
    · exact hdvd (.inr hzero)
    · exact ih h (by omega) hle hn
  | case3 i hround =>
    have hsquare : i * i ≤ d * d := Nat.mul_le_mul hid hid
    omega

/-- A candidate that ends the search is a proper divisor: while the square of the first one of a
round is not beyond the number, the second one is below it. -/
theorem exists_dvd_of_hasNoDivisorFrom {n i : Nat} (h : hasNoDivisorFrom n i = false) (hi : 5 ≤ i) :
    ∃ d, d ∣ n ∧ 2 ≤ d ∧ d < n := by
  induction i using hasNoDivisorFrom.induct n with
  | case1 i hround hdvd =>
    have hsquare : 5 * i ≤ i * i := Nat.mul_le_mul_right i hi
    obtain hfirst | hsecond := hdvd
    · exact ⟨i, Nat.dvd_of_mod_eq_zero hfirst, by omega, by omega⟩
    · exact ⟨i + 2, Nat.dvd_of_mod_eq_zero hsecond, by omega, by omega⟩
  | case2 i hround hdvd ih =>
    unfold hasNoDivisorFrom at h
    rw [dif_pos hround, if_neg hdvd] at h
    exact ih h (by omega)
  | case3 i hround =>
    unfold hasNoDivisorFrom at h
    rw [dif_neg hround] at h
    cases h

/-! ## Primes -/

/-- A composite that is neither a multiple of two nor of three has a divisor up to its root that is
next to a multiple of six. -/
theorem exists_candidate {n : Nat} (hn : 1 < n) (hcomposite : ¬ n.Prime) (htwo : n % 2 ≠ 0)
    (hthree : n % 3 ≠ 0) : ∃ d, 5 ≤ d ∧ (d % 6 = 5 ∨ d % 6 = 1) ∧ d * d ≤ n ∧ d ∣ n := by
  have hprime : n.minFac.Prime := Nat.minFac_prime (by omega)
  have hroot : n.minFac * n.minFac ≤ n :=
    Nat.pow_two n.minFac ▸ Nat.minFac_sq_le_self (by omega) hcomposite
  have hnot : ∀ k, n % k ≠ 0 → n.minFac % k ≠ 0 := fun k hk hzero =>
    hk (Nat.mod_eq_zero_of_dvd ((Nat.dvd_of_mod_eq_zero hzero).trans n.minFac_dvd))
  have hodd := hnot 2 htwo
  have hmod := hnot 3 hthree
  have hlow := hprime.two_le
  exact ⟨n.minFac, by omega, by omega, hroot, n.minFac_dvd⟩

/-- Trial division finds the primes. -/
theorem isPrimeNat_iff {n : Nat} : isPrimeNat n = true ↔ n.Prime := by
  unfold isPrimeNat
  split
  · next hsmall => exact ⟨nofun, fun hprime => absurd hprime.one_lt (by omega)⟩
  split
  · next hlow hhigh =>
    obtain rfl | rfl : n = 2 ∨ n = 3 := by omega
    · exact ⟨fun _ => Nat.prime_two, fun _ => rfl⟩
    · exact ⟨fun _ => Nat.prime_three, fun _ => rfl⟩
  split
  · next hlow hdvd =>
    refine ⟨nofun, fun hprime => ?_⟩
    obtain htwo | hthree := hdvd
    · exact absurd hprime (Nat.not_prime_of_dvd_of_lt (Nat.dvd_of_mod_eq_zero htwo)
        (by omega) (by omega))
    · exact absurd hprime (Nat.not_prime_of_dvd_of_lt (Nat.dvd_of_mod_eq_zero hthree)
        (by omega) (by omega))
  · next hlow hdvd =>
    cases hsearch : hasNoDivisorFrom n 5 with
    | true =>
      refine ⟨fun _ => ?_, fun _ => rfl⟩
      by_contra hcomposite
      obtain ⟨d, hd, hmod, hroot, hn⟩ :=
        exists_candidate (by omega) hcomposite (by omega) (by omega)
      exact not_dvd_of_hasNoDivisorFrom hsearch rfl hd hmod hroot hn
    | false =>
      obtain ⟨d, hd, hlow, hhigh⟩ := exists_dvd_of_hasNoDivisorFrom hsearch (Nat.le_refl 5)
      exact ⟨nofun, fun hprime => absurd hprime (Nat.not_prime_of_dvd_of_lt hd hlow hhigh)⟩

/-- A number is prime for the editor exactly if its value is a prime, be it an integer or a double.
So numbers up to one and numbers that are not whole never are. -/
theorem Number.isPrime_iff (v : Number) : v.isPrime = true ↔ ∃ p : Nat, p.Prime ∧ v.toRat = p := by
  unfold Number.isPrime
  simp only [Number.meets_iff, isPrimeNat_iff]

end EquationStudio
