import EquationStudio.Proofs.Constraint.Arithmetic
import Mathlib.Data.Nat.Fib.Basic
import Mathlib.Tactic.Linarith

/-!
# The test for Fibonacci numbers finds them

A number is a Fibonacci number for the editor exactly if its value is a member of the sequence
(`Number.isFibonacci_iff`), whether it is an integer or a double. What is looked for is a root `m`
of `5 n² + 4` or `5 n² - 4`, a *companion* of `n`. A member of the sequence has one: itself and
twice the member before (`companion_fib`). Conversely a number `n` with a companion `m` is led down
to `(m - n) / 2`, whose companion is `(5 n - m) / 2` (`Companion.descend`). That number is smaller
unless `n` is one, so the descent comes to an end, and the way back up is the sequence
(`Companion.exists_fib`).
-/

namespace EquationStudio

/-! ## Squares -/

/-- The squares among the naturals. -/
theorem isSquareNat_iff {n : Nat} : isSquareNat n = true ↔ ∃ m : Nat, m * m = n := by
  rw [Nat.exists_mul_self, isSquareNat, beq_iff_eq]

/-- The squares among the integers. -/
theorem isSquareInt_iff {k : Int} : isSquareInt k = true ↔ ∃ m : Nat, (m * m : Int) = k := by
  rw [isSquareInt, Int.meets_iff]
  constructor
  · rintro ⟨n, hn, rfl⟩
    obtain ⟨m, rfl⟩ := isSquareNat_iff.1 hn
    exact ⟨m, (Int.natCast_mul m m).symm⟩
  · rintro ⟨m, rfl⟩
    exact ⟨m * m, isSquareNat_iff.2 ⟨m, rfl⟩, (Int.natCast_mul m m).symm⟩

/-! ## Companions -/

/-- A root of one of the two numbers that are looked at for `n`. -/
def Companion (n m : Nat) : Prop := m * m = 5 * n * n + 4 ∨ m * m + 4 = 5 * n * n

/-- What is looked for is a companion. -/
theorem isFibonacciNat_iff {n : Nat} : isFibonacciNat n = true ↔ ∃ m, Companion n m := by
  have habove : isSquareInt (5 * n * n + 4) = true ↔ ∃ m : Nat, m * m = 5 * n * n + 4 := by
    rw [isSquareInt_iff]
    exact exists_congr fun m => by norm_cast
  have hbelow : isSquareInt (5 * n * n - 4) = true ↔ ∃ m : Nat, m * m + 4 = 5 * n * n := by
    rw [isSquareInt_iff]
    exact exists_congr fun m => by rw [eq_sub_iff_add_eq]; norm_cast
  rw [isFibonacciNat, Bool.or_eq_true, habove, hbelow, ← exists_or]
  rfl

/-- The squares of two neighbours in the sequence are as far from their product as can be. -/
theorem fib_neighbours (k : Nat) :
    Nat.fib (k + 1) * Nat.fib (k + 1) = Nat.fib k * Nat.fib (k + 1) + Nat.fib k * Nat.fib k + 1 ∨
      Nat.fib (k + 1) * Nat.fib (k + 1) + 1 = Nat.fib k * Nat.fib (k + 1) +
      Nat.fib k * Nat.fib k := by
  induction k with
  | zero => exact .inl rfl
  | succ k ih =>
    rw [Nat.fib_add_two]
    obtain ih | ih := ih
    · exact .inr (by linarith)
    · exact .inl (by linarith)

/-- A member of the sequence has a companion: itself and twice the member before. -/
theorem companion_fib : ∀ k, ∃ m, Companion (Nat.fib k) m
  | 0 => ⟨2, .inl rfl⟩
  | k + 1 => by
    refine ⟨Nat.fib (k + 1) + 2 * Nat.fib k, ?_⟩
    obtain h | h := fib_neighbours k
    · exact .inr (by linarith)
    · exact .inl (by linarith)

namespace Companion

variable {n m r : Nat}

/-- A companion exceeds the number by an even difference, which is at most twice the number. -/
theorem exists_half (h : Companion n m) (hn : 0 < n) : ∃ r, m = n + 2 * r ∧ r ≤ n := by
  have hpos : 0 < n * n := Nat.mul_pos hn hn
  have hlow : n ≤ m := Nat.mul_self_le_mul_self_iff.1 (by obtain h | h := h <;> linarith)
  have hhigh : m ≤ 3 * n := Nat.mul_self_le_mul_self_iff.1 (by obtain h | h := h <;> linarith)
  have hsquare : ∀ k : Nat, k * k % 2 = k % 2 := fun k => by
    obtain hk | hk := Nat.mod_two_eq_zero_or_one k <;> rw [Nat.mul_mod, hk]
  have hparity : m % 2 = n % 2 := by
    rw [Companion, Nat.mul_assoc] at h
    rw [← hsquare m, ← hsquare n]
    omega
  exact ⟨(m - n) / 2, by omega, by omega⟩

/-- The descent: half the difference has a companion too. -/
theorem descend (h : Companion n (n + 2 * r)) (hr : r ≤ n) : Companion r (2 * n - r) := by
  obtain ⟨s, rfl⟩ := Nat.exists_eq_add_of_le hr
  rw [show 2 * (r + s) - r = r + 2 * s by omega]
  obtain h | h := h
  · exact .inr (by linarith)
  · exact .inl (by linarith)

/-- A number with a companion is a member of the sequence, and half of their sum is the next one. -/
theorem exists_fib (h : Companion n m) : ∃ k, n = Nat.fib k ∧ n + m = 2 * Nat.fib (k + 1) := by
  induction n using Nat.strong_induction_on generalizing m with
  | _ n ih =>
    obtain rfl | hn := Nat.eq_zero_or_pos n
    · obtain h | h := h
      · obtain rfl : m = 2 := Nat.mul_self_inj.1 h
        exact ⟨0, rfl, rfl⟩
      · cases h
    · obtain ⟨r, rfl, hr⟩ := h.exists_half hn
      obtain rfl | hlt := Nat.eq_or_lt_of_le hr
      · -- the descent stands still at one, which occurs twice in the sequence
        have hpos : 0 < r * r := Nat.mul_pos hn hn
        have hone : r * r = 1 * 1 := by obtain h | h := h <;> linarith
        obtain rfl : r = 1 := Nat.mul_self_inj.1 hone
        exact ⟨2, rfl, rfl⟩
      · obtain ⟨k, hk, hnext⟩ := ih r hlt (h.descend hr)
        have hmember : n = Nat.fib (k + 1) := by omega
        refine ⟨k + 1, hmember, ?_⟩
        rw [Nat.fib_add_two]
        omega

end Companion

/-! ## Fibonacci numbers -/

/-- The test finds the members of the sequence. -/
theorem isFibonacciNat_iff_fib {n : Nat} : isFibonacciNat n = true ↔ ∃ k, Nat.fib k = n := by
  rw [isFibonacciNat_iff]
  constructor
  · rintro ⟨m, h⟩
    obtain ⟨k, hk, -⟩ := h.exists_fib
    exact ⟨k, hk.symm⟩
  · rintro ⟨k, rfl⟩
    exact companion_fib k

/-- A number is a Fibonacci number for the editor exactly if its value is a member of the sequence,
be it an integer or a double. So negative numbers and numbers that are not whole never are. -/
theorem Number.isFibonacci_iff (v : Number) : v.isFibonacci = true ↔ ∃ k, v.toRat = Nat.fib k := by
  unfold Number.isFibonacci
  simp only [Number.meets_iff, isFibonacciNat_iff_fib]
  constructor
  · rintro ⟨n, ⟨k, rfl⟩, h⟩
    exact ⟨k, h⟩
  · rintro ⟨k, h⟩
    exact ⟨_, ⟨k, rfl⟩, h⟩

end EquationStudio
