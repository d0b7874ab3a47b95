import EquationStudio.Constraint.Arithmetic
import EquationStudio.Proofs.Number

/-!
# Rules see the value of a number only

A number may be an integer or a double, and a whole number may be either. `Rule.admits_congr` says
that a rule cannot tell numbers of one value apart: the integer that a number is and the steps of
the double nearest to it depend on its value only (`Number.toInt?_congr`, `Number.steps_congr`). A
rule whose numbers have doubles answers for every number that has one (`Rule.exists_admits`). The
numbers with a property of naturals are those whose value is a natural that has it
(`Number.meets_iff`).
-/

namespace EquationStudio

/-- The integers with a property of naturals are the naturals that have it. -/
theorem Int.meets_iff {p : Nat → Bool} {k : Int} :
    Int.meets p k = true ↔ ∃ n : Nat, p n = true ∧ k = n := by
  cases k with
  | ofNat n => exact ⟨fun h => ⟨n, h, rfl⟩, fun ⟨m, h, hm⟩ => Int.ofNat.inj hm ▸ h⟩
  | negSucc n => exact ⟨nofun, fun ⟨_, _, h⟩ => nomatch h⟩

namespace Number

variable {v w : Number}

/-- A number is an integer exactly if it measures that many times the steps of one. -/
theorem toInt?_eq_some {n : Int} : v.toInt? = some n ↔ v.scaled = n * (2 ^ stepBits : Nat) := by
  cases v with
  | whole m =>
    rw [toInt?, scaled, Option.some.injEq, Nat.pow_eq]
    generalize stepBits = bits
    have hpos : ((2 ^ bits : Nat) : Int) ≠ 0 := Int.natCast_ne_zero.2 (Nat.two_pow_pos bits).ne'
    exact ⟨fun h => by rw [h], fun h => Int.eq_of_mul_eq_mul_right hpos h⟩
  | real x => exact FiniteDouble.toInt?_eq_some

/-- A number is an integer exactly if that is its value. -/
theorem toInt?_eq_some_iff {n : Int} : v.toInt? = some n ↔ v.toRat = n := by
  cases v with
  | whole m => rw [toInt?, toRat, Option.some.injEq, Rat.intCast_inj]
  | real x =>
    rw [toInt?, FiniteDouble.toInt?_eq_some, toRat, FiniteDouble.toRat, Nat.pow_eq, ← Rat.mkRat_one,
      Rat.mkRat_eq_iff (Nat.two_pow_pos stepBits).ne' Nat.one_ne_zero, Int.natCast_one, Int.mul_one]

/-- The numbers with a property of naturals are those whose value is a natural that has it. -/
theorem meets_iff {p : Nat → Bool} : v.meets p = true ↔ ∃ n : Nat, p n = true ∧ v.toRat = n := by
  have hvalue : ∀ n : Nat, v.toInt? = some (n : Int) ↔ v.toRat = n := fun n => by
    rw [toInt?_eq_some_iff, Rat.intCast_natCast]
  simp only [← hvalue]
  unfold meets
  cases v.toInt? with
  | none => simp
  | some k => simp [Int.meets_iff]

/-- Numbers of one value are the same integer, or neither is one. -/
theorem toInt?_congr (h : v.scaled = w.scaled) : v.toInt? = w.toInt? := by
  ext n
  rw [toInt?_eq_some, toInt?_eq_some, h]

/-- An integer of the value of a double is converted to a double of that value. -/
theorem steps_toDouble?_whole {n : Int} {x : FiniteDouble} (h : (whole n).scaled = x.steps) :
    (whole n).toDouble?.map FiniteDouble.steps = some x.steps := by
  rw [scaled, Nat.pow_eq] at h
  have hx : x.toInt? = some n := by rw [FiniteDouble.toInt?_eq_some, ← h]
  have hsteps := FiniteDouble.toInt?_eq_some.1 (FiniteDouble.toInt?_ofInt hx)
  rw [toDouble?, FiniteDouble.ofInt?, FiniteDouble.ofInt_toInt? hx, Double.finite?, Option.map_some,
    hsteps, ← h]

/-- Numbers of one value are converted to doubles of one value, or neither has a double. -/
theorem steps_congr (h : v.scaled = w.scaled) :
    v.toDouble?.map FiniteDouble.steps = w.toDouble?.map FiniteDouble.steps := by
  cases v with
  | real x =>
    cases w with
    | real y => exact congrArg some h
    | whole n => exact (steps_toDouble?_whole h.symm).symm
  | whole m =>
    cases w with
    | real y => exact steps_toDouble?_whole h
    | whole n =>
      have hint := toInt?_congr h
      rw [toInt?, toInt?, Option.some.injEq] at hint
      rw [hint]

/-- Numbers of one value have doubles, or neither has. -/
theorem isSome_toDouble?_congr (h : v.scaled = w.scaled) :
    v.toDouble?.isSome = w.toDouble?.isSome := by
  rw [← Option.isSome_map (f := FiniteDouble.steps), steps_congr h, Option.isSome_map]

/-- The remainder depends on the value of a double only. -/
theorem remainderSteps_congr {x y : FiniteDouble} (h : x.steps = y.steps) (z : FiniteDouble) :
    x.remainderSteps z = y.remainderSteps z := by
  simp only [FiniteDouble.remainderSteps, h]

/-- Numbers of one value are multiples of the same numbers. -/
theorem isMultipleOf_congr (h : v.scaled = w.scaled) (divisor : Number) :
    v.isMultipleOf divisor = w.isMultipleOf divisor := by
  have hsteps := steps_congr h
  unfold isMultipleOf
  cases hv : v.toDouble? with
  | none =>
    rw [hv, Option.map_none, eq_comm, Option.map_eq_none_iff] at hsteps
    rw [hsteps]
  | some x =>
    rw [hv, Option.map_some, eq_comm, Option.map_eq_some_iff] at hsteps
    obtain ⟨y, hw, hsteps⟩ := hsteps
    rw [hw]
    cases divisor.toDouble? with
    | none => rfl
    | some z => simp only [remainderSteps_congr hsteps]

/-- Numbers of one value lie in the same domains. -/
theorem inDomain_congr (h : v.scaled = w.scaled) (d : Domain) : v.inDomain d = w.inDomain d := by
  cases d <;> simp only [inDomain, toInt?_congr h, isSome_toDouble?_congr h, h]

end Number

namespace Rule

variable {v w : Number}

/-- Numbers of one value meet the same rules. -/
theorem admits_congr (h : v.scaled = w.scaled) (r : Rule) : r.admits v = r.admits w := by
  cases r with
  | comparison relation bound => cases relation <;> simp only [admits, Number.compares, h]
  | range => simp only [admits, h]
  | domain d => exact Number.inDomain_congr h d
  | sign s => cases s <;> simp only [admits, Number.hasSign, h]
  | prime => simp only [admits, Number.isPrime, Number.meets, Number.toInt?_congr h]
  | perfectSquare => simp only [admits, Number.isPerfectSquare, Number.meets, Number.toInt?_congr h]
  | parity => simp only [admits, Number.hasParity, Number.toInt?_congr h]
  | fibonacci => simp only [admits, Number.isFibonacci, Number.meets, Number.toInt?_congr h]
  | divisible divisor => exact Number.isMultipleOf_congr h divisor

/-- The numbers that a rule is stated with. -/
def numbers : Rule → List Number
  | comparison _ bound => [bound]
  | range low high _ _ => [low, high]
  | divisible divisor => [divisor]
  | domain _ | sign _ | prime | perfectSquare | parity _ | fibonacci => []

/-- A rule each of whose numbers has a double. -/
def Convertible (r : Rule) : Prop := ∀ v ∈ r.numbers, v.toDouble?.isSome = true

instance (r : Rule) : Decidable r.Convertible :=
  inferInstanceAs (Decidable (∀ v ∈ r.numbers, v.toDouble?.isSome = true))

/-- A rule whose numbers have doubles answers for every number that has one. -/
theorem exists_admits {r : Rule} (hr : r.Convertible) (hv : v.toDouble?.isSome = true) :
    ∃ holds, r.admits v = .ok holds := by
  cases r with
  | domain d =>
    cases d with
    | real | rational => exact ⟨true, by simp only [admits, Number.inDomain, if_pos hv]⟩
    | integer | natural | positiveReal | negativeReal => exact ⟨_, rfl⟩
  | divisible divisor =>
    obtain ⟨x, hx⟩ := Option.isSome_iff_exists.1 hv
    obtain ⟨y, hy⟩ := Option.isSome_iff_exists.1 (hr divisor (.head _))
    exact ⟨_, by simp only [admits, Number.isMultipleOf, hx, hy]; rfl⟩
  | comparison | range | sign | prime | perfectSquare | parity | fibonacci => exact ⟨_, rfl⟩

/-- A rule that does not answer needs a double that there is not. -/
theorem fault_of_admits {r : Rule} {fault : Fault} (h : r.admits v = .error fault) :
    fault = .datum .tooLargeForDouble := by
  cases r with
  | domain d =>
    cases d with
    | real | rational =>
      simp only [admits, Number.inDomain] at h
      split at h <;> cases h
      rfl
    | integer | natural | positiveReal | negativeReal => cases h
  | divisible divisor =>
    simp only [admits, Number.isMultipleOf] at h
    split at h <;> cases h
    rfl
  | comparison | range | sign | prime | perfectSquare | parity | fibonacci => cases h

end Rule

end EquationStudio
