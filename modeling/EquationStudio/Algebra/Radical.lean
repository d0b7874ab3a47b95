import EquationStudio.Algebra.Expr

/-!
# Roots of whole numbers

What is needed to write a rational power of a whole number in its simplest form: exact roots,
representations as a power, and factors that trial division finds.
-/

namespace EquationStudio

/-- The greatest `r` with `r ^ k ≤ n`, sought by halving between `low` and `high`. -/
def rootBetween (n k : Nat) : Nat → Nat → Nat → Nat
  | 0, low, _ => low
  | fuel + 1, low, high =>
    if low + 1 < high then
      let middle := (low + high) / 2
      if Nat.pow middle k ≤ n then rootBetween n k fuel middle high
      else rootBetween n k fuel low middle
    else low

/-- The greatest `r` with `r ^ k ≤ n`, for positive `k`. -/
def floorRoot (n k : Nat) : Nat :=
  if n = 0 then 0
  else if n.log2 < k then 1
  else
    let bits := n.log2 / k + 1
    rootBetween n k (bits + 1) 0 (Nat.pow 2 bits)

/-- The root of `n`, if it is exact. -/
def exactRoot? (n k : Nat) : Option Nat :=
  let r := floorRoot n k
  if n ≤ 1 then some n
  else if n.log2 < k then none
  else if Nat.pow r k = n then some r else none

/-- The greatest exponent from `k` down of which `n` is a power, with the base. -/
def perfectPowerFrom (n : Nat) : Nat → Option (Nat × Nat)
  | 0 => none
  | 1 => none
  | k + 2 =>
    match exactRoot? n (k + 2) with
    | some r => some (r, k + 2)
    | none => perfectPowerFrom n (k + 1)

/-- The base and the exponent of a number that is a power, with the smallest base. -/
def perfectPower? (n : Nat) : Option (Nat × Nat) :=
  if n < 4 then none else perfectPowerFrom n n.log2

/-- How often `d` divides `n`, and what remains. -/
def divideOut (d : Nat) : Nat → Nat → Nat → Nat × Nat
  | 0, n, k => (k, n)
  | fuel + 1, n, k => if n ≠ 0 ∧ n % d = 0 then divideOut d fuel (n / d) (k + 1) else (k, n)

/-- Factors from `d` on, with their exponents; what trial division does not split counts as one
factor. -/
def trialFactors : Nat → Nat → Nat → List (Nat × Nat)
  | 0, _, n => if n ≤ 1 then [] else [(n, 1)]
  | fuel + 1, d, n =>
    if n ≤ 1 then []
    else if n < d * d then [(n, 1)]
    else
      let (k, rest) := divideOut d (n.log2 + 1) n 0
      if k = 0 then trialFactors fuel (d + 1) n else (d, k) :: trialFactors fuel (d + 1) rest

/-- How far trial division goes. -/
abbrev trialLimit : Nat := Nat.pow 2 15

/-- The factors of a whole number by which its roots are simplified: the base of a power, or the
primes that trial division finds. -/
def radicalFactors (n : Nat) : List (Nat × Nat) :=
  match perfectPower? n with
  | some p => [p]
  | none => trialFactors trialLimit 2 n

/-- What a root of a whole number leaves: a whole factor, and factors under roots of their own. -/
structure RootParts where
  whole : Nat := 1
  /-- Factors under roots with a smaller index. -/
  reduced : List (Nat × Rat) := []
  /-- Factors that stay under the root, with their exponents there. -/
  kept : List (Nat × Nat) := []

/-- Distributes a factor to the parts of the power `num / den`. -/
def RootParts.take (num den : Nat) (parts : RootParts) (factor : Nat × Nat) : RootParts :=
  let exponent := factor.2 * num
  let whole := if 0 < exponent / den then parts.whole * Nat.pow factor.1 (exponent / den)
    else parts.whole
  let m := exponent % den
  let g := Nat.gcd m den
  if m = 0 then { parts with whole }
  else if g ≠ 1 then
    { parts with whole, reduced := parts.reduced ++ [(factor.1, mkRat (m / g) (den / g))] }
  else { parts with whole, kept := parts.kept ++ [(factor.1, m)] }

/-- The parts of the power `num / den` of a whole number. -/
def rootParts (n num den : Nat) : RootParts :=
  (radicalFactors n).foldl (RootParts.take num den) {}

/-- The common divisor of the exponents of the factors that stay under the root. -/
def RootParts.index (parts : RootParts) : Nat :=
  parts.kept.foldl (fun g f => Nat.gcd g f.2) 0

/-- The number that stays under the root. -/
def RootParts.radicand (parts : RootParts) : Nat :=
  parts.kept.foldl (fun n f => n * Nat.pow f.1 (f.2 / parts.index)) 1

end EquationStudio
