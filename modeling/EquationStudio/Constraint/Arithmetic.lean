import EquationStudio.Constraint.Basic

/-!
# Which numbers meet a rule

Primes, squares and Fibonacci numbers are properties of the integer that a number is; comparisons
are exact; divisibility is tested on doubles, by the remainder to the nearest multiple. A rule that
needs a double does not answer for an integer larger than every double.
-/

namespace EquationStudio

/-- No candidate `i`, `i + 2`, `i + 6`, `i + 8`, … up to the root of `n` divides `n`. -/
def hasNoDivisorFrom (n i : Nat) : Bool :=
  if h : i * i ≤ n ∧ 0 < i then
    if n % i = 0 ∨ n % (i + 2) = 0 then false else hasNoDivisorFrom n (i + 6)
  else true
  termination_by n + 1 - i
  decreasing_by
    have : i ≤ i * i := Nat.le_mul_self i
    omega

/-- A prime, by trial division. -/
def isPrimeNat (n : Nat) : Bool :=
  if n ≤ 1 then false
  else if n ≤ 3 then true
  else if n % 2 = 0 ∨ n % 3 = 0 then false
  else hasNoDivisorFrom n 5

/-- A perfect square. -/
def isSquareNat (n : Nat) : Bool := n.sqrt * n.sqrt == n

/-- A property of naturals, asked of an integer. -/
def Int.meets (p : Nat → Bool) : Int → Bool
  | .ofNat n => p n
  | .negSucc _ => false

/-- A perfect square among the integers. -/
def isSquareInt (n : Int) : Bool := Int.meets isSquareNat n

/-- A Fibonacci number, by the test that `5 n² ± 4` is a square. -/
def isFibonacciNat (n : Nat) : Bool :=
  isSquareInt (5 * n * n + 4) || isSquareInt (5 * n * n - 4)

namespace Number

/-- A property of naturals, asked of a number. -/
def meets (p : Nat → Bool) (v : Number) : Bool := (v.toInt?.map (Int.meets p)).getD false

/-- A prime number. -/
def isPrime (v : Number) : Bool := v.meets isPrimeNat

/-- A square of a whole number. -/
def isPerfectSquare (v : Number) : Bool := v.meets isSquareNat

/-- A member of the Fibonacci sequence. -/
def isFibonacci (v : Number) : Bool := v.meets isFibonacciNat

/-- Whether the comparison with a bound holds. -/
def compares (v bound : Number) : Relation → Bool
  | .notEqual => v.scaled != bound.scaled
  | .greater => bound.scaled < v.scaled
  | .less => v.scaled < bound.scaled
  | .equal => v.scaled == bound.scaled

/-- The number lies in the domain. -/
def inDomain (v : Number) : Domain → Except Fault Bool
  | .integer => .ok v.toInt?.isSome
  | .natural => .ok (v.toInt?.isSome && 0 < v.scaled)
  | .positiveReal => .ok (0 < v.scaled)
  | .negativeReal => .ok (v.scaled < 0)
  | .real | .rational =>
    if v.toDouble?.isSome then .ok true else .error (.datum .tooLargeForDouble)

/-- The number has the sign. -/
def hasSign (v : Number) : Sign → Bool
  | .positive => 0 < v.scaled
  | .negative => v.scaled < 0
  | .nonZero => v.scaled != 0

/-- The number is whole and has the parity. -/
def hasParity (v : Number) (p : Parity) : Bool :=
  match v.toInt? with
  | some n => (n % 2 == 0) == (p == .even)
  | none => false

/-- The remainder up to which a number still counts as a multiple, in steps of `2⁻¹⁰⁷⁴`. -/
def divisibilityTolerance : Nat := codeSteps (Numeral.code ⟨1, -9⟩)

/-- The number is a multiple of the divisor, up to the tolerance. -/
def isMultipleOf (v divisor : Number) : Except Fault Bool :=
  match v.toDouble?, divisor.toDouble? with
  | some x, some y => .ok ((x.remainderSteps y).natAbs ≤ divisibilityTolerance)
  | _, _ => .error (.datum .tooLargeForDouble)

end Number

/-- Whether a number meets a rule. -/
def Rule.admits (v : Number) : Rule → Except Fault Bool
  | .comparison relation bound => .ok (v.compares bound relation)
  | .range low high lowInclusive highInclusive =>
    let lowOk := if lowInclusive then low.scaled ≤ v.scaled else low.scaled < v.scaled
    let highOk := if highInclusive then v.scaled ≤ high.scaled else v.scaled < high.scaled
    .ok (lowOk && highOk)
  | .domain d => v.inDomain d
  | .sign s => .ok (v.hasSign s)
  | .prime => .ok v.isPrime
  | .perfectSquare => .ok v.isPerfectSquare
  | .parity p => .ok (v.hasParity p)
  | .fibonacci => .ok v.isFibonacci
  | .divisible divisor => v.isMultipleOf divisor

/-- Whether a datum satisfies a constraint: any datum if it is inactive, else only numbers that
meet its rule. -/
def Constraint.satisfies (c : Constraint) (d : Datum) : Except Fault Bool :=
  if c.active then
    match Number.ofNumeric? d with
    | some v => c.rule.admits v
    | none => .ok false
  else .ok true

end EquationStudio
