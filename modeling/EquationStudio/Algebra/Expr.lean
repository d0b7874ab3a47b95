/-!
# Algebraic expressions

Expressions over rational numbers, the imaginary unit and symbols, with one infinity without
direction and one undefined value. A product or a sum in normal form lists its operands without
nesting, a rational or infinite operand first.
-/

namespace EquationStudio

/-- An algebraic expression. -/
inductive Expr where
  | number (q : Rat)
  | undefined
  | infinite
  | imaginary
  | symbol (name : String)
  | power (base exponent : Expr)
  | product (factors : List Expr)
  | sum (terms : List Expr)
  deriving Inhabited

namespace Expr

mutual

/-- Whether two expressions are the same. -/
def same : Expr → Expr → Bool
  | number p, number q => p = q
  | undefined, undefined => true
  | infinite, infinite => true
  | imaginary, imaginary => true
  | symbol m, symbol n => m = n
  | power b e, power b' e' => same b b' && same e e'
  | product fs, product gs => sameList fs gs
  | sum ts, sum us => sameList ts us
  | _, _ => false

/-- Whether two lists of expressions are the same. -/
def sameList : List Expr → List Expr → Bool
  | [], [] => true
  | e :: es, f :: fs => same e f && sameList es fs
  | _, _ => false

end

instance : BEq Expr := ⟨same⟩

/-- The number zero. -/
def zero : Expr := .number 0

/-- The number one. -/
def one : Expr := .number 1

/-- The number minus one. -/
def minusOne : Expr := .number (-1)

/-- Whether an expression is a rational number. -/
def isNumber : Expr → Bool
  | number _ => true
  | _ => false

/-- Whether an expression is a power. -/
def isPower : Expr → Bool
  | power _ _ => true
  | _ => false

/-- Whether an expression is a sum. -/
def isSum : Expr → Bool
  | sum _ => true
  | _ => false

mutual

/-- How many levels an expression has. -/
def depth : Expr → Nat
  | power b e => max b.depth e.depth + 1
  | product fs => depthList fs + 1
  | sum ts => depthList ts + 1
  | _ => 0

/-- The greatest depth in a list. -/
def depthList : List Expr → Nat
  | [] => 0
  | e :: es => max e.depth (depthList es)

end

mutual

/-- Whether some part of an expression satisfies `p`. -/
def anyPart (p : Expr → Bool) : Expr → Bool
  | power b e => p (power b e) || anyPart p b || anyPart p e
  | product fs => p (product fs) || anyPartList p fs
  | sum ts => p (sum ts) || anyPartList p ts
  | e => p e

/-- Whether some part of some expression in a list satisfies `p`. -/
def anyPartList (p : Expr → Bool) : List Expr → Bool
  | [] => false
  | e :: es => anyPart p e || anyPartList p es

end

mutual

/-- The symbols of an expression, with repetitions. -/
def symbolList : Expr → List String
  | symbol name => [name]
  | power b e => symbolList b ++ symbolList e
  | product fs => symbolsOf fs
  | sum ts => symbolsOf ts
  | _ => []

/-- The symbols of the expressions in a list, with repetitions. -/
def symbolsOf : List Expr → List String
  | [] => []
  | e :: es => symbolList e ++ symbolsOf es

end

/-- The symbols of an expression, each once. -/
def symbols (e : Expr) : List String :=
  e.symbolList.foldl (fun names s => if names.contains s then names else s :: names) []

/-- An expression without symbols. -/
def isConstant (e : Expr) : Bool := e.symbolList.isEmpty

/-- Whether the infinity or the undefined value occurs in an expression. -/
def isSingular (e : Expr) : Bool :=
  e.anyPart fun
    | infinite | undefined => true
    | _ => false

/-- The rational factor of an expression and the rest. -/
def splitCoefficient : Expr → Rat × Expr
  | number q => (q, one)
  | product (number q :: [f]) => (q, f)
  | product (number q :: fs) => (q, product fs)
  | e => (1, e)

/-- A rational multiple of an expression without a rational factor, not multiplied out. -/
def scaled (q : Rat) (e : Expr) : Expr :=
  if q = 1 then e
  else if q = 0 then zero
  else match e with
    | number p => number (q * p)
    | product fs => product (number q :: fs)
    | e => product [number q, e]

/-- The operands of a product. -/
def factors : Expr → List Expr
  | product fs => fs
  | e => [e]

/-- The operands of a sum. -/
def terms : Expr → List Expr
  | sum ts => ts
  | e => [e]

/-- The base and the exponent of an expression. A base that is the inverse of a whole number gives
way to that number, with the exponent negated. -/
def splitPower : Expr → Expr × Expr
  | power (number q) e =>
    if q.num = 1 ∧ q.den ≠ 1 then
      (number q.den, let (c, t) := e.splitCoefficient; scaled (-c) t)
    else (number q, e)
  | power b e => (b, e)
  | e => (e, one)

end Expr

end EquationStudio
