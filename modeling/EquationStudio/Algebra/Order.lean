import EquationStudio.Algebra.Enclosure

/-!
# The order of factors and terms

Factors stand in the order of their sort keys: numbers, then the imaginary unit and symbols by name,
then products, sums and powers of powers, where a power stands with its base. Terms stand by
descending powers of the bases that occur in them, and terms with the same powers by their
coefficients. A difference of a positive number and a multiple of one factor keeps the number first.
-/

namespace EquationStudio

/-- A rational in text. -/
def rationalText (q : Rat) : String :=
  if q.den = 1 then toString q.num else toString q.num ++ "/" ++ toString q.den

/-- What expressions are sorted by. -/
inductive SortKey where
  | number (q : Rat)
  | node (rank : Nat) (kind atom : String) (operands : List SortKey) (exponent : SortKey)
      (coefficient : Rat)
  deriving Inhabited

/-- The order of two rationals. -/
def compareRat (p q : Rat) : Ordering := if p < q then .lt else if q < p then .gt else .eq

namespace SortKey

mutual

/-- The order of two keys. -/
def compare : SortKey → SortKey → Ordering
  | number p, number q => compareRat p q
  | number _, node .. => .lt
  | node .., number _ => .gt
  | node rank kind atom operands exponent coefficient,
      node rank' kind' atom' operands' exponent' coefficient' =>
    (Ord.compare rank rank').then <| (Ord.compare kind kind').then <|
      (Ord.compare atom atom').then <| (Ord.compare operands.length operands'.length).then <|
      (compareLists operands operands').then <| (compare exponent exponent').then <|
      compareRat coefficient coefficient'

/-- The order of two lists of keys of one length. -/
def compareLists : List SortKey → List SortKey → Ordering
  | a :: as, b :: bs => (compare a b).then (compareLists as bs)
  | [], _ :: _ => .lt
  | _ :: _, [] => .gt
  | [], [] => .eq

end

/-- One key does not come after another. -/
def le (a b : SortKey) : Bool := (compare a b).isLE

end SortKey

namespace Expr

/-- Two numbers, for the real and the imaginary part. -/
abbrev Parts := Rat × Rat

/-- The product of two complex numbers. -/
def Parts.mul (a b : Parts) : Parts := (a.1 * b.1 - a.2 * b.2, a.1 * b.2 + a.2 * b.1)

/-- Roughly the number that a constant factor is. -/
def roughly : Expr → Parts
  | imaginary => (0, 1)
  | power (number q) e =>
    if q < 0 then (0, 1) else (((power (number q) e).approximation?).getD 1, 0)
  | e => (e.approximation?.getD 1, 0)

/-- The base of a factor and the whole exponent that it has to it. -/
def decompose (e : Expr) : Expr × Int :=
  match e.splitPower with
  | (base, number q) =>
    if q.den = 1 then (base, q.num) else (power base (number (mkRat 1 q.den)), q.num)
  | (base, exponent) =>
    let (q, tail) := exponent.splitCoefficient
    if q = 1 then (e, 1) else (power base (scaled (mkRat 1 q.den) tail), q.num)

/-- A term with the number that its constant factors make and the powers of its other factors. -/
structure Weighed where
  term : Expr
  weight : Parts
  powers : List (Expr × Int)

/-- Weighs a term. -/
def weigh (term : Expr) : Weighed :=
  let (q, rest) := term.splitCoefficient
  rest.factors.foldl (fun w f =>
    if f.isConstant then { w with weight := Parts.mul w.weight (roughly f) }
    else
      let (base, k) := f.decompose
      { w with powers := w.powers.filter (·.1 != base) ++ [(base, k)] }) ⟨term, (q, 0), []⟩

/-- The bases that occur in weighed terms, each once. -/
def basesOf (ws : List Weighed) : List Expr :=
  ws.foldl (fun bases w => w.powers.foldl (fun bases p =>
    if bases.contains p.1 then bases else bases ++ [p.1]) bases) []

/-- The powers of the given bases in a term. -/
def Weighed.exponents (w : Weighed) (bases : List Expr) : List Int :=
  bases.map fun b => ((w.powers.find? (·.1 == b)).map (·.2)).getD 0

/-- The order of two lists of exponents, greater ones first. -/
def compareExponents : List Int → List Int → Ordering
  | a :: as, b :: bs => (Ord.compare b a).then (compareExponents as bs)
  | _, _ => .eq

/-- The order of two weights: real ones first, then by size. -/
def compareParts (a b : Parts) : Ordering :=
  (Ord.compare (if a.2 = 0 then 0 else 1) (if b.2 = 0 then 0 else 1)).then <|
    (compareRat a.2 b.2).then (compareRat a.1 b.1)

/-- A positive number minus a multiple of one factor, the number first. -/
def difference? : List Expr → Option (List Expr)
  | [a, b] =>
    match a, b with
    | number p, product [number q, _] => if 0 < p ∧ q < 0 then some [a, b] else none
    | product [number q, _], number p => if 0 < p ∧ q < 0 then some [b, a] else none
    | _, _ => none
  | _ => none

/-- The order of two weighed terms over the given bases. -/
def Weighed.compare (bases : List Expr) (a b : Weighed) : Ordering :=
  (compareExponents (a.exponents bases) (b.exponents bases)).then (compareParts a.weight b.weight)

mutual

/-- The sort key of an expression; `fuel` bounds the levels looked at. -/
def sortKeyWithin : Nat → Expr → SortKey
  | 0, _ => .number 0
  | fuel + 1, e =>
    match e with
    | number q => .number q
    | _ =>
      let (q, body) := e.splitCoefficient
      let (base, exponent) := match body with
        | power b x => (b, sortKeyWithin fuel x)
        | b => (b, .number 1)
      match base with
      | number p => .node 1 "" (rationalText p) [] exponent q
      | undefined => .node 1 "" "nan" [] exponent q
      | infinite => .node 2 "ComplexInfinity" "zoo" [] exponent q
      | imaginary => .node 2 "ImaginaryUnit" "I" [] exponent q
      | symbol name => .node 2 "Symbol" name [] exponent q
      | product fs =>
        .node 3 "" "" ((fs.map (sortKeyWithin fuel)).mergeSort SortKey.le) exponent q
      | sum ts =>
        .node 4 "" "" ((orderedWithin fuel ts).map (sortKeyWithin fuel)) exponent q
      | power b x => .node 5 "" "" [sortKeyWithin fuel b, sortKeyWithin fuel x] exponent q

/-- Terms in order; `fuel` bounds the levels looked at. -/
def orderedWithin : Nat → List Expr → List Expr
  | 0, ts => ts
  | fuel + 1, ts =>
    match difference? ts with
    | some ordered => ordered
    | none =>
      let ws := ts.map weigh
      let keyed := (basesOf ws).map fun b => (sortKeyWithin fuel b, b)
      let bases := (keyed.mergeSort fun a b => SortKey.le a.1 b.1).map Prod.snd
      (ws.mergeSort fun a b => (Weighed.compare bases a b).isLE).map Weighed.term

end

/-- The sort key of an expression. -/
def sortKey (e : Expr) : SortKey := sortKeyWithin (3 * e.depth + 6) e

/-- Factors in order. -/
def orderedFactors (fs : List Expr) : List Expr :=
  ((fs.map fun f => (f.sortKey, f)).mergeSort fun a b => SortKey.le a.1 b.1).map Prod.snd

/-- Terms in order. -/
def orderedTerms (ts : List Expr) : List Expr := orderedWithin (3 * depthList ts + 9) ts

end Expr

end EquationStudio
