/-!
# Polynomials in several variables

A polynomial in `n + 1` variables is the list of its coefficients, which are polynomials in the
other `n`, lowest degree first. Common divisors come from remainders of primitive parts, which need
no fractions of polynomials.
-/

namespace EquationStudio

/-- Polynomials with rational coefficients in `n` variables. -/
def Polynomial : Nat → Type
  | 0 => Rat
  | n + 1 => List (Polynomial n)

namespace Polynomial

/-- The polynomial without terms. -/
def zero : (n : Nat) → Polynomial n
  | 0 => (0 : Rat)
  | _ + 1 => []

/-- Whether a polynomial has no terms. -/
def isZero : (n : Nat) → Polynomial n → Bool
  | 0, q => (show Rat from q) == 0
  | n + 1, p => (show List (Polynomial n) from p).all (isZero n)

/-- Without zero coefficients at the end. -/
def trimmed (n : Nat) (p : List (Polynomial n)) : List (Polynomial n) :=
  (p.reverse.dropWhile (isZero n)).reverse

/-- A constant. -/
def constant : (n : Nat) → Rat → Polynomial n
  | 0, q => q
  | n + 1, q => trimmed n [constant n q]

/-- The variable with the given number, counted from the outermost. -/
def generator? : (n i : Nat) → Option (Polynomial n)
  | 0, _ => none
  | n + 1, 0 => some (show List (Polynomial n) from [zero n, constant n 1])
  | n + 1, i + 1 => (generator? n i).map fun p => (show List (Polynomial n) from [p])

/-- The sum. -/
def add : (n : Nat) → Polynomial n → Polynomial n → Polynomial n
  | 0, p, q => (show Rat from p) + (show Rat from q)
  | n + 1, p, q =>
    let p : List (Polynomial n) := p
    let q : List (Polynomial n) := q
    trimmed n ((List.range (max p.length q.length)).map fun i =>
      add n (p.getD i (zero n)) (q.getD i (zero n)))

/-- A rational multiple. -/
def scale : (n : Nat) → Rat → Polynomial n → Polynomial n
  | 0, c, p => c * (show Rat from p)
  | n + 1, c, p => trimmed n ((show List (Polynomial n) from p).map (scale n c))

/-- The product. -/
def mul : (n : Nat) → Polynomial n → Polynomial n → Polynomial n
  | 0, p, q => (show Rat from p) * (show Rat from q)
  | n + 1, p, q =>
    let p : List (Polynomial n) := p
    let q : List (Polynomial n) := q
    trimmed n (p.foldr (fun c (rest : List (Polynomial n)) =>
      add (n + 1) (q.map (mul n c)) (zero n :: rest)) [])

/-- A power. -/
def pow (n : Nat) (p : Polynomial n) : Nat → Polynomial n
  | 0 => constant n 1
  | k + 1 => mul n (pow n p k) p

/-- The quotient by a divisor, coefficient by coefficient from the top. -/
def quotient : (n : Nat) → Polynomial n → Polynomial n → Polynomial n
  | 0, p, q => (show Rat from p) / (show Rat from q)
  | n + 1, p, q =>
    let divisor : List (Polynomial n) := trimmed n q
    let lead := divisor.getLastD (zero n)
    let rec go : Nat → List (Polynomial n) → List (Polynomial n) → List (Polynomial n)
      | 0, _, found => found
      | fuel + 1, rest, found =>
        let rest := trimmed n rest
        if rest.length < divisor.length ∨ rest.isEmpty then found
        else
          let shift := rest.length - divisor.length
          let c := quotient n (rest.getLastD (zero n)) lead
          let term : List (Polynomial n) := List.replicate shift (zero n) ++ [c]
          let rest' := add (n + 1) rest (scale (n + 1) (-1) (mul (n + 1) term divisor))
          go fuel (List.take (rest.length - 1) rest') (add (n + 1) found term)
    go (List.length (show List (Polynomial n) from p) + 1) p []

/-- The remainder of a multiple of `p` by `q`: the leading coefficient of `q` is multiplied in
instead of divided by. -/
def remainder (n : Nat) (p q : List (Polynomial n)) : Nat → List (Polynomial n)
  | 0 => p
  | fuel + 1 =>
    let p := trimmed n p
    if p.length < q.length ∨ p.isEmpty then p
    else
      let shift := p.length - q.length
      let lead := q.getLastD (zero n)
      let top := p.getLastD (zero n)
      let term : List (Polynomial n) := List.replicate shift (zero n) ++ [top]
      let p' := add (n + 1) (p.map (mul n lead)) (scale (n + 1) (-1) (mul (n + 1) term q))
      remainder n (List.take (p.length - 1) p') q fuel

/-- A common divisor of greatest degree, up to a rational factor. -/
def gcd : (n : Nat) → Polynomial n → Polynomial n → Polynomial n
  | 0, p, q => if isZero 0 p && isZero 0 q then zero 0 else constant 0 1
  | n + 1, p, q =>
    let content (p : List (Polynomial n)) : Polynomial n := p.foldl (gcd n) (zero n)
    let primitive (p : List (Polynomial n)) : List (Polynomial n) :=
      let c := content p
      if isZero n c then p else p.map fun x => quotient n x c
    let rec go : Nat → List (Polynomial n) → List (Polynomial n) → List (Polynomial n)
      | 0, p, _ => p
      | fuel + 1, p, q =>
        let q := trimmed n q
        if q.isEmpty then p
        else go fuel q (primitive (remainder n p q (p.length + 1)))
    let p : List (Polynomial n) := trimmed n p
    let q : List (Polynomial n) := trimmed n q
    if p.isEmpty then q
    else if q.isEmpty then p
    else
      let c := gcd n (content p) (content q)
      let longer := if p.length < q.length then q else p
      let shorter := if p.length < q.length then p else q
      let g := go (longer.length + 1) (primitive longer) (primitive shorter)
      (primitive g).map (mul n c)

/-- The terms of a polynomial: exponents of the variables, and coefficients, the highest first. -/
def terms : (n : Nat) → Polynomial n → List (List Nat × Rat)
  | 0, q => if isZero 0 q then [] else [([], q)]
  | n + 1, p =>
    let p : List (Polynomial n) := p
    (p.zipIdx.map fun c => (terms n c.1).map fun t => (c.2 :: t.1, t.2)).reverse.flatten

/-- The coefficient of the highest term. -/
def leading (n : Nat) (p : Polynomial n) : Rat := ((terms n p).head?.map (·.2)).getD 0

end Polynomial

end EquationStudio
