/-!
# Logarithms of rationals

The binary logarithm of a rational above one is read off a high power of it, which is made by
squaring with truncated mantissas: the bits before the point of that power are the logarithm times
the exponent. The power is so high that sixty bits of the logarithm are right, however near to one
the rational is. The digits of a power of rationals are the exponent times a decimal logarithm.
-/

namespace EquationStudio

/-- The number `mantissa · 2 ^ exponent`. -/
structure Truncated where
  mantissa : Nat
  exponent : Int

namespace Truncated

/-- A number at or below, with no more than about `bits` bits of mantissa. -/
def truncate (bits : Nat) (x : Truncated) : Truncated :=
  let extra := x.mantissa.log2 - bits
  ⟨x.mantissa / Nat.pow 2 extra, x.exponent + extra⟩

/-- A number at or below a positive rational. -/
def ofRat (bits : Nat) (q : Rat) : Truncated :=
  let shift := bits + q.den.log2 + 1
  truncate bits ⟨q.num.natAbs * Nat.pow 2 shift / q.den, -shift⟩

/-- A number at or below a product. -/
def mul (bits : Nat) (x y : Truncated) : Truncated :=
  truncate bits ⟨x.mantissa * y.mantissa, x.exponent + y.exponent⟩

/-- A number at or below a power, by squaring; `fuel` bounds the bits of the exponent. -/
def pow (bits : Nat) (x : Truncated) : Nat → Nat → Truncated
  | 0, _ => ⟨1, 0⟩
  | fuel + 1, n =>
    if n = 0 then ⟨1, 0⟩
    else
      let half := pow bits x fuel (n / 2)
      let square := mul bits half half
      if n % 2 = 0 then square else mul bits square x

/-- The binary logarithm, rounded down. -/
def size (x : Truncated) : Int := x.exponent + x.mantissa.log2

end Truncated

/-- The magnitude of a rational. -/
def magnitude (q : Rat) : Rat := if q < 0 then -q else q

/-- The magnitude of a rational, or of its inverse if that is greater. -/
def magnitudeAboveOne (q : Rat) : Rat :=
  if magnitude q < 1 then (magnitude q)⁻¹ else magnitude q

/-- How often a rational above one is squared until its binary logarithm is beyond `2 ^ 62`. -/
def squarings (a : Rat) : Nat := 63 + a.num.natAbs.log2 - (a.num.natAbs - a.den).log2

/-- The binary logarithm of a rational above one. -/
def binaryLogarithm (a : Rat) : Rat :=
  let s := squarings a
  let power := (Truncated.ofRat (s + 64) a).pow (s + 64) (s + 1) (Nat.pow 2 s)
  mkRat power.size (Nat.pow 2 s)

/-- The exponent of ten that a natural is a power of. -/
def powerOfTen? : Nat → Nat → Option Nat
  | 0, _ => none
  | fuel + 1, n =>
    if n = 1 then some 0
    else if n % 10 = 0 then (powerOfTen? fuel (n / 10)).map (· + 1)
    else none

/-- The decimal logarithm of a rational above one: exact for powers of ten. -/
def decimalLogarithm (a : Rat) : Rat :=
  let known? := if a.den = 1 then powerOfTen? (a.num.natAbs.log2 + 2) a.num.natAbs else none
  match known? with
  | some k => k
  | none => binaryLogarithm a / binaryLogarithm 10

/-- The exponent times the decimal logarithm of the magnitude of the base. -/
def digitsOfPower (base exponent : Rat) : Rat :=
  let a := magnitudeAboveOne base
  let logarithm := if a = 1 then 0 else decimalLogarithm a
  exponent * (if magnitude base < 1 then -logarithm else logarithm)

end EquationStudio
