/-!
# ProtoRoutes.Number.Binary64

Binary floating-point numbers of 64 bits, as far as option values need them: the number nearest to a
fraction, the number nearest to a decimal, negation and the bit pattern.

A finite number is `mantissa * 2 ^ exponent`. Rounding is exact: the fraction is scaled by a power
of two, divided, and a remainder of more than half a unit (or of half a unit next to an odd
quotient) rounds up. No step works with an approximation.
-/

namespace ProtoRoutes

/-- A number of 64 bits. Rounding makes finite ones with `mantissa < 2 ^ 53`, and with
`2 ^ 52 ≤ mantissa` unless the exponent is the least one, -1074. -/
inductive Binary64 where
  | finite (negative : Bool) (mantissa : Nat) (exponent : Int)
  | infinite (negative : Bool)
  | nan
  deriving DecidableEq, Repr

namespace Binary64

/-- A power of two. -/
def pow2 (n : Nat) : Nat := Nat.pow 2 n

/-- A power of ten. -/
def pow10 (n : Nat) : Nat := Nat.pow 10 n

/-- The least exponent of a finite number. -/
def minExponent : Int := -1074

/-- The greatest exponent of a finite number. -/
def maxExponent : Int := 971

/-- The quotient nearest to `a / b`; a half goes to the even neighbour. -/
def roundDiv (a b : Nat) : Nat :=
  let q := a / b
  let r := a % b
  if b < 2 * r || (2 * r = b && q % 2 = 1) then q + 1 else q

/-- The fraction `num / (den * 2 ^ e)`. -/
def scale (num den : Nat) (e : Int) : Nat × Nat :=
  if 0 ≤ e then (num, den * pow2 e.toNat) else (num * pow2 (-e).toNat, den)

/-- The exponent at which a positive fraction has a mantissa of 53 bits, but not below the least
one. -/
def exponentOf (num den : Nat) : Int :=
  let guess := (num.log2 : Int) - den.log2 - 53
  let (a, b) := scale num den guess
  max minExponent (if pow2 53 ≤ a / b then guess + 1 else guess)

/-- The number nearest to `num / den`, where `den` is positive. -/
def ofRatio (num den : Nat) : Binary64 :=
  if num = 0 then finite false 0 minExponent
  else
    let e := exponentOf num den
    let (a, b) := scale num den e
    let m := roundDiv a b
    let (m, e) := if m = pow2 53 then (pow2 52, e + 1) else (m, e)
    if maxExponent < e then infinite false else finite false m e

/-- The number nearest to a natural number. -/
def ofNat (n : Nat) : Binary64 :=
  ofRatio n 1

/-- The number nearest to `digits * 10 ^ exponent`. A decimal that is out of reach by its size alone
is settled without building the power: from `10 ^ 309` on it is infinite, below `10 ^ -324` zero. -/
def ofDecimal (digits : Nat) (exponent : Int) : Binary64 :=
  let length : Int := (Nat.toDigits 10 digits).length
  if digits = 0 || length + exponent ≤ -324 then finite false 0 minExponent
  else if 310 ≤ length + exponent then infinite false
  else if 0 ≤ exponent then ofRatio (digits * pow10 exponent.toNat) 1
  else ofRatio digits (pow10 (-exponent).toNat)

/-- The number with the other sign. -/
def neg : Binary64 → Binary64
  | finite negative m e => finite (!negative) m e
  | infinite negative => infinite (!negative)
  | nan => nan

/-- The bit pattern: a sign bit, eleven bits for the exponent and 52 for the mantissa, whose leading
bit is left out unless the exponent is the least one. -/
def bits : Binary64 → Nat
  | finite negative m e =>
    let sign := if negative then pow2 63 else 0
    if m < pow2 52 then sign + m else sign + (e + 1075).toNat * pow2 52 + (m - pow2 52)
  | infinite negative => (if negative then pow2 63 else 0) + 2047 * pow2 52
  | nan => 2047 * pow2 52 + pow2 51

end Binary64

end ProtoRoutes
