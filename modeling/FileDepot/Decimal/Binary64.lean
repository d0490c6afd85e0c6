/-!
# Binary floating point

Doubles as exact fractions: a value read from a decimal is rounded to the nearest double, an exact
half to the even one.
-/

namespace FileDepot

/-- A double: `mantissa * 2 ^ exponent` with a sign, an infinity, or not a number. -/
inductive Binary64 where
  | finite (negative : Bool) (mantissa : Nat) (exponent : Int)
  | infinite (negative : Bool)
  | nan
deriving DecidableEq, Repr

namespace Binary64

-- The power of the core library, whatever else is in scope.
attribute [local instance (high)] instPowNat

/-- Bits in a mantissa. -/
def precision : Nat := 53

/-- The exponent of the smallest doubles. -/
def minExponent : Int := -1074

/-- The exponent of the largest doubles. -/
def maxExponent : Int := 971

/-- The nearest natural number to a fraction, an exact half going to the even one. -/
def roundHalfEven (num den : Nat) : Nat :=
  let q := num / den
  let r := num % den
  if 2 * r < den then q
  else if 2 * r > den then q + 1
  else q + q % 2

/-- A fraction in units of `2 ^ exponent`. -/
def scale (num den : Nat) (exponent : Int) : Nat × Nat :=
  (num * 2 ^ (-exponent).toNat, den * 2 ^ exponent.toNat)

/-- The largest exponent whose unit leaves the fraction at least `2 ^ 52` of them, or the smallest
exponent there is. -/
def unitExponent (num den : Nat) : Int :=
  let guess : Int := Nat.log2 num - Nat.log2 den - (precision - 1)
  let fits (e : Int) : Bool :=
    let (n, d) := scale num den e
    d * 2 ^ (precision - 1) ≤ n
  max minExponent (if fits guess then guess else guess - 1)

/-- The nearest double to a positive fraction. -/
def ofFraction (negative : Bool) (num den : Nat) : Binary64 :=
  let e := unitExponent num den
  let (n, d) := scale num den e
  let m := roundHalfEven n d
  let (m, e) := if m = 2 ^ precision then (2 ^ (precision - 1), e + 1) else (m, e)
  if maxExponent < e then .infinite negative else .finite negative m e

/-- Decimals of more digits before the point than this are over every double, and those of more
zeros behind it are under half of the smallest. -/
def decimalReach : Int := 400

/-- The nearest double to `digits * 10 ^ exponent`. -/
def ofDecimal (negative : Bool) (digits : Nat) (exponent : Int) : Binary64 :=
  if digits = 0 then .finite negative 0 minExponent
  else
    let leading : Int := (Nat.toDigits 10 digits).length + exponent
    if decimalReach < leading then .infinite negative
    else if leading < -decimalReach then .finite negative 0 minExponent
    else ofFraction negative (digits * 10 ^ exponent.toNat) (10 ^ (-exponent).toNat)

end Binary64

end FileDepot
