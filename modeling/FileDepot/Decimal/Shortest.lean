import FileDepot.Decimal.Binary64

/-!
# Shortest decimals

The text of a double has the fewest digits that read back as the same double; of two such decimals
the nearer one is written, and the larger one on a tie. It is always positional.
-/

namespace FileDepot.Binary64

-- The power of the core library, whatever else is in scope.
attribute [local instance (high)] instPowNat

/-- The decimals that read back as a double: a numerator range over a common denominator, with or
without its ends, around the double itself. -/
structure Interval where
  low : Nat
  value : Nat
  high : Nat
  den : Nat
  closed : Bool

/-- The decimals that round to `mantissa * 2 ^ exponent`: up to half a unit on either side, and a
quarter below where the units get finer. An end rounds to the even neighbour. -/
def interval (mantissa : Nat) (exponent : Int) : Interval :=
  let finer := mantissa = 2 ^ (precision - 1) ∧ minExponent < exponent
  let up := 2 ^ exponent.toNat
  { low := (4 * mantissa - if finer then 1 else 2) * up
    value := 4 * mantissa * up
    high := (4 * mantissa + 2) * up
    den := 4 * 2 ^ (-exponent).toNat
    closed := mantissa % 2 = 0 }

/-- Whether a fraction lies in an interval. -/
def Interval.contains (i : Interval) (num den : Nat) : Bool :=
  if i.closed then i.low * den ≤ num * i.den && num * i.den ≤ i.high * den
  else i.low * den < num * i.den && num * i.den < i.high * den

/-- The decimal exponent of the leading digit of a positive fraction. -/
def leadingExponent (num den : Nat) : Int :=
  if den ≤ num then ((Nat.toDigits 10 (num / den)).length : Int) - 1
  else
    let zeros := (Nat.toDigits 10 ((den - 1) / num)).length
    if den ≤ num * 10 ^ (zeros - 1) then -(zeros - 1 : Nat) else -zeros

/-- The better one of the two multiples of `10 ^ exponent` next to the double, if either reads
back. -/
def candidate (i : Interval) (exponent : Int) : Option Nat :=
  let num := i.value * 10 ^ (-exponent).toNat
  let den := i.den * 10 ^ exponent.toNat
  let below := num / den
  let contains (n : Nat) := i.contains (n * 10 ^ exponent.toNat) (10 ^ (-exponent).toNat)
  match contains below, contains (below + 1) with
  | true, true => some (if 2 * (num % den) < den then below else below + 1)
  | true, false => some below
  | false, true => some (below + 1)
  | false, false => none

/-- The shortest decimal of a positive double, as digits and the exponent of the last one. -/
def shortest (mantissa : Nat) (exponent : Int) : Nat × Int :=
  let i := interval mantissa exponent
  let leading := leadingExponent i.value i.den
  let grids := (List.range 17).map fun (n : Nat) => leading - n
  (grids.findSome? fun e => (candidate i e).map (·, e)).getD (0, 0)

/-- Zeros at the end of the digits, moved into the exponent. -/
def trimZeros : Nat → Nat → Int → Nat × Int
  | 0, digits, exponent => (digits, exponent)
  | fuel + 1, digits, exponent =>
    if digits ≠ 0 ∧ digits % 10 = 0 then trimZeros fuel (digits / 10) (exponent + 1)
    else (digits, exponent)

/-- Digits in positional notation, with at least one place behind the point. -/
def positional (digits : Nat) (exponent : Int) : String :=
  let (digits, exponent) := trimZeros 20 digits exponent
  let text := Nat.toDigits 10 digits
  if 0 ≤ exponent then String.ofList (text ++ List.replicate exponent.toNat '0') ++ ".0"
  else
    let places := (-exponent).toNat
    let padded := List.replicate (places + 1 - text.length) '0' ++ text
    String.ofList (padded.take (padded.length - places)) ++ "."
      ++ String.ofList (padded.drop (padded.length - places))

/-- The text of a double. -/
def render : Binary64 → String
  | .nan => "NaN"
  | .infinite negative => if negative then "-inf" else "inf"
  | .finite negative mantissa exponent =>
    (if negative then "-" else "") ++
      if mantissa = 0 then "0.0"
      else
        let (digits, exponent) := shortest mantissa exponent
        positional digits exponent

end FileDepot.Binary64
