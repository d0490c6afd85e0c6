import FileDepot.Toml.Value

/-!
# TOML numbers and dates

Readers for unquoted scalars. A reader takes the text that it recognises off the front of the
input, and returns the rest; it has no answer where the input does not start with such a text.
-/

namespace FileDepot.Toml

/-- Reads a value off the front of a text. -/
abbrev Scan (α : Type) := List Char → Option (α × List Char)

namespace Scan

/-- The value of a digit in bases up to 16. -/
def digitValue (c : Char) : Nat :=
  if c.isDigit then c.toNat - '0'.toNat
  else if c.isLower then c.toNat - 'a'.toNat + 10
  else c.toNat - 'A'.toNat + 10

/-- The number written by some digits. -/
def number (base : Nat) (digits : List Char) : Nat :=
  digits.foldl (fun n c => base * n + digitValue c) 0

/-- Digits of a class, after the first one: single underscores may stand between two digits. -/
def moreDigits (isDigit : Char → Bool) : List Char → List Char × List Char
  | '_' :: c :: rest =>
    if isDigit c then
      let (digits, rest) := moreDigits isDigit rest
      (c :: digits, rest)
    else ([], '_' :: c :: rest)
  | c :: rest =>
    if isDigit c then
      let (digits, rest) := moreDigits isDigit rest
      (c :: digits, rest)
    else ([], c :: rest)
  | [] => ([], [])

/-- One or more digits of a class, with underscores between them. -/
def digits (isDigit : Char → Bool) : Scan (List Char)
  | c :: rest =>
    if isDigit c then
      let (more, rest) := moreDigits isDigit rest
      some (c :: more, rest)
    else none
  | [] => none

/-- A sign, if there is one; whether it is a minus. -/
def sign : List Char → Bool × List Char
  | '-' :: rest => (true, rest)
  | '+' :: rest => (false, rest)
  | rest => (false, rest)

/-- Decimal digits without a leading zero, unless that is all. -/
def decimal : Scan (List Char)
  | '0' :: rest => some (['0'], rest)
  | rest => digits Char.isDigit rest

/-- Whether an integer fits into 64 bits with a sign. -/
def fits (n : Int) : Bool :=
  Int64.minValue.toInt ≤ n && n ≤ Int64.maxValue.toInt

/-- Whether a character is a digit of base 16. -/
def isHexDigit (c : Char) : Bool :=
  c.isDigit || ('a' ≤ c && c ≤ 'f') || ('A' ≤ c && c ≤ 'F')

/-- Digits of a base as a number of 64 bits with a sign. -/
def based (base : Nat) (isDigit : Char → Bool) (cs : List Char) : Option (Int × List Char) := do
  let (ds, rest) ← digits isDigit cs
  let n : Int := number base ds
  if fits n then some (n, rest) else none

/-- An integer in base 16, 8, 2 or 10; only the last may have a sign. -/
def integer : Scan Int
  | '0' :: 'x' :: rest => based 16 isHexDigit rest
  | '0' :: 'o' :: rest => based 8 (fun c => '0' ≤ c && c ≤ '7') rest
  | '0' :: 'b' :: rest => based 2 (fun c => c = '0' || c = '1') rest
  | cs => do
    let (negative, cs) := sign cs
    let (ds, rest) ← decimal cs
    let n : Int := number 10 ds
    let n := if negative then -n else n
    if fits n then some (n, rest) else none

/-- The places behind a point. -/
def fraction : Scan (List Char)
  | '.' :: rest => digits Char.isDigit rest
  | _ => none

/-- A power of ten. -/
def exponent : Scan Int
  | c :: rest =>
    if c = 'e' || c = 'E' then do
      let (negative, rest) := sign rest
      let (ds, rest) ← digits Char.isDigit rest
      let n : Int := number 10 ds
      some (if negative then -n else n, rest)
    else none
  | [] => none

/-- Not a finite number. -/
def special (negative : Bool) : Scan Binary64
  | 'i' :: 'n' :: 'f' :: rest => some (.infinite negative, rest)
  | 'n' :: 'a' :: 'n' :: rest => some (.nan, rest)
  | _ => none

/-- A number with places, a power of ten or both. One too large for a double is refused, but only
if it is positive. -/
def finite (negative : Bool) (cs : List Char) : Option (Binary64 × List Char) := do
  let (whole, rest) ← decimal cs
  let (places, power, rest) ←
    match fraction rest with
    | some (places, rest) =>
      match exponent rest with
      | some (power, rest) => some (places, power, rest)
      | none => some (places, 0, rest)
    | none => (exponent rest).map fun (power, rest) => ([], power, rest)
  let x := Binary64.ofDecimal negative (number 10 (whole ++ places)) (power - places.length)
  if x = .infinite false then none else some (x, rest)

/-- A floating point number. -/
def float (cs : List Char) : Option (Binary64 × List Char) :=
  let (negative, cs) := sign cs
  finite negative cs <|> special negative cs

/-- Exactly `count` decimal digits. -/
def fixedDigits (count : Nat) (cs : List Char) : Option (Nat × List Char) :=
  let ds := cs.take count
  if ds.length = count && ds.all Char.isDigit then some (number 10 ds, cs.drop count) else none

/-- A given character. -/
def char (c : Char) : Scan Unit
  | d :: rest => if c = d then some ((), rest) else none
  | [] => none

/-- The number of days in a month. -/
def daysInMonth (year month : Nat) : Nat :=
  let leap := year % 4 = 0 ∧ (year % 100 ≠ 0 ∨ year % 400 = 0)
  if month = 2 then (if leap then 29 else 28)
  else if month = 4 ∨ month = 6 ∨ month = 9 ∨ month = 11 then 30
  else 31

/-- A date of the calendar. -/
def date (cs : List Char) : Option (Date × List Char) := do
  let (year, cs) ← fixedDigits 4 cs
  let ((), cs) ← char '-' cs
  let (month, cs) ← fixedDigits 2 cs
  let ((), cs) ← char '-' cs
  let (day, cs) ← fixedDigits 2 cs
  if 1 ≤ month && month ≤ 12 && 1 ≤ day && day ≤ daysInMonth year month then
    some (⟨year, month, day⟩, cs)
  else none

/-- The places of a second, cut to nanoseconds. -/
def subsecond (cs : List Char) : Nat × List Char :=
  match cs with
  | '.' :: c :: rest =>
    if c.isDigit then
      let ds := c :: rest.takeWhile Char.isDigit
      (number 10 ((ds ++ List.replicate 9 '0').take 9), rest.dropWhile Char.isDigit)
    else (0, cs)
  | _ => (0, cs)

/-- A time of day. -/
def time (cs : List Char) : Option (Time × List Char) := do
  let (hour, cs) ← fixedDigits 2 cs
  let ((), cs) ← char ':' cs
  let (minute, cs) ← fixedDigits 2 cs
  let ((), cs) ← char ':' cs
  let (second, cs) ← fixedDigits 2 cs
  let (nanosecond, cs) := subsecond cs
  if hour ≤ 23 && minute ≤ 59 && second ≤ 60 then some (⟨hour, minute, second, nanosecond⟩, cs)
  else none

/-- A distance from universal time. -/
def offset : Scan Int
  | c :: cs =>
    if c = 'Z' || c = 'z' then some (0, cs)
    else if c = '+' || c = '-' then do
      let (hour, cs) ← fixedDigits 2 cs
      let ((), cs) ← char ':' cs
      let (minute, cs) ← fixedDigits 2 cs
      let distance : Int := 60 * hour + minute
      if hour ≤ 23 && minute ≤ 59 then some (if c = '-' then -distance else distance, cs) else none
    else none
  | [] => none

/-- A time behind a date. -/
def timeOfDate : Scan (Time × Option Int)
  | c :: cs =>
    if c = 'T' || c = 't' || c = ' ' then do
      let (t, cs) ← time cs
      match offset cs with
      | some (distance, cs) => some ((t, some distance), cs)
      | none => some ((t, none), cs)
    else none
  | [] => none

/-- A date with or without a time, or a time. -/
def datetime (cs : List Char) : Option (Datetime × List Char) :=
  match date cs with
  | some (d, cs) =>
    match timeOfDate cs with
    | some ((t, distance), cs) => some (⟨some d, some t, distance⟩, cs)
    | none => some (⟨some d, none, none⟩, cs)
  | none => (time cs).map fun (t, cs) => ({ time := some t }, cs)

/-- A value that starts with a digit or a sign. -/
def numeral (cs : List Char) : Option (Value × List Char) :=
  (datetime cs).map (fun (d, rest) => (.datetime d, rest))
    <|> (float cs).map (fun (x, rest) => (.float x, rest))
    <|> (integer cs).map (fun (n, rest) => (.integer n, rest))

/-- Truth values and unsigned special numbers. -/
def word : Scan Value
  | 't' :: 'r' :: 'u' :: 'e' :: rest => some (.boolean true, rest)
  | 'f' :: 'a' :: 'l' :: 's' :: 'e' :: rest => some (.boolean false, rest)
  | cs => (special false cs).map fun (x, rest) => (.float x, rest)

end Scan

end FileDepot.Toml
