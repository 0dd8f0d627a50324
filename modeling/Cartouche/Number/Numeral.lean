import Cartouche.Number.Binary64

/-!
# Reading numbers

A `Numeral` is what the digits of a written number say, before any rounding: a sign, a natural and a
power of ten. `Numeral.toFloat` rounds it once, to the nearest double. `parseFloat?` and
`parseInt64?` read whole texts with an optional sign and no blanks.
-/

namespace Cartouche

/-- The number `± digits * 10 ^ exponent`. -/
structure Numeral where
  negative : Bool
  digits : Nat
  exponent : Int
deriving DecidableEq, Repr

namespace Numeral

/-- The nearest double, infinite beyond their range. Powers of ten that are beyond the range
whatever the digits are cut off first, which keeps the numbers small. -/
def toFloat (n : Numeral) : Float :=
  let size : Int := (Nat.toDigits 10 n.digits).length + n.exponent
  if n.digits = 0 ∨ size < -400 then Binary64.ofQuotient n.negative 0 1
  else if 400 < size then Binary64.ofQuotient n.negative (Nat.pow 10 400) 1
  else Binary64.ofQuotient n.negative (n.digits * Nat.pow 10 n.exponent.toNat)
    (Nat.pow 10 (-n.exponent).toNat)

/-- The value of a run of decimal digits. -/
def digitsValue (digits : List Char) : Nat :=
  digits.foldl (fun value c => 10 * value + (c.toNat - '0'.toNat)) 0

/-- An optional sign in front of the rest; the flag tells a minus. -/
def splitSign : List Char → Bool × List Char
  | '-' :: rest => (true, rest)
  | '+' :: rest => (false, rest)
  | rest => (false, rest)

/-- The power of ten behind an `e`: an optional sign and at least one digit, up to the end. -/
def exponent? (chars : List Char) : Option Int :=
  let (negative, digits) := splitSign chars
  if digits ≠ [] ∧ digits.all Char.isDigit then
    some (if negative then -digitsValue digits else digitsValue digits)
  else
    none

/-- An unsigned decimal number: digits with at most one point among them, at least one digit, and an
optional exponent. -/
def unsigned? (negative : Bool) (chars : List Char) : Option Numeral :=
  let whole := chars.takeWhile Char.isDigit
  let rest := chars.dropWhile Char.isDigit
  let (fraction, rest) :=
    match rest with
    | '.' :: rest => (rest.takeWhile Char.isDigit, rest.dropWhile Char.isDigit)
    | rest => ([], rest)
  if whole = [] ∧ fraction = [] then
    none
  else
    let value (exponent : Int) : Numeral :=
      { negative
        digits := digitsValue (whole ++ fraction)
        exponent := exponent - fraction.length }
    match rest with
    | [] => some (value 0)
    | c :: rest => if c = 'e' ∨ c = 'E' then (exponent? rest).map value else none

end Numeral

/-- Reads a double: an optional sign and a decimal number, `inf`, `infinity` or `nan` in letters of
either case. -/
def parseFloat? (text : String) : Option Float :=
  let (negative, chars) := Numeral.splitSign text.toList
  let name := String.ofList (chars.map Char.toLower)
  if name = "inf" ∨ name = "infinity" then
    some (Binary64.ofQuotient negative (Nat.pow 10 400) 1)
  else if name = "nan" then
    some (0.0 / 0.0)
  else
    (Numeral.unsigned? negative chars).map Numeral.toFloat

/-- Reads an integer of 64 bits: an optional sign and at least one decimal digit. -/
def parseInt64? (text : String) : Option Int64 :=
  let (negative, digits) := Numeral.splitSign text.toList
  if digits ≠ [] ∧ digits.all Char.isDigit then
    let value : Int := if negative then -Numeral.digitsValue digits else Numeral.digitsValue digits
    if Int64.minValue.toInt ≤ value ∧ value ≤ Int64.maxValue.toInt then some (Int64.ofInt value)
    else none
  else
    none

end Cartouche
