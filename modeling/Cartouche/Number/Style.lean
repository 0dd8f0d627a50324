import Cartouche.Number.Shortest

/-!
# How numbers are laid out

The digits of a double come from `Magnitude.shortest`; a `NumberStyle` says how they are laid out.
Two styles are in use: `NumberStyle.plain` for everything a reader of a document sees, always
positional and without a superfluous `.0`, and `NumberStyle.json` for numbers inside JSON text.
-/

namespace Cartouche

/-- The decisions that turn shortest digits into text. -/
structure NumberStyle where
  /-- The powers of ten of the leading digit that are written positionally, as a half-open range;
  `none` when all are. -/
  positional : Option (Int × Int)
  /-- An integral value carries `.0`. -/
  pointZero : Bool
  /-- The choice between two shortest decimals that are equally near. -/
  tie : Tie

namespace NumberStyle

/-- Numbers are written positionally with no more than the digits that identify them. -/
def plain : NumberStyle where
  positional := none
  pointZero := false
  tie := .up

/-- A number in JSON text shows that it is not an integer, and uses an exponent from `1e+16` upwards
and below `1e-5`. -/
def json : NumberStyle where
  positional := some (-5, 16)
  pointZero := true
  tie := .toEven

end NumberStyle

namespace Decimal

/-- The decimal digits of a natural, most significant first. -/
def digitChars (n : Nat) : List Char := Nat.toDigits 10 n

/-- The same value without trailing zeros in the digits. -/
def stripZeros (d : Decimal) : Decimal :=
  let zeros := (digitChars d.digits).reverse.takeWhile (· == '0')
  if d.digits = 0 then { digits := 0, exponent := 0 }
  else { digits := d.digits / Nat.pow 10 zeros.length, exponent := d.exponent + zeros.length }

/-- The power of ten of the leading digit. -/
def leading (d : Decimal) : Int := d.exponent + (digitChars d.digits).length - 1

/-- Digits around a decimal point that stands where the exponent puts it. -/
def positional (pointZero : Bool) (d : Decimal) : List Char :=
  let digits := digitChars d.digits
  if 0 ≤ d.exponent then
    digits ++ List.replicate d.exponent.toNat '0' ++ (if pointZero then ['.', '0'] else [])
  else
    let places := (-d.exponent).toNat
    let padded := List.replicate (places + 1 - digits.length) '0' ++ digits
    padded.take (padded.length - places) ++ '.' :: padded.drop (padded.length - places)

/-- One digit, the others behind a decimal point, and the power of ten of the first, with its sign.
-/
def scientific (d : Decimal) : List Char :=
  let exponent := (if d.leading < 0 then '-' else '+') :: digitChars d.leading.natAbs
  match digitChars d.digits with
  | first :: second :: rest => first :: '.' :: second :: rest ++ 'e' :: exponent
  | digits => digits ++ 'e' :: exponent

end Decimal

/-- The characters of a finite magnitude. -/
def NumberStyle.magnitudeChars (style : NumberStyle) (m : Magnitude) : List Char :=
  let decimal :=
    if m.mantissa = 0 then { digits := 0, exponent := 0 } else (m.shortest style.tie).stripZeros
  match style.positional with
  | none => decimal.positional style.pointZero
  | some (first, past) =>
    if m.mantissa = 0 ∨ (first ≤ decimal.leading ∧ decimal.leading < past) then
      decimal.positional style.pointZero
    else
      decimal.scientific

/-- The text of a double: a `-` also before a negative zero, `NaN` without sign, `inf` for the
infinities. -/
def NumberStyle.text (style : NumberStyle) (x : Float) : String :=
  if x.isNaN then
    "NaN"
  else
    let body := if x.isInf then "inf".toList else style.magnitudeChars (Magnitude.ofFloat x)
    String.ofList (if Binary64.isNegative x then '-' :: body else body)

example : NumberStyle.plain.text (0.1 + 0.2) = "0.30000000000000004" := by decide +kernel
example : NumberStyle.plain.text (-0.0) = "-0" := by decide +kernel
example : NumberStyle.plain.text 2.98023223876953125e-8 = "0.000000029802322387695313" := by
  decide +kernel
example : NumberStyle.json.text 5.0 = "5.0" := by decide +kernel

end Cartouche
