import Cartouche.Json.Form
import Cartouche.Number.Binary64

/-!
# Colors

A color has four channels of eight bits, the last of which is its opacity. It is written as
hexadecimal digits in two orders: `Color.toHex` for people and files, `Color.toKml` for placemarks,
where the opacity comes first and red last. `Color.ofHex?` reads the first form, with or without the
opacity.
-/

namespace Cartouche

/-- A color with its opacity `a`. -/
structure Color where
  r : UInt8
  g : UInt8
  b : UInt8
  a : UInt8
deriving DecidableEq, Repr

namespace Color

/-- Full red, opaque. -/
def red : Color := ⟨255, 0, 0, 255⟩

/-- Full green, opaque. -/
def green : Color := ⟨0, 255, 0, 255⟩

/-- Full blue, opaque. -/
def blue : Color := ⟨0, 0, 255, 255⟩

/-- All channels at their greatest value, opaque. -/
def white : Color := ⟨255, 255, 255, 255⟩

/-- No color in any channel, opaque. -/
def black : Color := ⟨0, 0, 0, 255⟩

/-- The middle between black and white, opaque. -/
def mediumGray : Color := ⟨128, 128, 128, 255⟩

/-- All channels zero: no color at all. -/
def clear : Color := ⟨0, 0, 0, 0⟩

/-- A channel brought into its range. -/
def clampChannel (value : Int) : UInt8 := UInt8.ofNat (min value.toNat 255)

/-- The channel of an opacity between 0 and 1; one that is not finite is full. -/
def opacityChannel (opacity : Float) : UInt8 :=
  let opacity :=
    if !opacity.isFinite then 1.0
    else if opacity < 0.0 then 0.0
    else if 1.0 < opacity then 1.0
    else opacity
  (Binary64.roundHalfAway (opacity * 255.0)).toUInt8

/-- The color of three channels and an opacity, each brought into its range. -/
def ofOpacity (r g b : Int) (opacity : Float) : Color :=
  ⟨clampChannel r, clampChannel g, clampChannel b, opacityChannel opacity⟩

/-- The color with another opacity. -/
def withOpacity (color : Color) (opacity : Float) : Color :=
  ofOpacity color.r.toNat color.g.toNat color.b.toNat opacity

/-- A digit from 0 to 15. -/
def hexDigit (upper : Bool) (digit : Nat) : Char :=
  let c := (Nat.toDigits 16 digit).headD '0'
  if upper then c.toUpper else c

/-- Two hexadecimal digits. -/
def hexPair (upper : Bool) (channel : UInt8) : List Char :=
  [hexDigit upper (channel.toNat / 16), hexDigit upper (channel.toNat % 16)]

/-- The channels behind a `#`, in upper case, the opacity last. -/
def toHex (color : Color) : String :=
  String.ofList ('#' :: [color.r, color.g, color.b, color.a].flatMap (hexPair true))

/-- The channels in lower case, the opacity first and red last. -/
def toKml (color : Color) : String :=
  String.ofList ([color.a, color.b, color.g, color.r].flatMap (hexPair false))

/-- The value of a hexadecimal digit of either case. -/
def digitValue? (c : Char) : Option Nat :=
  if '0' ≤ c ∧ c ≤ '9' then some (c.toNat - '0'.toNat)
  else if 'a' ≤ c ∧ c ≤ 'f' then some (c.toNat - 'a'.toNat + 10)
  else if 'A' ≤ c ∧ c ≤ 'F' then some (c.toNat - 'A'.toNat + 10)
  else none

/-- A channel of two characters: two hexadecimal digits, or a plus sign and one. -/
def channel? (high low : Char) : Option UInt8 := do
  let high ← if high = '+' then some 0 else digitValue? high
  let low ← digitValue? low
  return UInt8.ofNat (16 * high + low)

/-- The color of a `#` and three or four channels; without the fourth it is opaque. -/
def ofHex? (text : String) : Option Color :=
  match text.toList with
  | ['#', r₁, r₂, g₁, g₂, b₁, b₂] =>
    return ⟨← channel? r₁ r₂, ← channel? g₁ g₂, ← channel? b₁ b₂, 255⟩
  | ['#', r₁, r₂, g₁, g₂, b₁, b₂, a₁, a₂] =>
    return ⟨← channel? r₁ r₂, ← channel? g₁ g₂, ← channel? b₁ b₂, ← channel? a₁ a₂⟩
  | _ => none

/-- The color of a text, black when the text is none. -/
def ofText (text : String) : Color := (ofHex? text).getD black

/-- A color is a text. -/
instance : JsonForm Color where
  toJson color := .text color.toHex
  ofJson? _ json := json.text?.map ofText

end Color

end Cartouche
