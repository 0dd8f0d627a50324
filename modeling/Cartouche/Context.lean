import Cartouche.Json.Form
import Cartouche.Number.Style

/-!
# Rendering options

A `RenderContext` fixes how one document is written: its layout, the separators of coordinate lists,
the rounding of numbers and the scale at which styles are resolved. `RenderContext.formatNumber`
writes a number rounded to the wanted places.
-/

namespace Cartouche

/-- The options of one rendering. -/
structure RenderContext where
  /-- One tag a line, indented. -/
  verbose : Bool := false
  /-- The decimal point. -/
  decimal : Char := '.'
  /-- Between the coordinates of a point. -/
  coordinateSeparator : String := ","
  /-- Between points. -/
  tupleSeparator : String := " "
  /-- Places behind the decimal point; more than fifteen count as fifteen. -/
  numDecimals : UInt64 := 6
  /-- The denominator of the scale of the map. -/
  scaleDenominator : Float := 1.0
deriving Repr

namespace RenderContext

/-- The power of ten by which numbers are scaled before they are rounded. -/
def factor (context : RenderContext) : Float :=
  Float.ofNat (Nat.pow 10 (min context.numDecimals.toNat 15))

/-- The value rounded to the wanted places, a half going away from zero. A value too large to be
scaled stays as it is, and zero has no sign. -/
def roundNumber (context : RenderContext) (value : Float) : Float :=
  let rounded := Binary64.roundHalfAway (value * context.factor) / context.factor
  let rounded := if rounded.isFinite then rounded else value
  if rounded == 0.0 then 0.0 else rounded

/-- The text of a number: rounded, and with the decimal point of the context. -/
def formatNumber (context : RenderContext) (value : Float) : String :=
  let text := NumberStyle.plain.text (context.roundNumber value)
  String.ofList (text.toList.map fun c => if c = '.' then context.decimal else c)

/-- The options in the order of their JSON form. -/
def fieldNames : List String :=
  ["verbose", "decimal", "coordinate_separator", "tuple_separator", "num_decimals",
    "scale_denominator"]

/-- Every option may be left out, and then has its default. -/
instance : JsonForm RenderContext where
  toJson c := .object [
    ("verbose", JsonForm.toJson c.verbose),
    ("decimal", JsonForm.toJson c.decimal),
    ("coordinate_separator", JsonForm.toJson c.coordinateSeparator),
    ("tuple_separator", JsonForm.toJson c.tupleSeparator),
    ("num_decimals", JsonForm.toJson c.numDecimals),
    ("scale_denominator", JsonForm.toJson c.scaleDenominator)]
  ofJson? origin json := do
    let fields ← Json.Fields.of? origin fieldNames json
    let default : RenderContext := {}
    return {
      verbose := ← fields.withDefault "verbose" default.verbose
      decimal := ← fields.withDefault "decimal" default.decimal
      coordinateSeparator :=
        ← fields.withDefault "coordinate_separator" default.coordinateSeparator
      tupleSeparator := ← fields.withDefault "tuple_separator" default.tupleSeparator
      numDecimals := ← fields.withDefault "num_decimals" default.numDecimals
      scaleDenominator := ← fields.withDefault "scale_denominator" default.scaleDenominator }

end RenderContext

end Cartouche
