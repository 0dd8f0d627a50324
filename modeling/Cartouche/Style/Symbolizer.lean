import Cartouche.Color

/-!
# Symbolizers

A symbolizer says how a part of a feature is drawn: as an icon, as a line, as an area or as a text.
Almost everything about it may be left open. The alpha channel of a fill or stroke color is not
used: opacity is a property of its own.
-/

namespace Cartouche

/-- How an area is filled. -/
structure Fill where
  color : Color
  opacity : Option Float := none
deriving BEq, Repr

/-- The color with the opacity of the fill; without one it is opaque. -/
def Fill.effectiveColor (fill : Fill) : Color := fill.color.withOpacity (fill.opacity.getD 1.0)

/-- How a line is drawn. -/
structure Stroke where
  color : Color
  opacity : Option Float := none
  width : Option Float := none
deriving BEq, Repr

/-- The color with the opacity of the stroke; without one it is opaque. -/
def Stroke.effectiveColor (stroke : Stroke) : Color :=
  stroke.color.withOpacity (stroke.opacity.getD 1.0)

/-- The picture of an icon. -/
inductive Graphic where
  | externalIcon (href : String)
  | mark (wellKnownName : String)
deriving DecidableEq, Repr

/-- Marks are squares unless they say otherwise. -/
def Graphic.square : Graphic := .mark "square"

/-- How a point is drawn. -/
structure PointSymbolizer where
  graphic : Graphic := .square
  fill : Option Fill := none
  opacity : Option Float := none
  size : Option Float := none
deriving BEq, Repr

/-- How a line is drawn. -/
structure LineSymbolizer where
  stroke : Option Stroke := none
deriving BEq, Repr

/-- How an area is drawn. -/
structure PolygonSymbolizer where
  fill : Option Fill := none
  stroke : Option Stroke := none
deriving BEq, Repr

/-- How a label is written; its text is a template over the attributes. -/
structure TextSymbolizer where
  label : String := ""
  fill : Option Fill := none
deriving BEq, Repr

/-- How a part of a feature is drawn. -/
inductive Symbolizer where
  | point (symbolizer : PointSymbolizer)
  | line (symbolizer : LineSymbolizer)
  | polygon (symbolizer : PolygonSymbolizer)
  | text (symbolizer : TextSymbolizer)
deriving BEq, Repr

/-- An icon with a picture. -/
def PointSymbolizer.icon (href : String) : PointSymbolizer := { graphic := .externalIcon href }

/-- A filled mark. -/
def PointSymbolizer.ofMark (name : String) (fill : Fill) : PointSymbolizer where
  graphic := .mark name
  fill := some fill

/-- The template of a text. -/
def Symbolizer.label? : Symbolizer → Option String
  | .text symbolizer => some symbolizer.label
  | _ => none

/-- A fill needs a color; its opacity may be left out. -/
instance : JsonForm Fill where
  toJson fill := .object [
    ("color", JsonForm.toJson fill.color),
    ("opacity", JsonForm.toJson fill.opacity)]
  ofJson? origin json := do
    let fields ← Json.Fields.of? origin ["color", "opacity"] json
    return {
      color := ← fields.required "color"
      opacity := ← fields.withDefault "opacity" none }

/-- A stroke needs a color; its opacity and its width may be left out. -/
instance : JsonForm Stroke where
  toJson stroke := .object [
    ("color", JsonForm.toJson stroke.color),
    ("opacity", JsonForm.toJson stroke.opacity),
    ("width", JsonForm.toJson stroke.width)]
  ofJson? origin json := do
    let fields ← Json.Fields.of? origin ["color", "opacity", "width"] json
    return {
      color := ← fields.required "color"
      opacity := ← fields.withDefault "opacity" none
      width := ← fields.withDefault "width" none }

/-- A variant whose content is a record with one field. -/
instance : JsonForm Graphic where
  toJson
    | .externalIcon href => .ofVariant "ExternalIcon" (.ofField "href" href)
    | .mark name => .ofVariant "Mark" (.ofField "well_known_name" name)
  ofJson? origin json :=
    match json.variant? with
    | some ("ExternalIcon", content) => (content.contentField? origin "href").map .externalIcon
    | some ("Mark", content) => (content.contentField? origin "well_known_name").map .mark
    | _ => none

/-- A symbolizer of points may leave out everything; its picture is a square mark then. -/
instance : JsonForm PointSymbolizer where
  toJson symbolizer := .object [
    ("graphic", JsonForm.toJson symbolizer.graphic),
    ("fill", JsonForm.toJson symbolizer.fill),
    ("opacity", JsonForm.toJson symbolizer.opacity),
    ("size", JsonForm.toJson symbolizer.size)]
  ofJson? origin json := do
    let fields ← Json.Fields.of? origin ["graphic", "fill", "opacity", "size"] json
    return {
      graphic := ← fields.withDefault "graphic" .square
      fill := ← fields.withDefault "fill" none
      opacity := ← fields.withDefault "opacity" none
      size := ← fields.withDefault "size" none }

/-- A symbolizer of lines may leave out its stroke. -/
instance : JsonForm LineSymbolizer where
  toJson symbolizer := .ofField "stroke" symbolizer.stroke
  ofJson? origin json := do
    let fields ← Json.Fields.of? origin ["stroke"] json
    return { stroke := ← fields.withDefault "stroke" none }

/-- A symbolizer of areas may leave out its fill and its stroke. -/
instance : JsonForm PolygonSymbolizer where
  toJson symbolizer := .object [
    ("fill", JsonForm.toJson symbolizer.fill),
    ("stroke", JsonForm.toJson symbolizer.stroke)]
  ofJson? origin json := do
    let fields ← Json.Fields.of? origin ["fill", "stroke"] json
    return {
      fill := ← fields.withDefault "fill" none
      stroke := ← fields.withDefault "stroke" none }

/-- A symbolizer of labels needs a template. -/
instance : JsonForm TextSymbolizer where
  toJson symbolizer := .object [
    ("label", JsonForm.toJson symbolizer.label),
    ("fill", JsonForm.toJson symbolizer.fill)]
  ofJson? origin json := do
    let fields ← Json.Fields.of? origin ["label", "fill"] json
    return {
      label := ← fields.required "label"
      fill := ← fields.withDefault "fill" none }

/-- A variant named for what is drawn. -/
instance : JsonForm Symbolizer where
  toJson
    | .point symbolizer => .ofVariant "Point" (JsonForm.toJson symbolizer)
    | .line symbolizer => .ofVariant "Line" (JsonForm.toJson symbolizer)
    | .polygon symbolizer => .ofVariant "Polygon" (JsonForm.toJson symbolizer)
    | .text symbolizer => .ofVariant "Text" (JsonForm.toJson symbolizer)
  ofJson? origin json :=
    match json.variant? with
    | some ("Point", content) => (JsonForm.ofJson? origin content).map .point
    | some ("Line", content) => (JsonForm.ofJson? origin content).map .line
    | some ("Polygon", content) => (JsonForm.ofJson? origin content).map .polygon
    | some ("Text", content) => (JsonForm.ofJson? origin content).map .text
    | _ => none

end Cartouche
