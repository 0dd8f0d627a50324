import Cartouche.Json.Form
import Cartouche.Plane.Rect

/-!
# Geometries in JSON

The JSON forms of points, geometries and envelopes. An elevation is left out when there is none; a
geometry is a variant named for its kind.
-/

namespace Cartouche

namespace Point

/-- A point needs two coordinates. Its elevation is written when it has one. -/
instance : JsonForm (Point Float) where
  toJson p := .object
    ([("x", JsonForm.toJson p.x), ("y", JsonForm.toJson p.y)] ++
      p.z.toList.map fun z => ("z", JsonForm.toJson z))
  ofJson? origin json := do
    let fields ← Json.Fields.of? origin ["x", "y", "z"] json
    return {
      x := ← fields.required "x"
      y := ← fields.required "y"
      z := ← fields.withDefault "z" none }

end Point

/-- A line is a record, and so is a ring. Neither is checked when it is read: a line may be short
and a ring open. -/
instance : JsonForm (LineString Float) where
  toJson line := .ofField "points" line.points
  ofJson? origin json := (json.field? origin "points").map LineString.mk

instance : JsonForm (LinearRing Float) where
  toJson ring := .ofField "points" ring.points
  ofJson? origin json := (json.field? origin "points").map LinearRing.mk

/-- An area needs an exterior; interiors may be left out. -/
instance : JsonForm (Polygon Float) where
  toJson polygon := .object [
    ("exterior", JsonForm.toJson polygon.exterior),
    ("interiors", JsonForm.toJson polygon.interiors)]
  ofJson? origin json := do
    let fields ← Json.Fields.of? origin ["exterior", "interiors"] json
    return {
      exterior := ← fields.required "exterior"
      interiors := ← fields.withDefault "interiors" [] }

/-- A kind is its name, or a variant without content. -/
instance : JsonForm GeometryKind where
  toJson kind := .text kind.name
  ofJson?
    | _, .text name => GeometryKind.ofName? name
    | _, .object [(name, .null)] => GeometryKind.ofName? name
    | _, _ => none

/-- The name of the record that holds the parts of a geometry with several parts. -/
def partsName : String := "parts"

namespace Geometry

/-- The variant of a kind. -/
def ofContent (kind : GeometryKind) (content : Json) : Json := .ofVariant kind.name content

mutual

/-- The variant named for the kind of the geometry. -/
def toJson : Geometry Float → Json
  | .point p => ofContent .point (JsonForm.toJson p)
  | .lineString line => ofContent .lineString (JsonForm.toJson line)
  | .polygon area => ofContent .polygon (JsonForm.toJson area)
  | .multiPoint parts => ofContent .multiPoint (.ofField partsName parts)
  | .multiLineString parts => ofContent .multiLineString (.ofField partsName parts)
  | .multiPolygon parts => ofContent .multiPolygon (.ofField partsName parts)
  | .collection members => ofContent .collection (.array (membersToJson members))

/-- `toJson` on every member. -/
def membersToJson : List (Geometry Float) → List Json
  | [] => []
  | member :: rest => toJson member :: membersToJson rest

end

mutual

/-- The geometry of a variant. -/
def ofJson? (origin : Json.Origin) : Json → Option (Geometry Float)
  | .object [(name, content)] =>
    match GeometryKind.ofName? name with
    | some .point => (JsonForm.ofJson? origin content).map .point
    | some .lineString => (JsonForm.ofJson? origin content).map .lineString
    | some .polygon => (JsonForm.ofJson? origin content).map .polygon
    | some .multiPoint => (content.field? origin partsName).map .multiPoint
    | some .multiLineString => (content.field? origin partsName).map .multiLineString
    | some .multiPolygon => (content.field? origin partsName).map .multiPolygon
    | some .collection =>
      match content with
      | .array members => (membersOfJson? origin members).map .collection
      | _ => none
    | none => none
  | _ => none

/-- The geometries of several variants. -/
def membersOfJson? (origin : Json.Origin) : List Json → Option (List (Geometry Float))
  | [] => some []
  | member :: rest => return (← ofJson? origin member) :: (← membersOfJson? origin rest)

end

instance : JsonForm (Geometry Float) where
  toJson := toJson
  ofJson? := ofJson?

end Geometry

/-- A rectangle needs all four bounds. -/
instance : JsonForm (Rect Float) where
  toJson r := .object [
    ("x_min", JsonForm.toJson r.xMin),
    ("y_min", JsonForm.toJson r.yMin),
    ("x_max", JsonForm.toJson r.xMax),
    ("y_max", JsonForm.toJson r.yMax)]
  ofJson? origin json := do
    let fields ← Json.Fields.of? origin ["x_min", "y_min", "x_max", "y_max"] json
    return {
      xMin := ← fields.required "x_min"
      yMin := ← fields.required "y_min"
      xMax := ← fields.required "x_max"
      yMax := ← fields.required "y_max" }

/-- An envelope without bounds is written with `null` for a rectangle. -/
instance : JsonForm (Envelope Float) where
  toJson e := .ofField "rect" e.rect
  ofJson? origin json := do
    let fields ← Json.Fields.of? origin ["rect"] json
    return { rect := ← fields.optional "rect" }

end Cartouche
