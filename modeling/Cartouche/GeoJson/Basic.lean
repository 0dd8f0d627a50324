import Cartouche.Feature.Source

/-!
# GeoJSON

Feature collections in the JSON format for geographic data, read from JSON as a whole: one part that
is malformed rejects the collection. `Shape.toGeometry` brings a shape into one of the kinds of
geometry, and `FeatureCollection.toFeatures` converts the features that can be converted; the others
are left out, and a feature without an id is numbered by its place in the collection.
-/

namespace Cartouche.GeoJson

/-- The coordinates of a place, two or more of them. -/
abbrev Position := List Float

/-- A geometry as it is written, by positions. -/
inductive Shape where
  | point (position : Position)
  | multiPoint (positions : List Position)
  | lineString (positions : List Position)
  | multiLineString (lines : List (List Position))
  | polygon (rings : List (List Position))
  | multiPolygon (polygons : List (List (List Position)))
  | collection (members : List Shape)

/-- The id of a feature as it is written. -/
inductive Id where
  | text (id : String)
  | number (id : JsonNumber)

/-- A feature as it is written. -/
structure Item where
  id : Option Id := none
  properties : List (String × Json) := []
  shape : Option Shape

/-- Features as they are written. -/
structure FeatureCollection where
  items : List Item

/-! ## Reading -/

/-- The items of an array, all read in the same way. -/
def items? {α : Type} (item? : Json → Option α) (json : Json) : Option (List α) :=
  json.array?.bind fun items => items.mapM item?

/-- A position: at least two numbers. -/
def position? (json : Json) : Option Position :=
  (items? Json.float? json).filter (2 ≤ ·.length)

/-- A bounding box may be absent or `null`, or it is a list of numbers. -/
def boundingBoxAllowed (json : Json) : Bool :=
  match json.member? "bbox" with
  | none | some .null => true
  | some box => (items? Json.float? box).isSome

/-- The shape of one of the kinds that are written by coordinates. -/
def ofCoordinates? (kind : GeometryKind) (coordinates : Json) : Option Shape :=
  match kind with
  | .point => (position? coordinates).map .point
  | .multiPoint => (items? position? coordinates).map .multiPoint
  | .lineString => (items? position? coordinates).map .lineString
  | .multiLineString => (items? (items? position?) coordinates).map .multiLineString
  | .polygon => (items? (items? position?) coordinates).map .polygon
  | .multiPolygon => (items? (items? (items? position?)) coordinates).map .multiPolygon
  | .collection => none

mutual

/-- The shape that an object writes. -/
def shape? : Json → Option Shape
  | .object entries =>
    let json := Json.object entries
    if boundingBoxAllowed json then
      match (json.member? "type").bind Json.text? |>.bind GeometryKind.ofName? with
      | some .collection => (membersIn? entries).map .collection
      | some kind => (json.member? "coordinates").bind (ofCoordinates? kind)
      | none => none
    else
      none
  | _ => none

/-- The shapes under the key for the members of a collection; the last entry with that key counts.
-/
def membersIn? : List (String × Json) → Option (List Shape)
  | [] => none
  | (key, value) :: rest =>
    if key = "geometries" ∧ rest.all (·.1 ≠ key) then shapesIn? value else membersIn? rest

/-- The shapes in an array. -/
def shapesIn? : Json → Option (List Shape)
  | .array items => shapes? items
  | _ => none

/-- The shapes that items write. -/
def shapes? : List Json → Option (List Shape)
  | [] => some []
  | item :: rest => return (← shape? item) :: (← shapes? rest)

end

/-- The id of a feature, which may be absent. -/
def id? : Option Json → Option (Option Id)
  | none => some none
  | some (.text id) => some (some (.text id))
  | some (.number id) => some (some (.number id))
  | some _ => none

/-- The properties of a feature, which may be absent or `null`. -/
def properties? : Option Json → Option (List (String × Json))
  | none | some .null => some []
  | some (.object entries) => some entries
  | some _ => none

/-- The shape of a feature, which may be `null`. -/
def featureShape? : Json → Option (Option Shape)
  | .null => some none
  | json => (shape? json).map some

/-- The object says that it is of a type. -/
def isOfType (type : String) (json : Json) : Bool :=
  match json.member? "type" with
  | some (.text name) => name == type
  | _ => false

/-- The feature that an object writes. -/
def item? (json : Json) : Option Item := do
  if !isOfType "Feature" json || !boundingBoxAllowed json then none
  return {
    id := ← id? (json.member? "id")
    properties := ← properties? (json.member? "properties")
    shape := ← featureShape? (← json.member? "geometry") }

/-- The feature collection that an object writes. -/
def FeatureCollection.ofJson? (json : Json) : Option FeatureCollection := do
  if !isOfType "FeatureCollection" json || !boundingBoxAllowed json then none
  return { items := ← items? item? (← json.member? "features") }

/-! ## Conversion -/

/-- The point at a position: two coordinates and perhaps an elevation; further numbers are dropped.
-/
def pointAt : Position → Except ConversionError (Point Float)
  | [x, y] => .ok { x, y }
  | x :: y :: z :: _ => .ok { x, y, z := some z }
  | position => .error (.shortPosition position.length)

/-- The points at positions. -/
def pointsAt (positions : List Position) : Except ConversionError (List (Point Float)) :=
  positions.mapM pointAt

/-- The line through positions. -/
def lineThrough (positions : List Position) : Except ConversionError (LineString Float) := do
  LineString.ofPoints (← pointsAt positions)

/-- The ring through positions. -/
def ringThrough (positions : List Position) : Except ConversionError (LinearRing Float) :=
  return .ofPoints (← pointsAt positions)

/-- The area inside rings, the exterior first. -/
def areaInside (rings : List (List Position)) : Except ConversionError (Polygon Float) :=
  match rings with
  | [] => .error .noExterior
  | exterior :: interiors =>
    return { exterior := ← ringThrough exterior, interiors := ← interiors.mapM ringThrough }

namespace Shape

mutual

/-- The geometry of a shape. -/
def toGeometry : Shape → Except ConversionError (Geometry Float)
  | .point position => return .point (← pointAt position)
  | .multiPoint positions => return .multiPoint (← pointsAt positions)
  | .lineString positions => return .lineString (← lineThrough positions)
  | .multiLineString lines => return .multiLineString (← lines.mapM lineThrough)
  | .polygon rings => return .polygon (← areaInside rings)
  | .multiPolygon polygons => return .multiPolygon (← polygons.mapM areaInside)
  | .collection members => return .collection (← memberGeometries members)

/-- The geometries of several shapes, or the first failure. -/
def memberGeometries : List Shape → Except ConversionError (List (Geometry Float))
  | [] => .ok []
  | member :: rest => return (← toGeometry member) :: (← memberGeometries rest)

end

end Shape

/-- A number is an integer when it is written as one and fits into 64 bits with sign, and a double
otherwise. -/
def numberValue : JsonNumber → AttributeValue
  | .integer n =>
    if n ≤ Int64.maxValue.toInt then .int64 (Int64.ofInt n)
    else .double (JsonNumber.integer n).toFloat
  | .float x => .double x

/-- A property as an attribute. Lists and objects become their JSON text. -/
def propertyValue : Json → AttributeValue
  | .bool b => .bool b
  | .number n => numberValue n
  | .text s => .text s
  | .array items => .text (Json.array items).normal.compact
  | .object entries => .text (Json.object entries).normal.compact
  | .null | .meaningless => .null

/-- The text of an id. -/
def Id.display : Id → String
  | .text id => id
  | .number id => Json.numberText id

/-- The feature that is written. Without a geometry there is none; without an id it has an empty
one. -/
def Item.toFeature (item : Item) : Except ConversionError Feature :=
  match item.shape with
  | none => .error .noGeometry
  | some shape =>
    return {
      id := (item.id.map Id.display).getD ""
      attributes := .ofList (item.properties.map fun (name, value) => (name, propertyValue value))
      geometry := ← shape.toGeometry }

/-- The feature with an id: its own, or a text and its number in the collection. -/
def numbered (idStem : String) (number : Nat) (feature : Feature) : Feature :=
  if feature.id.isEmpty then { feature with id := idStem ++ "." ++ toString number } else feature

/-- The features that can be converted, in order. -/
def FeatureCollection.toFeatures (collection : FeatureCollection) (idStem : String) :
    List Feature :=
  collection.items.zipIdx.filterMap fun (item, index) =>
    item.toFeature.toOption.map (numbered idStem (index + 1))

end Cartouche.GeoJson
