import Cartouche.Feature.Value
import Cartouche.Plane.Form

/-!
# Features

A feature is what is rendered: an id, named attributes and a geometry. A `FeatureType` gives the
names of the elements that features become in tabular documents.
-/

namespace Cartouche

/-- A record with a place. Its attributes are listed in the order of their names. -/
structure Feature where
  id : String
  attributes : Dict AttributeValue := .empty
  geometry : Geometry Float

namespace Feature

/-- The value of an attribute. -/
def attribute? (feature : Feature) (name : String) : Option AttributeValue :=
  feature.attributes.get? name

/-- A feature needs an id and a geometry; attributes may be left out. -/
instance : JsonForm Feature where
  toJson feature := .object [
    ("id", JsonForm.toJson feature.id),
    ("attributes", JsonForm.toJson feature.attributes),
    ("geometry", JsonForm.toJson feature.geometry)]
  ofJson? origin json := do
    let fields ← Json.Fields.of? origin ["id", "attributes", "geometry"] json
    return {
      id := ← fields.required "id"
      attributes := ← fields.withDefault "attributes" .empty
      geometry := ← fields.required "geometry" }

end Feature

/-- The element names of the features of a tabular document. -/
structure FeatureType where
  /-- The namespace abbreviation in front of all names. -/
  abbreviation : String := "feature"
  namespaceUri : String := "http://www.opengis.net/feature"
  typeName : String := "feature"
  /-- The name of the property that holds the geometry. -/
  geometryName : String := "the_geom"
  /-- The spatial reference system of the coordinates. -/
  srsName : Option String := none
deriving DecidableEq, Repr

namespace FeatureType

/-- A name with the namespace abbreviation in front. -/
def qualified (type : FeatureType) (name : String) : String := type.abbreviation ++ ":" ++ name

/-- The fields in the order of the JSON form. -/
def fieldNames : List String :=
  ["prefix", "namespace_uri", "type_name", "geometry_name", "srs_name"]

/-- Every name may be left out, and then is the one of the default type. -/
instance : JsonForm FeatureType where
  toJson type := .object [
    ("prefix", JsonForm.toJson type.abbreviation),
    ("namespace_uri", JsonForm.toJson type.namespaceUri),
    ("type_name", JsonForm.toJson type.typeName),
    ("geometry_name", JsonForm.toJson type.geometryName),
    ("srs_name", JsonForm.toJson type.srsName)]
  ofJson? origin json := do
    let fields ← Json.Fields.of? origin fieldNames json
    let default : FeatureType := {}
    return {
      abbreviation := ← fields.withDefault "prefix" default.abbreviation
      namespaceUri := ← fields.withDefault "namespace_uri" default.namespaceUri
      typeName := ← fields.withDefault "type_name" default.typeName
      geometryName := ← fields.withDefault "geometry_name" default.geometryName
      srsName := ← fields.withDefault "srs_name" default.srsName }

end FeatureType

end Cartouche
