import Cartouche.Markup.Geometry

/-!
# One dialect in the words of the other

Placemark documents say nothing about a geometry that tabular documents do not say. `Event.plain?`
is a translation of single events that knows neither geometries nor their encoder: it drops the tags
around members, takes the abbreviation of the namespace off a name, calls every geometry with
several parts by one name and takes the separators off coordinate lists. It turns the markup of a
geometry in the one dialect into its markup in the other (`filterMap_eventsWith`), and both dialects
refuse the same geometries (`encode_dialects`).
-/

namespace Cartouche

namespace Event

/-- The name without the abbreviation of the namespace of geometries. -/
def bareName (name : String) : String :=
  match name.toList with
  | 'g' :: 'm' :: 'l' :: ':' :: rest => String.ofList rest
  | _ => name

/-- The name of an element in placemark documents; the elements around members have none. -/
def plainName? (name : String) : Option String :=
  if bareName name ∈ ["pointMember", "lineStringMember", "polygonMember", "geometryMember"] then
    none
  else if bareName name ∈ ["MultiPoint", "MultiLineString", "MultiPolygon"] then
    some "MultiGeometry"
  else
    some (bareName name)

/-- The attributes of an element in placemark documents: coordinate lists do not tell how they are
separated. -/
def plainAttributes (name : String) (attributes : Attributes) : Attributes :=
  if bareName name = "coordinates" then
    attributes.filter fun (key, _) => key ∉ ["decimal", "cs", "ts"]
  else
    attributes

/-- The event in placemark documents, if there is such an event in them. -/
def plain? : Event → Option Event
  | .declaration => some .declaration
  | .startTag name attributes =>
    (plainName? name).map (.startTag · (plainAttributes name attributes))
  | .endTag name => (plainName? name).map .endTag
  | .emptyTag name attributes =>
    (plainName? name).map (.emptyTag · (plainAttributes name attributes))
  | .text content => some (.text content)

/-- An element that has a name is translated with its content. -/
theorem filterMap_element {name plain : String} (h : plainName? name = some plain)
    (attributes : Attributes) (content : List Event) :
    (element name attributes content).filterMap plain? =
      element plain (plainAttributes name attributes) (content.filterMap plain?) := by
  simp [element, plain?, h]

end Event

namespace GeometryEncoder

open Event (plain? plainName? plainAttributes filterMap_element)

/-- Of an element around a member, the content is left. -/
theorem filterMap_member {wrapper : String} (h : plainName? wrapper = none)
    (content : List Event) :
    (member (some wrapper) content).filterMap plain? = content.filterMap plain? := by
  simp [member, Event.element, plain?, h]

/-- A geometry with several parts keeps its parts, without what stands around them. -/
theorem filterMap_multi {α : Type} {name wrapper : String}
    (hname : plainName? name = some "MultiGeometry") (hwrapper : plainName? wrapper = none)
    (attributes : Attributes) {part plain : α → List Event}
    (hpart : ∀ a, (part a).filterMap plain? = plain a) (parts : List α) :
    (Event.element name attributes
        (parts.flatMap fun a => member (some wrapper) (part a))).filterMap plain? =
      Event.element "MultiGeometry" (plainAttributes name attributes)
        (parts.flatMap fun a => member none (plain a)) := by
  rw [filterMap_element hname]
  simp only [List.filterMap_flatMap, filterMap_member hwrapper, hpart]
  rfl

/-- The encoders write the same numbers, the first one in the words of tabular documents and the
second one in those of placemark documents. -/
structure Counterparts (tabular placemark : GeometryEncoder) : Prop where
  gml : tabular.dialect = .gml
  kml : placemark.dialect = .kml
  context : placemark.context = tabular.context

section

variable {gml kml : GeometryEncoder} (h : Counterparts gml kml)

include h

/-- Coordinate lists keep their texts and lose the separators. -/
theorem filterMap_coordinates (points : List (Point Float)) :
    (gml.coordinates points).filterMap plain? = kml.coordinates points := by
  have hname : plainName? "gml:coordinates" = some "coordinates" := by decide
  have hattributes :
      plainAttributes "gml:coordinates" gml.context.coordinateAttributes = [] := by
    rw [plainAttributes, if_pos (by decide)]
    rfl
  unfold coordinates
  simp only [h.gml, h.kml, h.context, Dialect.gml, Dialect.kml, if_true, Bool.false_eq_true,
    if_false]
  split
  · simp [plain?, hname, hattributes]
  · rw [Event.textElement, filterMap_element hname, hattributes]
    rfl

/-- A point is translated to a point. -/
theorem filterMap_point {attributes : Attributes} (p : Point Float) :
    (gml.point attributes p).filterMap plain? = kml.point attributes p := by
  have hname : plainName? "gml:Point" = some "Point" := by decide
  rw [point, point, h.gml, h.kml, Dialect.gml, Dialect.kml, filterMap_element hname,
    filterMap_coordinates h]
  rfl

/-- A line is translated to a line. -/
theorem filterMap_lineString {attributes : Attributes} (line : LineString Float) :
    (gml.lineString attributes line).filterMap plain? = kml.lineString attributes line := by
  have hname : plainName? "gml:LineString" = some "LineString" := by decide
  rw [lineString, lineString, h.gml, h.kml, Dialect.gml, Dialect.kml, filterMap_element hname,
    filterMap_coordinates h]
  rfl

/-- A ring is translated to a ring, if the name of its boundary is translated and the boundary has
no attributes. -/
theorem filterMap_ring {boundary plain : String} (hname : plainName? boundary = some plain)
    (hattributes : plainAttributes boundary [] = []) (r : LinearRing Float) :
    (gml.ring boundary r).filterMap plain? = kml.ring plain r := by
  have hring : plainName? "gml:LinearRing" = some "LinearRing" := by decide
  rw [ring, ring, h.gml, h.kml, Dialect.gml, Dialect.kml, filterMap_element hname,
    filterMap_element hring, filterMap_coordinates h, hattributes]
  rfl

/-- Exteriors stay exteriors, and holes stay holes. -/
theorem filterMap_polygon {attributes : Attributes} (area : Polygon Float) :
    (gml.polygon attributes area).filterMap plain? = kml.polygon attributes area := by
  have hname : plainName? "gml:Polygon" = some "Polygon" := by decide
  have houter : plainName? "gml:outerBoundaryIs" = some "outerBoundaryIs" := by decide
  have hinner : plainName? "gml:innerBoundaryIs" = some "innerBoundaryIs" := by decide
  have hring := fun {boundary plain} (hname : plainName? boundary = some plain) hattributes =>
    filterMap_ring h hname hattributes
  rw [polygon, polygon, h.gml, h.kml, Dialect.gml, Dialect.kml, filterMap_element hname,
    List.filterMap_append, hring houter rfl, List.filterMap_flatMap]
  simp only [hring hinner rfl]
  rfl

mutual

/-- The markup of a geometry in one dialect, translated, is its markup in the other. -/
theorem filterMap_eventsWith (attributes : Attributes) : (g : Geometry Float) →
    (gml.eventsWith attributes g).filterMap plain? = kml.eventsWith attributes g
  | .point p => by
    rw [eventsWith, eventsWith, filterMap_point h]
  | .lineString line => by
    rw [eventsWith, eventsWith, filterMap_lineString h]
  | .polygon area => by
    rw [eventsWith, eventsWith, filterMap_polygon h]
  | .multiPoint parts => by
    rw [eventsWith, eventsWith, h.gml, h.kml]
    exact filterMap_multi (by decide) (by decide) attributes (filterMap_point h) parts
  | .multiLineString parts => by
    rw [eventsWith, eventsWith, h.gml, h.kml]
    exact filterMap_multi (by decide) (by decide) attributes (filterMap_lineString h) parts
  | .multiPolygon parts => by
    rw [eventsWith, eventsWith, h.gml, h.kml]
    exact filterMap_multi (by decide) (by decide) attributes (filterMap_polygon h) parts
  | .collection members => by
    have hname : plainName? "gml:MultiGeometry" = some "MultiGeometry" := by decide
    rw [eventsWith, eventsWith, h.gml, h.kml, Dialect.gml, Dialect.kml, filterMap_element hname,
      filterMap_memberEvents members]
    rfl

/-- The members of a collection are translated without what stands around them. -/
theorem filterMap_memberEvents : (members : List (Geometry Float)) →
    (gml.memberEvents members).filterMap plain? = kml.memberEvents members
  | [] => by
    rw [memberEvents, memberEvents]
    rfl
  | g :: rest => by
    have hwrapper : plainName? "gml:geometryMember" = none := by decide
    rw [memberEvents, memberEvents, List.filterMap_append, h.gml, h.kml, Dialect.gml, Dialect.kml,
      filterMap_member hwrapper, filterMap_eventsWith [] g, filterMap_memberEvents rest]
    rfl

end

end

/-- In both dialects a geometry with finite coordinates is written and widens the envelope to the
same one, and the events of the one dialect are those of the other, translated one by one. Any other
geometry is refused with the same error. -/
theorem encode_dialects (context : RenderContext) (srsName : Option String) (g : Geometry Float)
    (writer other : Writer) (envelope : Envelope Float) :
    let gml : GeometryEncoder := { context, dialect := .gml, srsName }
    let kml : GeometryEncoder := { context, dialect := .kml, srsName }
    kml.events g = (gml.events g).filterMap plain? ∧
      if g.isFinite then
        ∃ widened,
          gml.encode g writer envelope = .ok (writer.writeAll (gml.events g), widened) ∧
          kml.encode g other envelope = .ok (other.writeAll (kml.events g), widened)
      else
        ∃ error,
          gml.encode g writer envelope = .error error ∧
          kml.encode g other envelope = .error error := by
  intro gml kml
  have h : Counterparts gml kml := ⟨rfl, rfl, rfl⟩
  refine ⟨(filterMap_eventsWith h _ g).symm, ?_⟩
  split
  · next hfin =>
    refine ⟨envelope.expand g, ?_, ?_⟩
    · simp only [encode, validate, hfin]
      rfl
    · simp only [encode, validate, hfin]
      rfl
  · next hfin =>
    refine ⟨.nonFiniteCoordinate, ?_, ?_⟩
    · simp only [encode, validate, hfin]
      rfl
    · simp only [encode, validate, hfin]
      rfl

end GeometryEncoder

end Cartouche
