import Cartouche.Context
import Cartouche.Diagnostic
import Cartouche.Markup.Writer
import Cartouche.Plane.Rect

/-!
# Geometries as markup

Both dialects write a geometry in the same way and differ in their words only: a `Dialect` holds the
names of the elements. `GeometryEncoder.events` is the markup of a geometry as events, and
`GeometryEncoder.encode` writes it after checking that all coordinates are finite, so that a
geometry that cannot be written leaves no trace.
-/

namespace Cartouche

/-- The words of a dialect. -/
structure Dialect where
  point : String
  lineString : String
  polygon : String
  linearRing : String
  outerBoundary : String
  innerBoundary : String
  coordinates : String
  multiPoint : String
  multiLineString : String
  multiPolygon : String
  collection : String
  /-- The elements around the members of geometries with several parts, if there are any. -/
  pointMember : Option String := none
  lineStringMember : Option String := none
  polygonMember : Option String := none
  geometryMember : Option String := none
  /-- Coordinate lists tell how they are separated. -/
  coordinateAttributes : Bool
deriving DecidableEq, Repr

namespace Dialect

/-- The words of tabular documents. -/
def gml : Dialect where
  point := "gml:Point"
  lineString := "gml:LineString"
  polygon := "gml:Polygon"
  linearRing := "gml:LinearRing"
  outerBoundary := "gml:outerBoundaryIs"
  innerBoundary := "gml:innerBoundaryIs"
  coordinates := "gml:coordinates"
  multiPoint := "gml:MultiPoint"
  multiLineString := "gml:MultiLineString"
  multiPolygon := "gml:MultiPolygon"
  collection := "gml:MultiGeometry"
  pointMember := some "gml:pointMember"
  lineStringMember := some "gml:lineStringMember"
  polygonMember := some "gml:polygonMember"
  geometryMember := some "gml:geometryMember"
  coordinateAttributes := true

/-- The words of placemark documents. -/
def kml : Dialect where
  point := "Point"
  lineString := "LineString"
  polygon := "Polygon"
  linearRing := "LinearRing"
  outerBoundary := "outerBoundaryIs"
  innerBoundary := "innerBoundaryIs"
  coordinates := "coordinates"
  multiPoint := "MultiGeometry"
  multiLineString := "MultiGeometry"
  multiPolygon := "MultiGeometry"
  collection := "MultiGeometry"
  coordinateAttributes := false

end Dialect

namespace RenderContext

/-- The coordinates of a point, separated. -/
def formatPoint (context : RenderContext) (p : Point Float) : String :=
  let xy := context.formatNumber p.x ++ context.coordinateSeparator ++ context.formatNumber p.y
  match p.z with
  | some z => xy ++ context.coordinateSeparator ++ context.formatNumber z
  | none => xy

/-- Points, separated. -/
def formatCoordinates (context : RenderContext) (points : List (Point Float)) : String :=
  context.tupleSeparator.intercalate (points.map context.formatPoint)

/-- The attributes that tell how coordinates are separated. -/
def coordinateAttributes (context : RenderContext) : Attributes :=
  [("decimal", String.singleton context.decimal), ("cs", context.coordinateSeparator),
    ("ts", context.tupleSeparator)]

end RenderContext

/-- How geometries are written. -/
structure GeometryEncoder where
  context : RenderContext
  dialect : Dialect
  /-- The spatial reference system that outermost elements name. -/
  srsName : Option String := none

/-- The attribute that names a spatial reference system. -/
def srsAttributes (srsName : Option String) : Attributes := srsName.toList.map ("srsName", ·)

namespace GeometryEncoder

variable (encoder : GeometryEncoder)

/-- A coordinate list; one without points is an empty element. -/
def coordinates (points : List (Point Float)) : List Event :=
  let attributes :=
    if encoder.dialect.coordinateAttributes then encoder.context.coordinateAttributes else []
  if points.isEmpty then
    [.emptyTag encoder.dialect.coordinates attributes]
  else
    Event.textElement encoder.dialect.coordinates attributes
      (encoder.context.formatCoordinates points)

/-- A point. -/
def point (attributes : Attributes) (p : Point Float) : List Event :=
  Event.element encoder.dialect.point attributes (encoder.coordinates [p])

/-- A line. -/
def lineString (attributes : Attributes) (line : LineString Float) : List Event :=
  Event.element encoder.dialect.lineString attributes (encoder.coordinates line.points)

/-- A ring as the boundary of an area. -/
def ring (boundary : String) (ring : LinearRing Float) : List Event :=
  Event.element boundary []
    (Event.element encoder.dialect.linearRing [] (encoder.coordinates ring.points))

/-- An area, from its exterior to its last hole. -/
def polygon (attributes : Attributes) (area : Polygon Float) : List Event :=
  Event.element encoder.dialect.polygon attributes
    (encoder.ring encoder.dialect.outerBoundary area.exterior ++
      area.interiors.flatMap (encoder.ring encoder.dialect.innerBoundary))

/-- A member in the element that is wrapped around it, if the dialect has one. -/
def member (wrapper : Option String) (content : List Event) : List Event :=
  match wrapper with
  | some name => Event.element name [] content
  | none => content

mutual

/-- The markup of a geometry. The members of a collection carry no attributes of their own. -/
def eventsWith (attributes : Attributes) : Geometry Float → List Event
  | .point p => encoder.point attributes p
  | .lineString line => encoder.lineString attributes line
  | .polygon area => encoder.polygon attributes area
  | .multiPoint parts =>
    Event.element encoder.dialect.multiPoint attributes
      (parts.flatMap fun p => member encoder.dialect.pointMember (encoder.point [] p))
  | .multiLineString parts =>
    Event.element encoder.dialect.multiLineString attributes
      (parts.flatMap fun line =>
        member encoder.dialect.lineStringMember (encoder.lineString [] line))
  | .multiPolygon parts =>
    Event.element encoder.dialect.multiPolygon attributes
      (parts.flatMap fun area => member encoder.dialect.polygonMember (encoder.polygon [] area))
  | .collection members =>
    Event.element encoder.dialect.collection attributes (memberEvents members)

/-- The markup of the members of a collection. -/
def memberEvents : List (Geometry Float) → List Event
  | [] => []
  | g :: rest => member encoder.dialect.geometryMember (eventsWith [] g) ++ memberEvents rest

end

/-- The markup of a geometry. -/
def events (g : Geometry Float) : List Event := encoder.eventsWith (srsAttributes encoder.srsName) g

/-- Fails when a coordinate is not finite. -/
def validate (g : Geometry Float) : Except EncodeError Unit :=
  if g.isFinite then .ok () else .error .nonFiniteCoordinate

/-- Writes a geometry and widens an envelope to it. -/
def encode (g : Geometry Float) (writer : Writer) (envelope : Envelope Float) :
    Except EncodeError (Writer × Envelope Float) := do
  validate g
  return (writer.writeAll (encoder.events g), envelope.expand g)

/-- A geometry by itself. -/
def encodeToString (g : Geometry Float) : Except EncodeError String := do
  let (writer, _) ← encoder.encode g (.new encoder.context.verbose) .empty
  writer.finish.mapError .write

end GeometryEncoder

end Cartouche
