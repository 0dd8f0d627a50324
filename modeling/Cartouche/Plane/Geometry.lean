import Cartouche.Plane.Line

/-!
# Geometries

The seven kinds of geometry. `Geometry.points` lists every point a geometry visits, in order; most
of what is said about geometries as a whole is said through this list.
-/

namespace Cartouche

/-- An area with holes. -/
structure Polygon (α : Type u) where
  exterior : LinearRing α := {}
  interiors : List (LinearRing α) := []
deriving BEq, Repr

namespace Polygon

variable {α : Type u} [Scalar α]

/-- The exterior ring, then the holes. -/
def rings (polygon : Polygon α) : List (LinearRing α) := polygon.exterior :: polygon.interiors

/-- The area of the exterior less the areas of the holes. -/
def area (polygon : Polygon α) : α :=
  Scalar.abs polygon.exterior.signedArea -
    Scalar.sum (polygon.interiors.map fun ring => Scalar.abs ring.signedArea)

/-- The points of all rings. -/
def points {α : Type u} (polygon : Polygon α) : List (Point α) :=
  polygon.exterior.points ++ polygon.interiors.flatMap LinearRing.points

/-- The same area with its rings through other points. -/
def map {α : Type u} {β : Type v} (f : Point α → Point β) (polygon : Polygon α) : Polygon β where
  exterior := { points := polygon.exterior.points.map f }
  interiors := polygon.interiors.map fun ring => { points := ring.points.map f }

end Polygon

/-- A shape in the plane, or several. -/
inductive Geometry (α : Type u) where
  | point (point : Point α)
  | lineString (line : LineString α)
  | polygon (area : Polygon α)
  | multiPoint (parts : List (Point α))
  | multiLineString (parts : List (LineString α))
  | multiPolygon (parts : List (Polygon α))
  | collection (members : List (Geometry α))
deriving BEq

/-- The name of a kind of geometry. -/
inductive GeometryKind where
  | point
  | lineString
  | polygon
  | multiPoint
  | multiLineString
  | multiPolygon
  | collection
deriving DecidableEq, Repr

namespace GeometryKind

/-- Every kind. -/
def all : List GeometryKind :=
  [.point, .lineString, .polygon, .multiPoint, .multiLineString, .multiPolygon, .collection]

/-- The name as it is written. -/
def name : GeometryKind → String
  | .point => "Point"
  | .lineString => "LineString"
  | .polygon => "Polygon"
  | .multiPoint => "MultiPoint"
  | .multiLineString => "MultiLineString"
  | .multiPolygon => "MultiPolygon"
  | .collection => "GeometryCollection"

/-- The kind with a name. -/
def ofName? (name : String) : Option GeometryKind := all.find? (·.name == name)

end GeometryKind

namespace Geometry

variable {α : Type u}

/-- The kind of the geometry. -/
def kind : Geometry α → GeometryKind
  | .point _ => .point
  | .lineString _ => .lineString
  | .polygon _ => .polygon
  | .multiPoint _ => .multiPoint
  | .multiLineString _ => .multiLineString
  | .multiPolygon _ => .multiPolygon
  | .collection _ => .collection

mutual

/-- Every point the geometry visits, in order. -/
def points : Geometry α → List (Point α)
  | .point p => [p]
  | .lineString line => line.points
  | .polygon area => area.points
  | .multiPoint parts => parts
  | .multiLineString parts => parts.flatMap LineString.points
  | .multiPolygon parts => parts.flatMap Polygon.points
  | .collection members => memberPoints members

/-- The points of several geometries, one after the other. -/
def memberPoints : List (Geometry α) → List (Point α)
  | [] => []
  | member :: rest => points member ++ memberPoints rest

end

/-- The points of members are those of the first one, then those of the second one, and so on. -/
theorem memberPoints_eq_flatMap (members : List (Geometry α)) :
    memberPoints members = members.flatMap points := by
  induction members with
  | nil => simp [memberPoints]
  | cons member rest ih => simp [memberPoints, ih]

/-- A point is the only one of its points. By this and the next lemmas `simp` opens geometries
without unfolding the recursion through their members. -/
@[simp] theorem points_point (p : Point α) : (point p).points = [p] := by simp [points]

/-- The points of a line are those of its path. -/
@[simp] theorem points_lineString (line : LineString α) :
    (lineString line).points = line.points := by simp [points]

/-- The points of an area are those of its exterior and then those of its interiors. -/
@[simp] theorem points_polygon (area : Polygon α) : (polygon area).points = area.points := by
  simp [points]

/-- Several points are visited in order. -/
@[simp] theorem points_multiPoint (parts : List (Point α)) : (multiPoint parts).points = parts := by
  simp [points]

/-- Several lines are visited one after the other. -/
@[simp] theorem points_multiLineString (parts : List (LineString α)) :
    (multiLineString parts).points = parts.flatMap LineString.points := by simp [points]

/-- Several areas are visited one after the other. -/
@[simp] theorem points_multiPolygon (parts : List (Polygon α)) :
    (multiPolygon parts).points = parts.flatMap Polygon.points := by simp [points]

/-- The members of a collection are visited one after the other. This is the list form of the
recursion through them. -/
@[simp] theorem points_collection (members : List (Geometry α)) :
    (collection members).points = members.flatMap points := by
  simp [points, memberPoints_eq_flatMap]

mutual

/-- The same geometry at other points. -/
def map {β : Type v} (f : Point α → Point β) : Geometry α → Geometry β
  | .point p => .point (f p)
  | .lineString line => .lineString { points := line.points.map f }
  | .polygon area => .polygon (area.map f)
  | .multiPoint parts => .multiPoint (parts.map f)
  | .multiLineString parts =>
    .multiLineString (parts.map fun line => { points := line.points.map f })
  | .multiPolygon parts => .multiPolygon (parts.map (Polygon.map f))
  | .collection members => .collection (mapMembers f members)

/-- `map` on every member. -/
def mapMembers {β : Type v} (f : Point α → Point β) : List (Geometry α) → List (Geometry β)
  | [] => []
  | member :: rest => map f member :: mapMembers f rest

end

/-- The geometry visits no point. -/
def isEmpty (g : Geometry α) : Bool := g.points.isEmpty

/-- The geometry consists of points. -/
def isPuntal : Geometry α → Bool
  | .point _ | .multiPoint _ => true
  | _ => false

/-- Every coordinate of the geometry is finite, elevations included. -/
def isFinite [Scalar α] (g : Geometry α) : Bool := g.points.all Point.isFinite

/-- A geometry is finite when all of its points are. -/
theorem isFinite_iff [Scalar α] {g : Geometry α} :
    g.isFinite ↔ ∀ p ∈ g.points, p.isFinite := by
  simp [isFinite, List.all_eq_true]

/-- A geometry is empty when it has no points. -/
theorem isEmpty_iff {g : Geometry α} : g.isEmpty ↔ g.points = [] := by
  simp [isEmpty]

end Geometry

end Cartouche
