import Cartouche.Plane.Geometry

/-!
# Figures

A `Figure` is a shape as it is drawn: besides the kinds of geometry it may be a single line, a
rectangle given by two corners or a triangle given by three. `Figure.toGeometry` brings it into one
of the seven kinds. Its rings are closed while the figure is outlined and once more when they become
rings of a geometry; the second time changes nothing unless the first point is not a number.
-/

namespace Cartouche

/-- A shape as it is drawn. -/
inductive Figure (α : Type u) where
  | point (point : Point α)
  | line (start stop : Point α)
  | lineString (points : List (Point α))
  | polygon (rings : List (List (Point α)))
  | multiPoint (points : List (Point α))
  | multiLineString (lines : List (List (Point α)))
  | multiPolygon (polygons : List (List (List (Point α))))
  | collection (members : List (Figure α))
  | rect (corner opposite : Point α)
  | triangle (a b c : Point α)

namespace Figure

variable {α : Type u} [Scalar α]

/-- The corners of a rectangle, from the lower right one counter-clockwise and back to it. -/
def rectOutline (p q : Point α) : List (Point α) :=
  let (xMin, xMax) := if p.x < q.x then (p.x, q.x) else (q.x, p.x)
  let (yMin, yMax) := if p.y < q.y then (p.y, q.y) else (q.y, p.y)
  [⟨xMax, yMin, none⟩, ⟨xMax, yMax, none⟩, ⟨xMin, yMax, none⟩, ⟨xMin, yMin, none⟩,
    ⟨xMax, yMin, none⟩]

/-- The corners of a triangle and the first one again, backwards if they run clockwise. -/
def triangleOutline (a b c : Point α) : List (Point α) :=
  let turn := (b.x - a.x) * (c.y - a.y) - (b.y - a.y) * (c.x - a.x)
  if turn < Scalar.zero then [c, b, a, c] else [a, b, c, a]

/-- A polygon from the outlines of its rings, the exterior first. -/
def polygonOf (rings : List (List (Point α))) : Polygon α :=
  let ring (outline : List (Point α)) : LinearRing α :=
    .ofPoints (LinearRing.ofPoints outline).points
  match rings with
  | [] => {}
  | exterior :: interiors => { exterior := ring exterior, interiors := interiors.map ring }

mutual

/-- The geometry of a figure; a line string needs at least two points. -/
def toGeometry : Figure α → Except ConversionError (Geometry α)
  | .point p => .ok (.point p)
  | .line start stop => return .lineString (← LineString.ofPoints [start, stop])
  | .lineString points => return .lineString (← LineString.ofPoints points)
  | .polygon rings => .ok (.polygon (polygonOf rings))
  | .multiPoint points => .ok (.multiPoint points)
  | .multiLineString lines => return .multiLineString (← lines.mapM LineString.ofPoints)
  | .multiPolygon polygons => .ok (.multiPolygon (polygons.map polygonOf))
  | .collection members => return .collection (← memberGeometries members)
  | .rect p q => .ok (.polygon (polygonOf [rectOutline p q]))
  | .triangle a b c => .ok (.polygon (polygonOf [triangleOutline a b c]))

/-- The geometries of several figures, or the first failure. -/
def memberGeometries : List (Figure α) → Except ConversionError (List (Geometry α))
  | [] => .ok []
  | member :: rest => return (← toGeometry member) :: (← memberGeometries rest)

end

end Figure

end Cartouche
