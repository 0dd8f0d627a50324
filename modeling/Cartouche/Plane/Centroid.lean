import Cartouche.Plane.Geometry

/-!
# Representative points

`Geometry.centroid?` picks the point that stands for a geometry: where its label is anchored. For a
path it is the point half way along it, so it lies on the path; for areas it is the center of
gravity, for points the mean. The algorithms take the length of a segment as a parameter, since that
alone needs a square root.
-/

namespace Cartouche

variable {α : Type u} [Scalar α]

/-- Two ways along a path that differ by no more than this count as equally long. -/
def centroidTolerance : α := Scalar.ofNat 1 / Scalar.ofNat 1000000

/-- A net area up to this size counts as none. -/
def areaTolerance : α := Scalar.ofNat 1 / Scalar.ofNat (Nat.pow 2 52)

/-- Follows segments until half of the length is reached: the end of the segment on which it is
reached up to the tolerance, or else a point inside it. -/
def walkTo? (length : Segment α → α) (half walked : α) : List (Segment α) → Option (Point α)
  | [] => none
  | s :: rest =>
    let reached := walked + length s
    if Scalar.abs (reached - half) ≤ centroidTolerance then some s.stop
    else if half < reached then some (s.pointAt ((half - walked) / length s))
    else walkTo? length half reached rest

/-- The point half way along a path; its first point when the path has no length. -/
def lineCentroid? (length : Segment α → α) (points : List (Point α)) : Option (Point α) :=
  match points with
  | [] => none
  | first :: _ =>
    let total := Scalar.sum ((segments points).map length)
    if total ≤ Scalar.zero then
      some first
    else
      (walkTo? length (total / Scalar.ofNat 2) Scalar.zero (segments points)).or points.getLast?

/-- The mean of points. -/
def pointsCentroid? (points : List (Point α)) : Option (Point α) :=
  if points.isEmpty then
    none
  else
    let sum := points.foldl (fun (sum : Offset α) p => sum + p.toOffset) .zero
    let mean := sum.divide (Scalar.ofNat points.length)
    some { x := mean.dx, y := mean.dy }

/-- The mean of the midpoints of all segments of several paths, weighted by their lengths; the first
point when the paths have no length. -/
def linesCentroid? (length : Segment α → α) (paths : List (List (Point α))) : Option (Point α) :=
  let step (sum : Offset α × α) (s : Segment α) : Offset α × α :=
    (sum.1 + s.midpoint.toOffset.scale (length s), sum.2 + length s)
  let (weighted, total) := (paths.flatMap segments).foldl step (.zero, Scalar.zero)
  if Scalar.zero < total then
    let center := weighted.divide total
    some { x := center.dx, y := center.dy }
  else
    paths.findSome? List.head?

/-- The area of a ring and its first moment about an origin, both for a ring that runs
counter-clockwise. -/
def ringMoment (origin : Point α) (ring : LinearRing α) : α × Offset α :=
  let step (sum : α × Offset α) (s : Segment α) : α × Offset α :=
    let a := s.start.sub origin
    let b := s.stop.sub origin
    let cross := a.dx * b.dy - b.dx * a.dy
    (sum.1 + cross, sum.2 + (a + b).scale cross)
  let (doubleArea, moment) := (segments ring.points).foldl step (Scalar.zero, .zero)
  let area := doubleArea / Scalar.ofNat 2
  let moment := moment.divide (Scalar.ofNat 6)
  if area < Scalar.zero then (-area, -moment) else (area, moment)

/-- Adds the area and the moment of a polygon: those of its exterior, less those of its holes. -/
def addMoments (origin : Point α) (sum : α × Offset α) (polygon : Polygon α) : α × Offset α :=
  let (area, moment) := ringMoment origin polygon.exterior
  polygon.interiors.foldl
    (fun sum ring =>
      let (area, moment) := ringMoment origin ring
      (sum.1 - area, sum.2 - moment))
    (sum.1 + area, sum.2 + moment)

/-- The area of polygons and their first moment about an origin. -/
def netMoment (origin : Point α) (polygons : List (Polygon α)) : α × Offset α :=
  polygons.foldl (addMoments origin) (Scalar.zero, .zero)

/-- The center of gravity of polygons. Without area it is that of the exterior rings as paths.
Moments are taken about the first point of an exterior, which keeps them small. -/
def areaCentroid? (length : Segment α → α) (polygons : List (Polygon α)) : Option (Point α) :=
  match polygons.findSome? fun polygon => polygon.exterior.points.head? with
  | none => none
  | some origin =>
    let (area, moment) := netMoment origin polygons
    if Scalar.abs area ≤ areaTolerance then
      linesCentroid? length (polygons.map fun polygon => polygon.exterior.points)
    else
      some (origin.move (moment.divide area))

namespace Geometry

mutual

/-- The point that stands for a geometry, for a given length of segments. -/
def centroidBy? (length : Segment α → α) : Geometry α → Option (Point α)
  | .point p => some p
  | .lineString line => lineCentroid? length line.points
  | .polygon area => areaCentroid? length [area]
  | .multiPolygon parts => areaCentroid? length parts
  | .multiPoint parts => pointsCentroid? parts
  | .multiLineString parts => linesCentroid? length (parts.map LineString.points)
  | .collection members => firstCentroidBy? length members

/-- The first point that stands for one of several geometries. -/
def firstCentroidBy? (length : Segment α → α) : List (Geometry α) → Option (Point α)
  | [] => none
  | member :: rest => (centroidBy? length member).or (firstCentroidBy? length rest)

end

/-- The point that stands for a geometry; an empty one has none. -/
def centroid? (g : Geometry Float) : Option (Point Float) := g.centroidBy? Segment.length

end Geometry

end Cartouche
