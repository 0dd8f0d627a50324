import Cartouche.Plane.Point

/-!
# Segments

A segment joins two points. `Segment.distanceSq` is its squared distance from a point, found by
projecting the point on the line through the segment; `segments` are the consecutive pairs of a list
of points.
-/

namespace Cartouche

/-- The straight way between two points. -/
structure Segment (α : Type u) where
  start : Point α
  stop : Point α
deriving Repr

/-- The segments between consecutive points. -/
def segments {α : Type u} : List (Point α) → List (Segment α)
  | [] => []
  | [_] => []
  | p :: q :: rest => ⟨p, q⟩ :: segments (q :: rest)

namespace Segment

variable {α : Type u} [Scalar α]

/-- The point at a fraction of the way. -/
def pointAt (s : Segment α) (fraction : α) : Point α := s.start.lerp s.stop fraction

/-- The point half way. -/
def midpoint (s : Segment α) : Point α := s.pointAt (Scalar.ofNat 1 / Scalar.ofNat 2)

/-- The cross product of the position vectors of the ends: twice the signed area of the triangle
that the segment spans with the origin. -/
def cross (s : Segment α) : α := s.start.x * s.stop.y - s.stop.x * s.start.y

/-- The square of the distance from a point to the nearest point of the segment. The projection
falls before the start, beyond the stop, or between them; a segment without extent is its start. -/
def distanceSq (s : Segment α) (p : Point α) : α :=
  if s.start.samePlace s.stop then
    s.start.distanceSq p
  else
    let along := s.stop.sub s.start
    let toPoint := p.sub s.start
    let lengthSq := along.lengthSq
    let projection := (toPoint.dx * along.dx + toPoint.dy * along.dy) / lengthSq
    if projection ≤ Scalar.zero then
      s.start.distanceSq p
    else if Scalar.ofNat 1 ≤ projection then
      s.stop.distanceSq p
    else
      let height := (toPoint.dy * along.dx - toPoint.dx * along.dy) / lengthSq
      height * height * lengthSq

/-- One of the coordinates that `distanceSq` reads is not a number. -/
def involvesUndefined (s : Segment α) (p : Point α) : Bool :=
  [s.start.x, s.start.y, s.stop.x, s.stop.y, p.x, p.y].any Scalar.isUndefined

/-- The length in the plane. -/
def length (s : Segment Float) : Float := s.start.distance s.stop

end Segment

end Cartouche
