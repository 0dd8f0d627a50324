import Cartouche.Plane.Segment

/-!
# Lines and rings

A line string is a path through its points, a linear ring a path that ends where it starts.
`LineString.ofPoints` refuses fewer than two points and `LinearRing.ofPoints` closes an open path;
the structures themselves may hold any points, also none.
-/

namespace Cartouche

/-- Why a geometry cannot be built from what it was given. -/
inductive ConversionError where
  | shortLine (points : Nat)
  | shortPosition (coordinates : Nat)
  | noExterior
  | noGeometry
deriving DecidableEq, Repr

/-- What is said about the failure. -/
def ConversionError.message (error : ConversionError) : String :=
  "invalid input geometry: " ++
    match error with
    | .shortLine points => "line string requires at least 2 points, got " ++ toString points
    | .shortPosition coordinates =>
      "position must have at least 2 coordinates, got " ++ toString coordinates
    | .noExterior => "polygon must have an exterior ring"
    | .noGeometry => "feature has no geometry"

/-- The path ends where it starts. -/
def isClosedPath {α : Type u} [Scalar α] (points : List (Point α)) : Bool :=
  match points.head?, points.getLast? with
  | some first, some last => first.samePlace last
  | _, _ => false

/-- A path through points. -/
structure LineString (α : Type u) where
  points : List (Point α) := []
deriving BEq, Repr

namespace LineString

variable {α : Type u} [Scalar α]

/-- The line through at least two points. -/
def ofPoints (points : List (Point α)) : Except ConversionError (LineString α) :=
  if points.length < 2 then .error (.shortLine points.length) else .ok { points }

/-- The path ends where it starts. -/
def isClosed (line : LineString α) : Bool := isClosedPath line.points

/-- `a` stands before `b` among squared distances. A distance that is not a number stands before all
others, unless it stems from a coordinate that is not a number: then it stands behind them. -/
def nearer (a b : α × Bool) : Bool :=
  match Scalar.isUndefined a.1, Scalar.isUndefined b.1 with
  | false, false => a.1 < b.1
  | true, true => !a.2 && b.2
  | true, false => !a.2
  | false, true => b.2

/-- The first of the least elements. -/
def nearest? : List (α × Bool) → Option (α × Bool)
  | [] => none
  | a :: rest => some (rest.foldl (fun best b => if nearer b best then b else best) a)

/-- The square of the distance from a point to the nearest point of the path; `none` for a line
without points. -/
def distanceSq? (line : LineString α) (p : Point α) : Option α :=
  match line.points with
  | [single] => some (Segment.distanceSq ⟨single, single⟩ p)
  | points =>
    (nearest? ((segments points).map fun s => (s.distanceSq p, s.involvesUndefined p))).map (·.1)

/-- The length of the path. -/
def length (line : LineString Float) : Float :=
  Scalar.sum ((segments line.points).map Segment.length)

end LineString

/-- A path that is meant to end where it starts. -/
structure LinearRing (α : Type u) where
  points : List (Point α) := []
deriving BEq, Repr

namespace LinearRing

variable {α : Type u} [Scalar α]

/-- The ring through points; the first one is repeated at the end unless the path is closed. -/
def ofPoints (points : List (Point α)) : LinearRing α :=
  match points with
  | [] => {}
  | first :: _ => if isClosedPath points then { points } else { points := points ++ [first] }

/-- The path ends where it starts. -/
def isClosed (ring : LinearRing α) : Bool := isClosedPath ring.points

/-- The enclosed area, positive when the ring runs counter-clockwise. -/
def signedArea (ring : LinearRing α) : α :=
  Scalar.sum ((segments ring.points).map Segment.cross) / Scalar.ofNat 2

/-- The path of the ring. -/
def toLineString (ring : LinearRing α) : LineString α := { points := ring.points }

end LinearRing

end Cartouche
