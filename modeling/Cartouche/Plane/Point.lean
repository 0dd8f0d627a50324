import Cartouche.Plane.Scalar

/-!
# Points

A point has two coordinates in the plane and perhaps an elevation. Everything metric looks at the
plane only: equality of position, differences and distances.
-/

namespace Cartouche

/-- A position in the plane, with an elevation if one is known. -/
structure Point (α : Type u) where
  x : α
  y : α
  z : Option α := none
deriving BEq, Repr

/-- A vector of the plane. -/
structure Offset (α : Type u) where
  dx : α
  dy : α
deriving Repr

namespace Offset

variable {α : Type u} [Scalar α]

/-- The vector of length zero. -/
def zero : Offset α := ⟨Scalar.zero, Scalar.zero⟩

instance : Add (Offset α) := ⟨fun u v => ⟨u.dx + v.dx, u.dy + v.dy⟩⟩
instance : Sub (Offset α) := ⟨fun u v => ⟨u.dx - v.dx, u.dy - v.dy⟩⟩
instance : Neg (Offset α) := ⟨fun u => ⟨-u.dx, -u.dy⟩⟩

/-- The vector stretched by a factor. -/
def scale (u : Offset α) (factor : α) : Offset α := ⟨u.dx * factor, u.dy * factor⟩

/-- The vector shrunk by a divisor. -/
def divide (u : Offset α) (divisor : α) : Offset α := ⟨u.dx / divisor, u.dy / divisor⟩

/-- The square of the length. -/
def lengthSq (u : Offset α) : α := u.dx * u.dx + u.dy * u.dy

end Offset

namespace Point

variable {α : Type u} [Scalar α]

/-- Every coordinate is finite, the elevation included. -/
def isFinite (p : Point α) : Bool :=
  Scalar.isFinite p.x && Scalar.isFinite p.y && p.z.all Scalar.isFinite

/-- The same position in the plane; elevations are not compared. -/
def samePlace (p q : Point α) : Bool := p.x == q.x && p.y == q.y

/-- The way from `q` to `p`. -/
def sub (p q : Point α) : Offset α := ⟨p.x - q.x, p.y - q.y⟩

/-- The point reached from `p` by a vector, without elevation. -/
def move (p : Point α) (u : Offset α) : Point α := { x := p.x + u.dx, y := p.y + u.dy }

/-- The position vector. -/
def toOffset (p : Point α) : Offset α := ⟨p.x, p.y⟩

/-- The square of the distance in the plane. -/
def distanceSq (p q : Point α) : α := (p.sub q).lengthSq

/-- The point at a fraction of the way from `p` to `q`. It has an elevation when both have one. -/
def lerp (p q : Point α) (fraction : α) : Point α where
  x := p.x + (q.x - p.x) * fraction
  y := p.y + (q.y - p.y) * fraction
  z :=
    match p.z, q.z with
    | some z₀, some z₁ => some (z₀ + (z₁ - z₀) * fraction)
    | _, _ => none

/-- The distance in the plane. -/
def distance (p q : Point Float) : Float := (p.distanceSq q).sqrt

end Point

end Cartouche
