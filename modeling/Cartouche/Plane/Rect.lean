import Cartouche.Plane.Geometry

/-!
# Rectangles and envelopes

A `Rect` is given by its bounds. An `Envelope` is the bounding box of everything it was shown so
far, empty at first; it only ever widens.
-/

namespace Cartouche

/-- A rectangle along the axes. -/
structure Rect (α : Type u) where
  xMin : α
  yMin : α
  xMax : α
  yMax : α
deriving BEq, Repr

namespace Rect

variable {α : Type u} [Scalar α]

/-- The extent along the x axis. -/
def width (r : Rect α) : α := r.xMax - r.xMin

/-- The extent along the y axis. -/
def height (r : Rect α) : α := r.yMax - r.yMin

/-- The rectangle that consists of one point. -/
def ofPoint (p : Point α) : Rect α := ⟨p.x, p.y, p.x, p.y⟩

/-- The least rectangle around two. Where neither bound is strictly better, the second one is taken.
-/
def merge (r s : Rect α) : Rect α where
  xMin := if r.xMin < s.xMin then r.xMin else s.xMin
  yMin := if r.yMin < s.yMin then r.yMin else s.yMin
  xMax := if s.xMax < r.xMax then r.xMax else s.xMax
  yMax := if s.yMax < r.yMax then r.yMax else s.yMax

/-- The least rectangle around points, `none` without points. -/
def ofPoints? : List (Point α) → Option (Rect α)
  | [] => none
  | first :: rest => some (rest.foldl (fun r p => r.merge (ofPoint p)) (ofPoint first))

/-- The point lies inside or on the border. -/
def contains (r : Rect α) (p : Point α) : Bool :=
  r.xMin ≤ p.x && p.x ≤ r.xMax && r.yMin ≤ p.y && p.y ≤ r.yMax

/-- The point half way between the bounds. -/
def center (r : Rect α) : Point α where
  x := (r.xMin + r.xMax) / Scalar.ofNat 2
  y := (r.yMin + r.yMax) / Scalar.ofNat 2

end Rect

/-- The bounding box of what was shown so far, if anything was. -/
structure Envelope (α : Type u) where
  rect : Option (Rect α) := none
deriving BEq, Repr

namespace Envelope

variable {α : Type u} [Scalar α]

/-- The envelope of nothing. -/
def empty {α : Type u} : Envelope α := {}

/-- Nothing was shown yet. -/
def isEmpty {α : Type u} (e : Envelope α) : Bool := e.rect.isNone

/-- The least envelope around both. -/
def merge (e f : Envelope α) : Envelope α :=
  match e.rect, f.rect with
  | _, none => e
  | none, some _ => f
  | some r, some s => { rect := some (r.merge s) }

/-- The envelope widened to a point. -/
def insert (e : Envelope α) (p : Point α) : Envelope α := e.merge { rect := some (.ofPoint p) }

/-- The envelope widened to every point of a geometry. -/
def expand (e : Envelope α) (g : Geometry α) : Envelope α := g.points.foldl insert e

/-- The envelope of a geometry. -/
def ofGeometry (g : Geometry α) : Envelope α := empty.expand g

/-- The empty envelope adds nothing to another one. -/
@[simp] theorem merge_empty (e : Envelope α) : e.merge empty = e := by
  cases e; simp [merge, empty]

/-- Another one replaces the empty envelope. -/
@[simp] theorem empty_merge (e : Envelope α) : empty.merge e = e := by
  rcases e with ⟨_ | _⟩ <;> rfl

/-- Expanding to a collection is expanding to its members one after the other. -/
theorem expand_collection (e : Envelope α) (members : List (Geometry α)) :
    e.expand (.collection members) = members.foldl expand e := by
  simp only [expand, Geometry.points_collection]
  induction members generalizing e with
  | nil => rfl
  | cons member rest ih =>
    rw [List.flatMap_cons, List.foldl_append, ih]
    rfl

/-- The point lies in the bounding box. -/
def contains (e : Envelope α) (p : Point α) : Bool := e.rect.any (·.contains p)

end Envelope

end Cartouche
