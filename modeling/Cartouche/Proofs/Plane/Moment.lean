import Mathlib.Algebra.BigOperators.Ring.List
import Mathlib.Algebra.Module.LinearMap.Defs
import Mathlib.Algebra.Module.Prod
import Mathlib.Data.List.Rotate
import Mathlib.Tactic.FieldSimp
import Mathlib.Tactic.Linarith
import Mathlib.Tactic.Module
import Cartouche.Plane.Centroid
import Cartouche.Proofs.Plane.Exact
import Cartouche.Proofs.Plane.Path

/-!
# Moments of rings

`ringMoment` adds up the triangles that the segments of a ring span with an origin. In exact
arithmetic the moments of a closed ring about two origins differ by a linear map (`shear`): what the
triangles differ by beyond it cancels along the ring (`LinearRing.IsLoop.sum_segments_sub`). The map
commutes with the choice of the sign (`upright_shear`). A ring that is drawn from another vertex on
goes the same ways (`roundTrip_perm`), and one that is drawn the other way round has the opposite
moment before its sign is chosen.
-/

namespace Cartouche

open scoped Scalar.Exact

variable {α : Type u} [Field α] [LinearOrder α]

/-! ## Rings drawn anew -/

/-- In exact arithmetic two places are the same when both coordinates are. -/
theorem Point.samePlace_iff {p q : Point α} : p.samePlace q ↔ p.toOffset = q.toOffset := by
  simp [samePlace, toOffset]

namespace LinearRing

/-- The path of the ring ends where it starts, if the ring has points at all. -/
def IsLoop (ring : LinearRing α) : Prop := ring.points = [] ∨ ring.isClosed

/-- A ring that ends where it starts has a first and a last point, at the same place. -/
theorem isClosed_iff {ring : LinearRing α} :
    ring.isClosed ↔ ∃ first ∈ ring.points.head?, ∃ last ∈ ring.points.getLast?,
      first.toOffset = last.toOffset := by
  unfold isClosed isClosedPath
  cases ring.points.head? <;> cases ring.points.getLast? <;> simp [Point.samePlace_iff]

/-- Rings are built as loops. -/
theorem isLoop_ofPoints (points : List (Point α)) : (ofPoints points).IsLoop := by
  cases points with
  | nil => exact .inl rfl
  | cons first rest =>
    right
    rw [ofPoints]
    split
    · assumption
    · exact isClosed_iff.2 ⟨first, rfl, first, List.getLast?_concat, rfl⟩

/-- One ring is another one drawn anew: from another vertex on, or the other way round if the ring
has an area. The vertices of a closed ring are its points but for the last one. -/
inductive IsRedrawn : LinearRing α → LinearRing α → Prop where
  | refl (ring : LinearRing α) : IsRedrawn ring ring
  | restart {ring other : LinearRing α} (hring : ring.isClosed) (hother : other.isClosed)
    (hrotated : ring.points.dropLast ~r other.points.dropLast) : IsRedrawn ring other
  | reverse {ring : LinearRing α} (hring : ring.isClosed) (harea : ring.signedArea ≠ 0) :
    IsRedrawn ring { points := ring.points.reverse }
  | trans {ring middle other : LinearRing α} (hfirst : IsRedrawn ring middle)
    (hsecond : IsRedrawn middle other) : IsRedrawn ring other

/-- A ring drawn anew has points if the ring has. -/
theorem IsRedrawn.points_eq_nil_iff {ring other : LinearRing α} (h : ring.IsRedrawn other) :
    other.points = [] ↔ ring.points = [] := by
  have hne {ring : LinearRing α} (hclosed : ring.isClosed) : ring.points ≠ [] := by
    obtain ⟨first, hfirst, -⟩ := isClosed_iff.1 hclosed
    exact List.ne_nil_of_mem (List.mem_of_head? hfirst)
  induction h with
  | refl => rfl
  | restart hring hother _ => exact iff_of_false (hne hother) (hne hring)
  | reverse => exact List.reverse_eq_nil_iff
  | trans _ _ ihfirst ihsecond => exact ihsecond.trans ihfirst

end LinearRing

/-! ## Triangles -/

/-- Twice the area of the triangle that a segment spans with an origin, negative when the segment
runs clockwise around it. -/
def Segment.crossAbout (origin : Point α) (s : Segment α) : α :=
  (s.start.sub origin).dx * (s.stop.sub origin).dy -
    (s.stop.sub origin).dx * (s.start.sub origin).dy

/-- The area of the triangle that a segment spans with an origin, and its first moment about the
origin. -/
def triangleMoment (origin : Point α) (s : Segment α) : α × Offset α :=
  (s.crossAbout origin / 2, (s.crossAbout origin / 6) • (s.start.sub origin + s.stop.sub origin))

/-- The area of a ring and its first moment about an origin, signed like its triangles. -/
def LinearRing.moment (origin : Point α) (ring : LinearRing α) : α × Offset α :=
  ((segments ring.points).map (triangleMoment origin)).sum

/-- A moment with its sign changed if the area is negative. -/
def upright (moment : α × Offset α) : α × Offset α := if moment.1 < 0 then -moment else moment

/-- Twice the area and six times the moment, with those of one more triangle added. -/
def addTriangle (origin : Point α) (sum : α × Offset α) (s : Segment α) : α × Offset α :=
  (sum.1 + s.crossAbout origin,
    sum.2 + (s.start.sub origin + s.stop.sub origin).scale (s.crossAbout origin))

section

variable [CharZero α]

/-- The running sums of a ring are twice the area and six times the moment, from wherever they
start. The factors are taken out at the end, so they need not be divided at every segment. -/
theorem foldl_addTriangle (origin : Point α) (moment : α × Offset α) (path : List (Segment α)) :
    path.foldl (addTriangle origin) (2 * moment.1, (6 : α) • moment.2) =
      (2 * (moment + (path.map (triangleMoment origin)).sum).1,
        (6 : α) • (moment + (path.map (triangleMoment origin)).sum).2) := by
  induction path generalizing moment with
  | nil => simp
  | cons s rest ih =>
    have hstep : addTriangle origin (2 * moment.1, (6 : α) • moment.2) s =
        (2 * (moment + triangleMoment origin s).1,
          (6 : α) • (moment + triangleMoment origin s).2) := by
      ext <;> simp [addTriangle, triangleMoment, Offset.scale] <;> ring
    rw [List.foldl_cons, hstep, ih, List.map_cons, List.sum_cons, add_assoc]

/-- The moment of a ring is that of its triangles, upright. -/
theorem ringMoment_eq (origin : Point α) (ring : LinearRing α) :
    ringMoment origin ring = upright (ring.moment origin) := by
  -- the sums are twice the area and six times the moment, from the start on
  have hzero : ((Scalar.zero, .zero) : α × Offset α) =
      (2 * (0 : α × Offset α).1, (6 : α) • (0 : α × Offset α).2) := by
    ext1
    · simp
    · exact (smul_zero (6 : α)).symm
  have hhalf (a : α) : 2 * a / Scalar.ofNat 2 = a := by simp
  have hsixth (u : Offset α) : ((6 : α) • u).divide (Scalar.ofNat 6) = u := by
    ext <;> simp [Offset.divide]
  have hsum : (segments ring.points).foldl (addTriangle origin) (Scalar.zero, .zero) =
      (2 * (ring.moment origin).1, (6 : α) • (ring.moment origin).2) := by
    rw [hzero, foldl_addTriangle, zero_add, LinearRing.moment]
  have hring : ringMoment origin ring =
      let sum := (segments ring.points).foldl (addTriangle origin) (Scalar.zero, .zero)
      if sum.1 / Scalar.ofNat 2 < Scalar.zero then
        -(sum.1 / Scalar.ofNat 2, sum.2.divide (Scalar.ofNat 6))
      else
        (sum.1 / Scalar.ofNat 2, sum.2.divide (Scalar.ofNat 6)) := rfl
  rw [hring, hsum]
  simp only [hhalf, hsixth, Scalar.Exact.zero_eq]
  rfl

end

/-! ## Another origin -/

/-- How the area and the moment change when the origin is moved. -/
def shear (u : Offset α) : α × Offset α →ₗ[α] α × Offset α where
  toFun moment := (moment.1, moment.2 - moment.1 • u)
  map_add' m n := by
    ext1
    · simp
    · simp only [Prod.fst_add, Prod.snd_add]
      module
  map_smul' k m := by ext1 <;> simp [smul_sub, mul_smul]

/-- Areas do not depend on the origin. -/
theorem shear_fst (u : Offset α) (moment : α × Offset α) : (shear u moment).1 = moment.1 := rfl

/-- The triangle of two origins and a point, up to what is linear in the first moment. -/
def sideMoment (origin p : Point α) : α × Offset α :=
  let cross := p.x * origin.y - origin.x * p.y
  (cross / 2, (cross / 6) • (p.toOffset - (2 : α) • origin.toOffset))

/-- The origin of both axes. -/
def Point.base : Point α := { x := 0, y := 0 }

/-- The triangles over a segment with two origins differ by the triangles over its ends. -/
theorem triangleMoment_eq [CharZero α] (origin : Point α) (s : Segment α) :
    triangleMoment origin s = shear origin.toOffset (triangleMoment .base s) +
      (sideMoment origin s.stop - sideMoment origin s.start) := by
  ext <;> simp [triangleMoment, Segment.crossAbout, shear, sideMoment, Point.sub, Point.base,
    Point.toOffset] <;> ring

/-- The first part of a sum of pairs is the sum of the first parts. -/
theorem fst_sum_map {β : Type u} {M : Type v} {N : Type w} [AddCommMonoid M] [AddCommMonoid N]
    (f : β → M × N) (items : List β) : (items.map f).sum.1 = (items.map fun b => (f b).1).sum := by
  have h := map_list_sum (AddMonoidHom.fst M N) (items.map f)
  rwa [List.map_map] at h

/-- The area of a ring, as its triangles with the origin of the axes have it. -/
theorem LinearRing.moment_base_fst (ring : LinearRing α) :
    (ring.moment .base).1 = ring.signedArea := by
  have hcross (s : Segment α) : (triangleMoment .base s).1 = s.cross * (2 : α)⁻¹ := by
    simp [triangleMoment, Segment.crossAbout, Segment.cross, Point.sub, Point.base, div_eq_mul_inv]
  rw [moment, fst_sum_map, funext hcross, List.sum_map_mul_right, signedArea, Scalar.Exact.sum_eq,
    Scalar.Exact.ofNat_eq, Nat.cast_ofNat, div_eq_mul_inv]

/-- Along a path differences add up to the difference of its ends. -/
theorem sum_segments_sub {β : Type u} {G : Type v} [AddCommGroup G] (f : Point β → G) :
    ∀ points : List (Point β), ((segments points).map fun s => f s.stop - f s.start).sum =
      (points.getLast?.map f).getD 0 - (points.head?.map f).getD 0
  | [] => by simp [segments]
  | [p] => by simp [segments]
  | p :: q :: rest => by
    rw [segments, List.map_cons, List.sum_cons, sum_segments_sub f (q :: rest)]
    simp

/-- Along a closed ring differences cancel. -/
theorem LinearRing.IsLoop.sum_segments_sub {G : Type v} [AddCommGroup G] {ring : LinearRing α}
    (h : ring.IsLoop) {f : Point α → G} (hf : ∀ p q, p.toOffset = q.toOffset → f p = f q) :
    ((segments ring.points).map fun s => f s.stop - f s.start).sum = 0 := by
  rw [Cartouche.sum_segments_sub]
  rcases h with hnil | hclosed
  · simp [hnil]
  · obtain ⟨first, hfirst, last, hlast, hplace⟩ := isClosed_iff.1 hclosed
    rw [hfirst, hlast]
    exact sub_eq_zero.2 (hf last first hplace.symm)

section

variable [CharZero α]

/-- The moment of a closed ring about another origin. -/
theorem LinearRing.IsLoop.moment_eq {ring : LinearRing α} (h : ring.IsLoop) (origin : Point α) :
    ring.moment origin = shear origin.toOffset (ring.moment .base) := by
  have hside (p q : Point α) (hplace : p.toOffset = q.toOffset) :
      sideMoment origin p = sideMoment origin q := by
    obtain ⟨hx, hy⟩ := Offset.mk.inj hplace
    rw [sideMoment, sideMoment, hplace, hx, hy]
  unfold moment
  rw [funext (triangleMoment_eq origin), List.sum_map_add, h.sum_segments_sub hside, add_zero,
    map_list_sum, List.map_map]
  rfl

/-- The area of a closed ring does not depend on the origin. -/
theorem LinearRing.IsLoop.moment_fst {ring : LinearRing α} (h : ring.IsLoop) (origin : Point α) :
    (ring.moment origin).1 = ring.signedArea := by
  rw [h.moment_eq, ← ring.moment_base_fst]
  rfl

end

/-! ## Another start and another direction -/

/-- The path along vertices and back to the first one. -/
def roundTrip {β : Type u} (vertices : List (Point β)) : List (Segment β) :=
  segments (vertices ++ vertices.head?.toList)

/-- A round trip that starts somewhere else takes the same ways. -/
theorem roundTrip_perm {β : Type u} {vertices others : List (Point β)} (h : vertices ~r others) :
    (roundTrip vertices).Perm (roundTrip others) := by
  obtain ⟨n, rfl⟩ := h
  induction n with
  | zero => rw [List.rotate_zero]
  | succ n ih =>
    refine ih.trans ?_
    rw [← List.rotate_rotate]
    match vertices.rotate n with
    | [] => exact .refl _
    | [p] => rw [List.rotate_singleton]
    | p :: q :: rest =>
      -- the first way becomes the last one
      have hlast : roundTrip ((p :: q :: rest).rotate 1) =
          segments (q :: rest ++ [p]) ++ [⟨p, q⟩] := by
        rw [List.rotate_cons_succ, List.rotate_zero, roundTrip, ← segments_concat]
        simp
      rw [hlast]
      exact (List.perm_append_singleton _ _).symm

/-- What is added up along a closed ring is what is added up on the round trip. -/
theorem LinearRing.sum_segments_of_isClosed {M : Type v} [AddCommMonoid M] {ring : LinearRing α}
    (h : ring.isClosed) {f : Segment α → M}
    (hf : ∀ p q r : Point α, q.toOffset = r.toOffset → f ⟨p, q⟩ = f ⟨p, r⟩) :
    ((segments ring.points).map f).sum = ((roundTrip ring.points.dropLast).map f).sum := by
  obtain ⟨first, hfirst, last, hlast, hplace⟩ := isClosed_iff.1 h
  have hpoints : ring.points.dropLast ++ [last] = ring.points :=
    List.dropLast_append_getLast? last hlast
  rcases List.eq_nil_or_concat' ring.points.dropLast with hnil | ⟨front, p, hconcat⟩
  · rw [← hpoints, hnil]
    rfl
  · have hhead : (front ++ [p]).head? = some first := by
      rw [hconcat] at hpoints
      rw [← hfirst, ← hpoints]
      cases front <;> rfl
    -- the last point need not be the first one, only at its place
    have hring : segments ring.points = segments (front ++ [p]) ++ [⟨p, last⟩] := by
      rw [← hpoints, hconcat, List.append_assoc]
      exact segments_concat front p last
    have htrip : roundTrip ring.points.dropLast = segments (front ++ [p]) ++ [⟨p, first⟩] := by
      rw [hconcat, roundTrip, hhead, List.append_assoc]
      exact segments_concat front p first
    rw [hring, htrip, List.map_append, List.map_append, List.map_singleton, List.map_singleton,
      hf p last first hplace.symm]

namespace LinearRing

/-- A ring that starts at another vertex has the same moment. -/
theorem moment_restart {ring other : LinearRing α} (hring : ring.isClosed) (hother : other.isClosed)
    (hrotated : ring.points.dropLast ~r other.points.dropLast) (origin : Point α) :
    other.moment origin = ring.moment origin := by
  have hplace (p q r : Point α) (hplace : q.toOffset = r.toOffset) :
      triangleMoment origin ⟨p, q⟩ = triangleMoment origin ⟨p, r⟩ := by
    obtain ⟨hx, hy⟩ := Offset.mk.inj hplace
    simp only [triangleMoment, Segment.crossAbout, Point.sub, hx, hy]
  unfold moment
  rw [sum_segments_of_isClosed hring hplace, sum_segments_of_isClosed hother hplace]
  exact ((roundTrip_perm hrotated).map _).sum_eq.symm

/-- The other way round a ring has the opposite moment. -/
theorem moment_reverse (origin : Point α) (ring : LinearRing α) :
    moment origin { points := ring.points.reverse } = -ring.moment origin := by
  have hflip (s : Segment α) :
      triangleMoment origin ⟨s.stop, s.start⟩ = -triangleMoment origin s := by
    ext <;> simp [triangleMoment, Segment.crossAbout] <;> ring
  unfold moment
  rw [segments_reverse, List.map_reverse, List.sum_reverse, List.map_map, List.sum_neg,
    List.map_map]
  exact congrArg List.sum (List.map_congr_left fun s _ => hflip s)

end LinearRing

/-! ## Upright moments -/

/-- Choosing the sign and moving the origin can be done in either order, since the sign depends on
the area only. -/
theorem upright_shear (u : Offset α) (moment : α × Offset α) :
    upright (shear u moment) = shear u (upright moment) := by
  rw [upright, upright, shear_fst]
  split
  · exact (map_neg _ _).symm
  · rfl

section

variable [IsStrictOrderedRing α]

/-- A ring drawn the other way round has the opposite moment, and both become the same one. Without
an area there is no sign to go by. -/
theorem upright_neg {moment : α × Offset α} (h : moment.1 ≠ 0) :
    upright (-moment) = upright moment := by
  unfold upright
  rcases h.lt_or_gt with hneg | hpos
  · rw [if_pos hneg, if_neg (by simpa using hneg.le)]
  · rw [if_pos (by simpa using hpos), if_neg hpos.not_gt, neg_neg]

/-- The area that is counted is the size of the signed area. -/
theorem upright_fst (moment : α × Offset α) : (upright moment).1 = |moment.1| := by
  unfold upright
  split
  · next hneg => exact (abs_of_neg hneg).symm
  · next hnonneg => exact (abs_of_nonneg (not_lt.1 hnonneg)).symm

namespace LinearRing

/-- A ring drawn anew has the same area and the same moment. -/
theorem IsRedrawn.ringMoment_eq {ring other : LinearRing α} (h : ring.IsRedrawn other)
    (origin : Point α) : ringMoment origin other = ringMoment origin ring := by
  induction h with
  | refl => rfl
  | restart hring hother hrotated =>
    rw [Cartouche.ringMoment_eq, Cartouche.ringMoment_eq,
      moment_restart hring hother hrotated origin]
  | @reverse ring hring harea =>
    -- without an area the sign of the moment would be left as it is
    have hne : (ring.moment origin).1 ≠ 0 := by rwa [IsLoop.moment_fst (.inr hring) origin]
    rw [Cartouche.ringMoment_eq, Cartouche.ringMoment_eq, moment_reverse, upright_neg hne]
  | trans _ _ ihfirst ihsecond => exact ihsecond.trans ihfirst

/-- The moment of a ring about another origin. -/
theorem IsLoop.ringMoment_eq {ring : LinearRing α} (h : ring.IsLoop) (origin : Point α) :
    ringMoment origin ring = shear origin.toOffset (ringMoment .base ring) := by
  rw [Cartouche.ringMoment_eq, Cartouche.ringMoment_eq, h.moment_eq, upright_shear]

/-- The area of a ring without its sign. -/
theorem IsLoop.ringMoment_fst {ring : LinearRing α} (h : ring.IsLoop) (origin : Point α) :
    (ringMoment origin ring).1 = |ring.signedArea| := by
  rw [Cartouche.ringMoment_eq, upright_fst, h.moment_fst]

end LinearRing

end

end Cartouche
