import Mathlib.Data.Multiset.MapFold
import Mathlib.Tactic.FieldSimp
import Cartouche.Proofs.Plane.Halfway
import Cartouche.Proofs.Plane.Moment

/-!
# The center of gravity

`areaCentroid?` divides the net moment of polygons by their net area, both about an origin that it
picks from the first exterior. In exact arithmetic neither this origin nor the order of the rings
matters: the moments about two origins differ by a linear map (`netMoment_eq_shear`), so the points
found about them are the same one (`move_divide_shear`), and the net area is the sum of the areas
that polygons have by themselves (`netMoment_fst`).
-/

namespace Cartouche

open scoped Scalar.Exact

variable {α : Type u} [Field α] [LinearOrder α]

/-! ## Polygons -/

/-- One polygon is another one drawn anew: each ring is, and the holes are in any order. -/
structure Polygon.IsRedrawn (polygon other : Polygon α) : Prop where
  exterior : polygon.exterior.IsRedrawn other.exterior
  interiors : Multiset.Rel LinearRing.IsRedrawn (polygon.interiors : Multiset (LinearRing α))
    (other.interiors : Multiset (LinearRing α))

/-- The same polygons drawn anew, in any order. -/
def AreRedrawn (polygons others : List (Polygon α)) : Prop :=
  Multiset.Rel Polygon.IsRedrawn (polygons : Multiset (Polygon α)) (others : Multiset (Polygon α))

namespace Polygon

/-- The area of a polygon and its first moment about an origin. -/
def moment (origin : Point α) (polygon : Polygon α) : α × Offset α :=
  ringMoment origin polygon.exterior - (polygon.interiors.map (ringMoment origin)).sum

/-- All rings are loops. -/
def IsClosed (polygon : Polygon α) : Prop := ∀ ring ∈ polygon.rings, ring.IsLoop

end Polygon

/-- One more polygon adds its moment to the sums: that of its exterior, less those of its holes. -/
theorem addMoments_eq (origin : Point α) (sum : α × Offset α) (polygon : Polygon α) :
    addMoments origin sum polygon = sum + polygon.moment origin := by
  have hholes (sum : α × Offset α) (holes : List (LinearRing α)) :
      holes.foldl (fun sum ring => sum - ringMoment origin ring) sum =
        sum - (holes.map (ringMoment origin)).sum := by
    induction holes generalizing sum with
    | nil => simp
    | cons ring rest ih => rw [List.foldl_cons, ih, List.map_cons, List.sum_cons, sub_sub]
  exact (hholes _ _).trans (add_sub_assoc ..)

/-- The net moment is the sum of the moments. -/
theorem netMoment_eq (origin : Point α) (polygons : List (Polygon α)) :
    netMoment origin polygons = (polygons.map (Polygon.moment origin)).sum := by
  have hfold (sum : α × Offset α) :
      polygons.foldl (addMoments origin) sum =
        sum + (polygons.map (Polygon.moment origin)).sum := by
    induction polygons generalizing sum with
    | nil => simp
    | cons polygon rest ih =>
      rw [List.foldl_cons, ih, addMoments_eq, List.map_cons, List.sum_cons, add_assoc]
  have hzero : ((Scalar.zero, .zero) : α × Offset α) = 0 := Prod.ext Scalar.Exact.zero_eq rfl
  rw [netMoment, hfold, hzero, zero_add]

/-- Lists with related elements, in any order, have the same sum. -/
theorem sum_map_eq_of_rel {β : Type v} {M : Type w} [AddCommMonoid M] {R : β → β → Prop} {f : β → M}
    (hf : ∀ a b, R a b → f b = f a) {items others : List β}
    (h : Multiset.Rel R (items : Multiset β) (others : Multiset β)) :
    (others.map f).sum = (items.map f).sum := by
  have heq : (items : Multiset β).map f = (others : Multiset β).map f :=
    Multiset.rel_eq.1 (Multiset.rel_map.2 (h.mono fun a _ b _ hab => (hf a b hab).symm))
  rw [Multiset.map_coe, Multiset.map_coe] at heq
  exact (Multiset.coe_eq_coe.1 heq).sum_eq.symm

section

variable [IsStrictOrderedRing α]

/-- A polygon that is drawn anew has the same moment about every origin. The order of its holes does
not matter because their moments are added. -/
theorem Polygon.IsRedrawn.moment_eq {polygon other : Polygon α} (h : polygon.IsRedrawn other)
    (origin : Point α) : other.moment origin = polygon.moment origin := by
  rw [moment, moment, h.exterior.ringMoment_eq,
    sum_map_eq_of_rel (fun _ _ hring => hring.ringMoment_eq origin) h.interiors]

/-- Polygons drawn anew have the same net moment. -/
theorem netMoment_of_redrawn {polygons others : List (Polygon α)} (h : AreRedrawn polygons others)
    (origin : Point α) :
    netMoment origin others = netMoment origin polygons := by
  rw [netMoment_eq, netMoment_eq, sum_map_eq_of_rel (fun _ _ hp => hp.moment_eq origin) h]

/-- The moment of a closed polygon about any origin, from that about the origin of the axes. So the
moments about two origins can be compared. -/
theorem Polygon.IsClosed.moment_eq {polygon : Polygon α} (h : polygon.IsClosed) (origin : Point α) :
    polygon.moment origin = shear origin.toOffset (polygon.moment .base) := by
  obtain ⟨hexterior, hholes⟩ := List.forall_mem_cons.1 h
  unfold moment
  rw [map_sub, map_list_sum, List.map_map, hexterior.ringMoment_eq]
  refine congrArg (_ - List.sum ·) (List.map_congr_left fun ring hring => ?_)
  exact (hholes ring hring).ringMoment_eq origin

/-- The area of a polygon does not depend on the origin: it is the one the polygon has by itself. -/
theorem Polygon.IsClosed.moment_fst {polygon : Polygon α} (h : polygon.IsClosed) (origin : Point α) :
    (polygon.moment origin).1 = polygon.area := by
  obtain ⟨hexterior, hholes⟩ := List.forall_mem_cons.1 h
  have harea := List.map_congr_left fun ring hring => (hholes ring hring).ringMoment_fst origin
  rw [moment, Prod.fst_sub, fst_sum_map, hexterior.ringMoment_fst, harea, area,
    Scalar.Exact.sum_eq]
  rfl

/-- The net moment of closed polygons about another origin. -/
theorem netMoment_eq_shear {polygons : List (Polygon α)}
    (h : ∀ polygon ∈ polygons, polygon.IsClosed) (origin : Point α) :
    netMoment origin polygons = shear origin.toOffset (netMoment .base polygons) := by
  rw [netMoment_eq, netMoment_eq, map_list_sum, List.map_map]
  exact congrArg List.sum
    (List.map_congr_left fun polygon hpolygon => (h polygon hpolygon).moment_eq origin)

/-- The net area of closed polygons is the sum of their areas. -/
theorem netMoment_fst {polygons : List (Polygon α)} (h : ∀ polygon ∈ polygons, polygon.IsClosed)
    (origin : Point α) : (netMoment origin polygons).1 = (polygons.map Polygon.area).sum := by
  rw [netMoment_eq, fst_sum_map]
  exact congrArg List.sum
    (List.map_congr_left fun polygon hpolygon => (h polygon hpolygon).moment_fst origin)

end

/-! ## The center of gravity -/

/-- The point that moments are taken about. -/
def anchor? {β : Type u} (polygons : List (Polygon β)) : Option (Point β) :=
  polygons.findSome? fun polygon => polygon.exterior.points.head?

/-- An origin is found as soon as one exterior has a point. -/
theorem isSome_anchor?_iff {β : Type u} {polygons : List (Polygon β)} :
    (anchor? polygons).isSome ↔ ∃ polygon ∈ polygons, polygon.exterior.points ≠ [] := by
  simp only [anchor?, List.findSome?_isSome_iff, List.isSome_head?, ne_eq]

/-- Polygons drawn anew have an exterior point if the polygons have. -/
theorem isSome_anchor?_of_redrawn {polygons others : List (Polygon α)}
    (h : AreRedrawn polygons others) : (anchor? others).isSome ↔ (anchor? polygons).isSome := by
  rw [isSome_anchor?_iff, isSome_anchor?_iff]
  constructor
  · rintro ⟨other, hother, hne⟩
    obtain ⟨polygon, hpolygon, hredrawn⟩ :=
      Multiset.exists_mem_of_rel_of_mem (Multiset.rel_flip.2 h) hother
    exact ⟨polygon, hpolygon, mt hredrawn.exterior.points_eq_nil_iff.2 hne⟩
  · rintro ⟨polygon, hpolygon, hne⟩
    obtain ⟨other, hother, hredrawn⟩ := Multiset.exists_mem_of_rel_of_mem h hpolygon
    exact ⟨other, hother, mt hredrawn.exterior.points_eq_nil_iff.1 hne⟩

/-- With a net area the center of gravity is the moment shrunk by it. -/
theorem areaCentroid?_eq (length : Segment α → α) {polygons : List (Polygon α)}
    (harea : ∀ origin ∈ anchor? polygons, areaTolerance < |(netMoment origin polygons).1|) :
    areaCentroid? length polygons = (anchor? polygons).map fun origin =>
      origin.move ((netMoment origin polygons).2.divide (netMoment origin polygons).1) := by
  cases hanchor : anchor? polygons with
  | none =>
    unfold anchor? at hanchor
    rw [areaCentroid?, hanchor]
    rfl
  | some origin =>
    have hlarge := harea origin hanchor
    unfold anchor? at hanchor
    rw [areaCentroid?, hanchor]
    exact if_neg hlarge.not_ge

/-- The tolerance is not negative, so an area that exceeds it is not zero. -/
theorem areaTolerance_nonneg [IsStrictOrderedRing α] : (0 : α) ≤ areaTolerance := by
  unfold areaTolerance
  rw [Scalar.Exact.ofNat_eq, Scalar.Exact.ofNat_eq]
  positivity

/-- The center of gravity is the same one about each origin. -/
theorem move_divide_shear (origin : Point α) {moment : α × Offset α} (h : moment.1 ≠ 0) :
    origin.move ((shear origin.toOffset moment).2.divide (shear origin.toOffset moment).1) =
      Point.base.move (moment.2.divide moment.1) := by
  have hcoordinate (a b : α) : a + (b - a * moment.1) / moment.1 = 0 + b / moment.1 := by
    field_simp
    ring
  exact Point.mk.injEq .. ▸ ⟨hcoordinate _ _, hcoordinate _ _, rfl⟩

/-- The point moved by a vector, with its elevation. -/
def Point.shift (u : Offset α) (p : Point α) : Point α :=
  { p with x := p.x + u.dx, y := p.y + u.dy }

/-- Moving a point on a figure and moving the figure can be done in either order. -/
theorem shift_move (u : Offset α) (p : Point α) (v : Offset α) :
    (p.shift u).move v = (p.move v).shift u := by
  simp only [Point.shift, Point.move, add_right_comm]

section

variable [IsStrictOrderedRing α] (u : Offset α) (origin : Point α)

/-- A ring that is moved together with the origin has the same moment. -/
theorem ringMoment_shift (ring : LinearRing α) :
    ringMoment (origin.shift u) { points := ring.points.map (Point.shift u) } =
      ringMoment origin ring := by
  have hsub (p q : Point α) : (p.shift u).sub (q.shift u) = p.sub q := by
    simp only [Point.shift, Point.sub, add_sub_add_right_eq_sub]
  have htriangle (s : Segment α) :
      triangleMoment (origin.shift u) ⟨s.start.shift u, s.stop.shift u⟩ =
        triangleMoment origin s := by
    simp only [triangleMoment, Segment.crossAbout, hsub]
  rw [ringMoment_eq, ringMoment_eq, LinearRing.moment, LinearRing.moment, segments_map,
    List.map_map]
  exact congrArg (upright <| List.sum ·) (List.map_congr_left fun s _ => htriangle s)

/-- A polygon and an origin that are moved together keep their moment. -/
theorem Polygon.moment_shift (polygon : Polygon α) :
    (polygon.map (Point.shift u)).moment (origin.shift u) = polygon.moment origin := by
  unfold moment map
  rw [ringMoment_shift, List.map_map]
  exact congrArg (_ - List.sum ·) (List.map_congr_left fun ring _ => ringMoment_shift u origin ring)

/-- Polygons that are moved together with the origin have the same net moment. -/
theorem netMoment_shift (polygons : List (Polygon α)) :
    netMoment (origin.shift u) (polygons.map (Polygon.map (Point.shift u))) =
      netMoment origin polygons := by
  rw [netMoment_eq, netMoment_eq, List.map_map]
  exact congrArg List.sum (List.map_congr_left fun polygon _ => polygon.moment_shift u origin)

end

/-- The moments of polygons that are moved are taken about the moved point. -/
theorem anchor?_map {β : Type u} (f : Point β → Point β) (polygons : List (Polygon β)) :
    anchor? (polygons.map (Polygon.map f)) = (anchor? polygons).map f := by
  unfold anchor?
  rw [List.findSome?_map, List.map_findSome?]
  refine congrArg (List.findSome? · polygons) (funext fun polygon => ?_)
  exact List.head?_map

/-- The center of gravity of closed polygons with a net area belongs to the area. It stays where it
is when the polygons are drawn anew and moves with them, and the area it is divided by is the sum of
the areas of the polygons. -/
theorem areaCentroid?_isIntrinsic [IsStrictOrderedRing α] (length : Segment α → α)
    {polygons : List (Polygon α)} (hclosed : ∀ polygon ∈ polygons, polygon.IsClosed)
    (harea : areaTolerance < |(polygons.map Polygon.area).sum|) :
    (∀ others : List (Polygon α), AreRedrawn polygons others →
      areaCentroid? length others = areaCentroid? length polygons) ∧
    (∀ u : Offset α, areaCentroid? length (polygons.map (Polygon.map (Point.shift u))) =
      (areaCentroid? length polygons).map (Point.shift u)) ∧
    (∀ origin, (netMoment origin polygons).1 = (polygons.map Polygon.area).sum) ∧
    areaCentroid? length polygons = (anchor? polygons).map fun origin =>
      origin.move ((netMoment origin polygons).2.divide (polygons.map Polygon.area).sum) := by
  have hfst := netMoment_fst hclosed
  have hnet (origin : Point α) : areaTolerance < |(netMoment origin polygons).1| := by
    rwa [hfst origin]
  have hcentroid := areaCentroid?_eq length fun origin _ => hnet origin
  have hne : (netMoment .base polygons).1 ≠ 0 := by
    intro hzero
    have hpos := hnet .base
    rw [hzero, abs_zero] at hpos
    exact hpos.not_ge areaTolerance_nonneg
  -- about each point that may be picked the center is the one about the base
  have hcenter (origin : Point α) :
      origin.move ((netMoment origin polygons).2.divide (netMoment origin polygons).1) =
        Point.base.move ((netMoment .base polygons).2.divide (netMoment .base polygons).1) := by
    rw [netMoment_eq_shear hclosed origin]
    exact move_divide_shear origin hne
  refine ⟨fun others hredrawn => ?_, fun u => ?_, hfst, ?_⟩
  · have hsame := netMoment_of_redrawn hredrawn
    have hothers : areaCentroid? length others = _ := areaCentroid?_eq length fun origin _ => by
      rw [hsame origin]
      exact hnet origin
    rw [hothers, hcentroid]
    simp only [hsame, hcenter]
    have hsome := isSome_anchor?_of_redrawn hredrawn
    cases hother : anchor? others <;> cases hpolygon : anchor? polygons <;>
      simp [hother, hpolygon] at hsome ⊢
  · have hmoved := anchor?_map (Point.shift u) polygons
    have hshift : areaCentroid? length (polygons.map (Polygon.map (Point.shift u))) = _ :=
      areaCentroid?_eq length fun origin horigin => by
        obtain ⟨p, -, rfl⟩ := Option.map_eq_some_iff.1 (hmoved ▸ horigin)
        rw [netMoment_shift]
        exact hnet p
    rw [hshift, hmoved, hcentroid, Option.map_map, Option.map_map]
    refine congrArg (Option.map · _) (funext fun origin => ?_)
    simp only [Function.comp_apply, netMoment_shift]
    exact shift_move u origin _
  · simpa only [hfst] using hcentroid

/-- The corner of a square. -/
def notch : LinearRing ℚ :=
  .ofPoints [{ x := 2, y := 0 }, { x := 4, y := 0 }, { x := 4, y := 2 }, { x := 2, y := 2 }]

/-- A square without its corner. -/
def frame : Polygon ℚ where
  exterior :=
    .ofPoints [{ x := 0, y := 0 }, { x := 4, y := 0 }, { x := 4, y := 4 }, { x := 0, y := 4 }]
  interiors := [notch]

/-- The same square from another vertex on, with its hole the other way round. -/
def frameAnew : Polygon ℚ where
  exterior :=
    .ofPoints [{ x := 4, y := 4 }, { x := 0, y := 4 }, { x := 0, y := 0 }, { x := 4, y := 0 }]
  interiors := [{ points := notch.points.reverse }]

/-- A small square. -/
def tile : Polygon ℚ where
  exterior :=
    .ofPoints [{ x := 10, y := 0 }, { x := 11, y := 0 }, { x := 11, y := 1 }, { x := 10, y := 1 }]

/-- The square with a notch in its corner is drawn anew from another vertex on, with the notch the
other way round. -/
theorem isRedrawn_frame : frame.IsRedrawn frameAnew where
  exterior := .restart rfl rfl ⟨2, rfl⟩
  interiors := .cons (.reverse rfl (by decide +kernel)) .zero

/-- The center of gravity of a notched square and a tile, found from the tile first and the square
drawn anew. -/
theorem areaCentroid?_isIntrinsic_frame :
    (∀ polygon ∈ [frame, tile], polygon.IsClosed) ∧
      areaTolerance < |([frame, tile].map Polygon.area).sum| ∧
      AreRedrawn [frame, tile] [tile, frameAnew] ∧
      areaCentroid? detour [tile, frameAnew] = some { x := 61 / 26, y := 57 / 26 } := by
  have hclosed : ∀ polygon ∈ [frame, tile], polygon.IsClosed := by
    simp [Polygon.IsClosed, Polygon.rings, frame, notch, tile, LinearRing.isLoop_ofPoints]
  have hsum : ([frame, tile].map Polygon.area).sum = 13 := by decide +kernel
  have harea : areaTolerance < |([frame, tile].map Polygon.area).sum| := by
    rw [hsum]
    norm_num [areaTolerance]
  have hredrawn : AreRedrawn [frame, tile] [tile, frameAnew] := by
    have hswap : (↑[tile, frameAnew] : Multiset (Polygon ℚ)) = ↑[frameAnew, tile] :=
      Multiset.coe_eq_coe.2 (.swap ..)
    rw [AreRedrawn, hswap]
    exact .cons isRedrawn_frame (.cons ⟨.refl _, .zero⟩ .zero)
  have hdx : (netMoment .base [frame, tile]).2.dx = 61 / 2 := by decide +kernel
  have hdy : (netMoment .base [frame, tile]).2.dy = 57 / 2 := by decide +kernel
  obtain ⟨hsame, -, -, hcenter⟩ := areaCentroid?_isIntrinsic detour hclosed harea
  have hanchor : anchor? [frame, tile] = some .base := rfl
  rw [hanchor, hsum, Option.map_some] at hcenter
  refine ⟨hclosed, harea, hredrawn, (hsame _ hredrawn).trans (hcenter.trans ?_)⟩
  simp only [Point.move, Offset.divide, hdx, hdy]
  norm_num [Point.base]

end Cartouche
