import Mathlib.Algebra.Order.BigOperators.Group.List
import Mathlib.Analysis.Convex.Basic
import Cartouche.Plane.Rect
import Cartouche.Proofs.Plane.Halfway
import Cartouche.Proofs.Plane.Outline

/-!
# Representative points in the box

In exact arithmetic a rectangle that holds two points holds all points between them
(`Rect.contains_lerp`) and one that holds several points holds their means, whatever their weights
(`weightedMean_mem_Icc`). The point that stands for a path, for points or for paths is such a point,
so it lies in every rectangle that holds the geometry (`Geometry.IsAreaFree.contains`), and the
envelope is one of them (`Envelope.contains_ofGeometry`).
-/

namespace Cartouche

open scoped Scalar.Exact

variable {α : Type u} [Field α] [LinearOrder α]

/-! ## Rectangles and envelopes -/

namespace Rect

variable {r s : Rect α} {p q : Point α}

/-- A rectangle contains the points whose coordinates lie in two intervals, ends included. -/
theorem contains_iff_mem_Icc :
    r.contains p ↔ p.x ∈ Set.Icc r.xMin r.xMax ∧ p.y ∈ Set.Icc r.yMin r.yMax := by
  simp only [contains, Bool.and_eq_true, decide_eq_true_eq, Set.mem_Icc, and_assoc]

/-- A point lies in its own rectangle. For doubles this needs the coordinates to be numbers, in a
field it always holds. -/
theorem contains_ofPoint : (ofPoint p).contains p := by
  rw [contains_iff_mem_Icc]
  exact ⟨⟨le_rfl, le_rfl⟩, le_rfl, le_rfl⟩

/-- The bounds of a merged rectangle are the lesser and the greater ones. -/
theorem merge_eq (r s : Rect α) :
    r.merge s =
      ⟨min r.xMin s.xMin, min r.yMin s.yMin, max r.xMax s.xMax, max r.yMax s.yMax⟩ := by
  have hmin (a b : α) : (if a < b then a else b) = min a b := by
    rw [min_def_lt]
  have hmax (a b : α) : (if b < a then a else b) = max a b := by
    rw [max_comm, max_def_lt]
  rw [← hmin, ← hmin, ← hmax, ← hmax]
  rfl

/-- A merged rectangle contains what one of the two contains. -/
theorem contains_merge (h : r.contains p ∨ s.contains p) : (r.merge s).contains p := by
  simp only [contains_iff_mem_Icc, merge_eq, Set.mem_Icc, min_le_iff, le_max_iff] at h ⊢
  tauto

end Rect

namespace Envelope

variable {e : Envelope α} {p q : Point α}

/-- A widened envelope holds what it held, and the point it was widened to. -/
theorem contains_insert (h : e.contains q ∨ q = p) : (e.insert p).contains q := by
  rcases e with ⟨_ | r⟩
  · rcases h with h | rfl
    · cases h
    · exact Rect.contains_ofPoint
  · refine Rect.contains_merge (h.imp id ?_)
    rintro rfl
    exact Rect.contains_ofPoint

/-- An envelope holds the points it was widened to. -/
theorem contains_foldl_insert {points : List (Point α)} (h : e.contains q ∨ q ∈ points) :
    (points.foldl insert e).contains q := by
  induction points generalizing e with
  | nil => simpa using h
  | cons p rest ih =>
    rw [List.foldl_cons]
    apply ih
    rcases h with h | h
    · exact .inl (contains_insert (.inl h))
    · rcases List.mem_cons.1 h with rfl | h
      · exact .inl (contains_insert (.inr rfl))
      · exact .inr h

/-- The envelope of a geometry holds its points. -/
theorem contains_ofGeometry {g : Geometry α} (h : q ∈ g.points) : (ofGeometry g).contains q :=
  contains_foldl_insert (.inr h)

end Envelope

/-! ## Sums of positions -/

/-- Positions are added coordinate by coordinate. -/
theorem foldl_add_toOffset (u : Offset α) (points : List (Point α)) :
    points.foldl (fun sum q => sum + q.toOffset) u =
      ⟨u.dx + (points.map Point.x).sum, u.dy + (points.map Point.y).sum⟩ := by
  induction points generalizing u with
  | nil => simp
  | cons q rest ih =>
    rw [List.foldl_cons, ih]
    simp only [List.map_cons, List.sum_cons, ← add_assoc]
    rfl

/-- Weighted midpoints are added coordinate by coordinate, and lengths beside them. -/
theorem foldl_add_midpoint (length : Segment α → α) (u : Offset α) (total : α)
    (path : List (Segment α)) :
    path.foldl (fun (sum : Offset α × α) s =>
        (sum.1 + s.midpoint.toOffset.scale (length s), sum.2 + length s)) (u, total) =
      (⟨u.dx + (path.map fun s => s.midpoint.x * length s).sum,
        u.dy + (path.map fun s => s.midpoint.y * length s).sum⟩,
        total + (path.map length).sum) := by
  induction path generalizing u total with
  | nil => simp
  | cons s rest ih =>
    rw [List.foldl_cons, ih]
    simp only [List.map_cons, List.sum_cons, ← add_assoc]
    rfl

variable [IsStrictOrderedRing α]

/-! ## Points between others -/

/-- What lies between two numbers of an interval lies in it. -/
theorem between_mem_Icc {low high a b fraction : α} (ha : a ∈ Set.Icc low high)
    (hb : b ∈ Set.Icc low high) (hfraction : fraction ∈ Set.Icc 0 1) :
    a + (b - a) * fraction ∈ Set.Icc low high := by
  have hline := (convex_Icc low high).lineMap_mem ha hb hfraction
  rwa [AffineMap.lineMap_apply_ring', add_comm, mul_comm] at hline

/-- A mean of numbers of an interval lies in it, when no weight is negative and not all are zero. -/
theorem weightedMean_mem_Icc {β : Type v} {items : List β} {value weight : β → α} {low high : α}
    (hvalue : ∀ b ∈ items, value b ∈ Set.Icc low high) (hweight : ∀ b ∈ items, 0 ≤ weight b)
    (hpos : 0 < (items.map weight).sum) :
    (items.map fun b => value b * weight b).sum / (items.map weight).sum ∈ Set.Icc low high := by
  rw [Set.mem_Icc, le_div_iff₀ hpos, div_le_iff₀ hpos, ← List.sum_map_mul_left,
    ← List.sum_map_mul_left]
  constructor
  · exact List.sum_le_sum fun b hb => mul_le_mul_of_nonneg_right (hvalue b hb).1 (hweight b hb)
  · exact List.sum_le_sum fun b hb => mul_le_mul_of_nonneg_right (hvalue b hb).2 (hweight b hb)

/-- Rectangles are convex: a point between two others lies in every rectangle that contains both. -/
theorem Rect.contains_lerp {r : Rect α} {p q : Point α} {fraction : α} (hp : r.contains p)
    (hq : r.contains q) (hfraction : fraction ∈ Set.Icc 0 1) :
    r.contains (p.lerp q fraction) := by
  rw [contains_iff_mem_Icc] at hp hq ⊢
  exact ⟨between_mem_Icc hp.1 hq.1 hfraction, between_mem_Icc hp.2 hq.2 hfraction⟩

/-! ## Points that stand for geometries -/

section

variable {length : Segment α → α} {r : Rect α} {p : Point α}

/-- A place on a path is in every rectangle that holds the vertices. -/
theorem IsOnPath.contains {points : List (Point α)} {distance : α}
    (hplace : IsOnPath length points p distance) (h : ∀ q ∈ points, r.contains q) :
    r.contains p := by
  cases hplace with
  | vertex hsplit => exact h _ (by simp [hsplit])
  | inside hsplit hlow hhigh =>
    obtain ⟨hstart, hstop⟩ := mem_of_mem_segments (hsplit ▸ List.mem_append_cons_self)
    exact Rect.contains_lerp (h _ hstart) (h _ hstop) ⟨hlow, hhigh⟩

/-- The point half way along a path is a place on it. -/
theorem exists_isOnPath_of_lineCentroid? {points : List (Point α)}
    (h : lineCentroid? length points = some p) : ∃ distance, IsOnPath length points p distance := by
  cases points with
  | nil => cases h
  | cons first rest =>
    rw [lineCentroid?_cons] at h
    split at h
    · obtain rfl := Option.some_inj.1 h
      exact ⟨_, .vertex (List.nil_append (first :: rest)).symm⟩
    · next hpos =>
      obtain ⟨q, distance, hwalk, hplace, -⟩ := exists_isOnPath_of_pos (not_le.1 hpos)
      rw [hwalk, Option.some_or] at h
      obtain rfl := Option.some_inj.1 h
      exact ⟨distance, hplace⟩

/-- The mean of points is in every rectangle that holds them. -/
theorem contains_of_pointsCentroid? {points : List (Point α)} (h : pointsCentroid? points = some p)
    (hr : ∀ q ∈ points, r.contains q) : r.contains p := by
  unfold pointsCentroid? at h
  split at h
  · cases h
  · next hne =>
    obtain rfl := Option.some_inj.1 h
    have hpos : 0 < (points.map fun _ => (1 : α)).sum := by
      rw [List.isEmpty_iff] at hne
      simpa [List.length_pos_iff] using hne
    have hmean {value : Point α → α} {low high : α}
        (hvalue : ∀ q ∈ points, value q ∈ Set.Icc low high) :
        (points.map value).sum / points.length ∈ Set.Icc low high := by
      simpa using weightedMean_mem_Icc hvalue (fun _ _ => zero_le_one) hpos
    simp only [Rect.contains_iff_mem_Icc] at hr ⊢
    simp only [foldl_add_toOffset, Offset.divide, Offset.zero, Scalar.Exact.zero_eq, zero_add]
    exact ⟨hmean fun q hq => (hr q hq).1, hmean fun q hq => (hr q hq).2⟩

/-- The middle of a segment of paths is in every rectangle that holds the vertices. -/
theorem contains_midpoint {paths : List (List (Point α))} (hr : ∀ q ∈ paths.flatten, r.contains q)
    {s : Segment α} (hs : s ∈ paths.flatMap segments) : r.contains s.midpoint := by
  obtain ⟨path, hpath, hs⟩ := List.mem_flatMap.1 hs
  obtain ⟨hstart, hstop⟩ := mem_of_mem_segments hs
  have hhalf : (Scalar.ofNat 1 / Scalar.ofNat 2 : α) ∈ Set.Icc 0 1 := by
    rw [Scalar.Exact.ofNat_eq, Scalar.Exact.ofNat_eq]
    norm_num
  exact Rect.contains_lerp (hr _ (List.mem_flatten_of_mem hpath hstart))
    (hr _ (List.mem_flatten_of_mem hpath hstop)) hhalf

/-- The mean of the middles of segments is in every rectangle that holds the vertices. -/
theorem contains_of_linesCentroid? (hlength : ∀ s, 0 ≤ length s) {paths : List (List (Point α))}
    (h : linesCentroid? length paths = some p) (hr : ∀ q ∈ paths.flatten, r.contains q) :
    r.contains p := by
  simp only [linesCentroid?, foldl_add_midpoint, Offset.zero, Scalar.Exact.zero_eq, zero_add] at h
  split at h
  · next hpos =>
    obtain rfl := Option.some_inj.1 h
    have hmiddle := fun s (hs : s ∈ paths.flatMap segments) =>
      Rect.contains_iff_mem_Icc.1 (contains_midpoint hr hs)
    rw [Rect.contains_iff_mem_Icc]
    exact ⟨weightedMean_mem_Icc (fun s hs => (hmiddle s hs).1) (fun s _ => hlength s) hpos,
      weightedMean_mem_Icc (fun s hs => (hmiddle s hs).2) (fun s _ => hlength s) hpos⟩
  · obtain ⟨path, hpath, hp⟩ := List.exists_of_findSome?_eq_some h
    exact hr p (List.mem_flatten_of_mem hpath (List.mem_of_head? hp))

end

/-! ## Geometries without areas -/

namespace Geometry

/-- The geometry consists of points and paths. -/
inductive IsAreaFree {α : Type u} : Geometry α → Prop where
  | point (p : Point α) : IsAreaFree (.point p)
  | lineString (line : LineString α) : IsAreaFree (.lineString line)
  | multiPoint (parts : List (Point α)) : IsAreaFree (.multiPoint parts)
  | multiLineString (parts : List (LineString α)) : IsAreaFree (.multiLineString parts)
  | collection {members : List (Geometry α)} (h : ∀ member ∈ members, IsAreaFree member) :
    IsAreaFree (.collection members)

/-- A collection has no areas when none of its members has. -/
theorem isAreaFree_collection {α : Type u} {members : List (Geometry α)} :
    (collection members).IsAreaFree ↔ ∀ member ∈ members, member.IsAreaFree :=
  ⟨fun h => by cases h; assumption, .collection⟩

/-- The point that stands for several geometries is that of the first one that has one. -/
theorem firstCentroidBy?_eq_findSome? {α : Type u} [Scalar α] (length : Segment α → α)
    (members : List (Geometry α)) :
    firstCentroidBy? length members = members.findSome? (centroidBy? length) := by
  induction members with
  | nil => simp [firstCentroidBy?]
  | cons member rest ih =>
    rw [firstCentroidBy?, ih, List.findSome?_cons]
    cases centroidBy? length member <;> rfl

/-- The point that stands for points and paths is in every rectangle that holds them. -/
theorem IsAreaFree.contains {length : Segment α → α} (hlength : ∀ s, 0 ≤ length s)
    {g : Geometry α} (hg : g.IsAreaFree) {r : Rect α} (hr : ∀ q ∈ g.points, r.contains q)
    {p : Point α} (h : g.centroidBy? length = some p) : r.contains p := by
  induction hg with
  | point q =>
    rw [centroidBy?, Option.some_inj] at h
    exact hr p (by simp [h])
  | lineString line =>
    rw [centroidBy?] at h
    obtain ⟨distance, hplace⟩ := exists_isOnPath_of_lineCentroid? h
    exact hplace.contains (by simpa using hr)
  | multiPoint parts =>
    rw [centroidBy?] at h
    exact contains_of_pointsCentroid? h (by simpa using hr)
  | multiLineString parts =>
    rw [centroidBy?] at h
    refine contains_of_linesCentroid? hlength h ?_
    rwa [points_multiLineString, List.flatMap_def] at hr
  | collection _ ih =>
    rw [centroidBy?, firstCentroidBy?_eq_findSome?] at h
    obtain ⟨member, hmember, hp⟩ := List.exists_of_findSome?_eq_some h
    refine ih member hmember (fun q hq => hr q ?_) hp
    rw [points_collection, List.mem_flatMap]
    exact ⟨member, hmember, hq⟩

/-- The envelope of a geometry of points and paths holds the point that stands for it. For a
collection this is the point of the first member that has one. -/
theorem contains_centroidBy? {length : Segment α → α} (hlength : ∀ s, 0 ≤ length s)
    {g : Geometry α} (hg : g.IsAreaFree) :
    (∀ p, g.centroidBy? length = some p → (Envelope.ofGeometry g).contains p) ∧
      ∀ members : List (Geometry α),
        (collection members).centroidBy? length = members.findSome? (centroidBy? length) := by
  refine ⟨fun p h => ?_, fun members => ?_⟩
  · have hne : g.points ≠ [] := by
      intro hnil
      have houtline : g.outline = [] := List.subset_nil.1 (hnil ▸ g.outline_subset)
      rw [(centroidBy?_eq_none_iff length (lt_irrefl _) g).2 houtline] at h
      cases h
    obtain ⟨q, hq⟩ := List.exists_mem_of_ne_nil _ hne
    have hpoints := fun q (hq : q ∈ g.points) => Envelope.contains_ofGeometry hq
    have hq := hpoints q hq
    unfold Envelope.contains at hpoints hq ⊢
    cases hrect : (Envelope.ofGeometry g).rect with
    | none => simp [hrect] at hq
    | some r =>
      rw [hrect] at hpoints
      exact hg.contains hlength hpoints h
  · rw [centroidBy?, firstCentroidBy?_eq_findSome?]

/-- Members without points in front of two paths and a point. -/
def trail : Geometry ℚ :=
  .collection [.collection [], .multiPoint [], .collection [
    .multiLineString [{ points := [{ x := 0, y := 0 }, { x := 4, y := 0 }] },
      { points := [{ x := 0, y := 10 }, { x := 0, y := 11 }] }],
    .point { x := 9, y := 9 }]]

/-- Members without points are passed over, and the next one decides. Its point lies between its two
paths and in the envelope of the whole collection. -/
theorem contains_centroidBy?_trail :
    (∀ s, 0 ≤ detour s) ∧ trail.IsAreaFree ∧
      trail.centroidBy? detour = some { x := 8 / 5, y := 21 / 10 } ∧
      (Envelope.ofGeometry trail).contains { x := 8 / 5, y := 21 / 10 } := by
  have hlength : ∀ s, 0 ≤ detour s := fun s => by unfold detour; positivity
  have hfree : trail.IsAreaFree := by
    simp only [trail, isAreaFree_collection, List.forall_mem_cons]
    exact ⟨by simp, .multiPoint _, ⟨.multiLineString _, .point _, by simp⟩, by simp⟩
  have hcentroid : trail.centroidBy? detour = some { x := 8 / 5, y := 21 / 10 } := by
    norm_num [trail, centroidBy?, firstCentroidBy?, pointsCentroid?, linesCentroid?, segments,
      detour, Segment.midpoint, Segment.pointAt, Point.lerp, Point.toOffset, Offset.zero,
      Offset.scale, Offset.divide]
  exact ⟨hlength, hfree, hcentroid, (contains_centroidBy? hlength hfree).1 _ hcentroid⟩

end Geometry

end Cartouche
