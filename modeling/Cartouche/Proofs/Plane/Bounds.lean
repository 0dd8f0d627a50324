import Mathlib.Order.Bounds.Basic
import Cartouche.Plane.Rect
import Cartouche.Proofs.Number.Order

/-!
# Least boxes

`Envelope.IsTight e points` says that an envelope is the least box around points. What an envelope
was widened to, point by point, is tight as long as the coordinates are finite
(`isTight_foldl_insert`), and tight envelopes around the same points have bounds of the same ranks
(`IsTight.sameRanks`): up to the sign of zero the order of the points leaves no trace.
-/

namespace Cartouche

open Binary64 (rank lt_iff_rank_lt le_iff_rank_le isNaN_of_isFinite)

/-- The coordinates in the plane are finite if all coordinates are. -/
theorem Point.isFinite_x_y {p : Point Float} (h : p.isFinite) : p.x.isFinite ∧ p.y.isFinite := by
  simp only [Point.isFinite, Bool.and_eq_true] at h
  exact h.1

namespace Rect

/-- All bounds are finite. -/
structure IsFinite (r : Rect Float) : Prop where
  xMin : r.xMin.isFinite
  yMin : r.yMin.isFinite
  xMax : r.xMax.isFinite
  yMax : r.yMax.isFinite

/-- A finite point has a finite rectangle. -/
theorem isFinite_ofPoint {p : Point Float} (h : p.isFinite) : (Rect.ofPoint p).IsFinite :=
  ⟨(p.isFinite_x_y h).1, (p.isFinite_x_y h).2, (p.isFinite_x_y h).1, (p.isFinite_x_y h).2⟩

/-- The lesser one of two doubles has the lesser rank. -/
theorem rank_lesser {a b : Float} (ha : a.isFinite) (hb : b.isFinite) :
    rank (if a < b then a else b) = min (rank a) (rank b) := by
  have h := lt_iff_rank_lt (isNaN_of_isFinite ha) (isNaN_of_isFinite hb)
  split
  · next hlt =>
    have := h.1 hlt
    omega
  · next hlt =>
    have := mt h.2 hlt
    omega

/-- The greater one of two doubles has the greater rank. -/
theorem rank_greater {a b : Float} (ha : a.isFinite) (hb : b.isFinite) :
    rank (if b < a then a else b) = max (rank a) (rank b) := by
  have h := lt_iff_rank_lt (isNaN_of_isFinite hb) (isNaN_of_isFinite ha)
  split
  · next hlt =>
    have := h.1 hlt
    omega
  · next hlt =>
    have := mt h.2 hlt
    omega

/-- A bound of a merged rectangle is a bound of one of the two. -/
theorem merge_bounds (r s : Rect Float) :
    ((r.merge s).xMin = r.xMin ∨ (r.merge s).xMin = s.xMin) ∧
      ((r.merge s).yMin = r.yMin ∨ (r.merge s).yMin = s.yMin) ∧
      ((r.merge s).xMax = r.xMax ∨ (r.merge s).xMax = s.xMax) ∧
      ((r.merge s).yMax = r.yMax ∨ (r.merge s).yMax = s.yMax) := by
  simp only [merge]
  refine ⟨?_, ?_, ?_, ?_⟩ <;> split <;> simp

/-- Merging invents no bounds: each bound of the merged rectangle is one of the two. -/
theorem IsFinite.merge {r s : Rect Float} (hr : r.IsFinite) (hs : s.IsFinite) :
    (r.merge s).IsFinite := by
  obtain ⟨h₁, h₂, h₃, h₄⟩ := merge_bounds r s
  constructor
  · rcases h₁ with h | h <;> rw [h]
    · exact hr.xMin
    · exact hs.xMin
  · rcases h₂ with h | h <;> rw [h]
    · exact hr.yMin
    · exact hs.yMin
  · rcases h₃ with h | h <;> rw [h]
    · exact hr.xMax
    · exact hs.xMax
  · rcases h₄ with h | h <;> rw [h]
    · exact hr.yMax
    · exact hs.yMax

/-- The bounds of a merged rectangle are the least and the greatest ones. -/
theorem rank_merge {r s : Rect Float} (hr : r.IsFinite) (hs : s.IsFinite) :
    rank (r.merge s).xMin = min (rank r.xMin) (rank s.xMin) ∧
      rank (r.merge s).yMin = min (rank r.yMin) (rank s.yMin) ∧
      rank (r.merge s).xMax = max (rank r.xMax) (rank s.xMax) ∧
      rank (r.merge s).yMax = max (rank r.yMax) (rank s.yMax) :=
  ⟨rank_lesser hr.xMin hs.xMin, rank_lesser hr.yMin hs.yMin, rank_greater hr.xMax hs.xMax,
    rank_greater hr.yMax hs.yMax⟩

/-- A point lies in a rectangle when the ranks of its coordinates lie between those of the bounds.
-/
theorem contains_iff {r : Rect Float} {p : Point Float} (hr : r.IsFinite) (hp : p.isFinite) :
    r.contains p ↔ rank r.xMin ≤ rank p.x ∧ rank p.x ≤ rank r.xMax ∧
      rank r.yMin ≤ rank p.y ∧ rank p.y ≤ rank r.yMax := by
  have hx := isNaN_of_isFinite (p.isFinite_x_y hp).1
  have hy := isNaN_of_isFinite (p.isFinite_x_y hp).2
  rw [← le_iff_rank_le (isNaN_of_isFinite hr.xMin) hx,
    ← le_iff_rank_le hx (isNaN_of_isFinite hr.xMax),
    ← le_iff_rank_le (isNaN_of_isFinite hr.yMin) hy,
    ← le_iff_rank_le hy (isNaN_of_isFinite hr.yMax)]
  simp only [contains, Bool.and_eq_true, decide_eq_true_eq, and_assoc]

/-- The bounds are equal up to the sign of zero. -/
structure SameRanks (r s : Rect Float) : Prop where
  xMin : rank r.xMin = rank s.xMin
  yMin : rank r.yMin = rank s.yMin
  xMax : rank r.xMax = rank s.xMax
  yMax : rank r.yMax = rank s.yMax

end Rect

namespace Envelope

/-- The envelope is the least box around points: it holds all of them, each of its bounds is a
coordinate of one of them, and it is empty only when there are none. -/
structure IsTight (e : Envelope Float) (points : List (Point Float)) : Prop where
  contains : ∀ p ∈ points, e.contains p
  attained : ∀ r, e.rect = some r →
    (∃ p ∈ points, p.x = r.xMin) ∧ (∃ p ∈ points, p.y = r.yMin) ∧
      (∃ p ∈ points, p.x = r.xMax) ∧ ∃ p ∈ points, p.y = r.yMax
  isEmpty_iff : e.isEmpty ↔ points = []

/-- Without points the empty envelope is the tight one. -/
theorem isTight_empty : (empty : Envelope Float).IsTight [] where
  contains := by simp
  attained := by simp [empty]
  isEmpty_iff := by simp [empty, isEmpty]

/-- A tight envelope around finite points has finite bounds. -/
theorem IsTight.isFinite {e : Envelope Float} {points : List (Point Float)} (h : e.IsTight points)
    (hfin : ∀ p ∈ points, p.isFinite) {r : Rect Float} (hr : e.rect = some r) : r.IsFinite := by
  obtain ⟨⟨p, hp, hx⟩, ⟨q, hq, hy⟩, ⟨p', hp', hx'⟩, q', hq', hy'⟩ := h.attained r hr
  constructor
  · exact hx ▸ (p.isFinite_x_y (hfin p hp)).1
  · exact hy ▸ (q.isFinite_x_y (hfin q hq)).2
  · exact hx' ▸ (p'.isFinite_x_y (hfin p' hp')).1
  · exact hy' ▸ (q'.isFinite_x_y (hfin q' hq')).2

/-- The points lie between the bounds of a tight envelope. -/
theorem IsTight.inside {e : Envelope Float} {points : List (Point Float)} (h : e.IsTight points)
    (hfin : ∀ p ∈ points, p.isFinite) {r : Rect Float} (hr : e.rect = some r) {p : Point Float}
    (hp : p ∈ points) : rank r.xMin ≤ rank p.x ∧ rank p.x ≤ rank r.xMax ∧
      rank r.yMin ≤ rank p.y ∧ rank p.y ≤ rank r.yMax := by
  have hc := h.contains p hp
  rw [Envelope.contains, hr, Option.any_some] at hc
  exact (Rect.contains_iff (h.isFinite hfin hr) (hfin p hp)).1 hc

/-- One more finite point keeps a list of points finite. -/
theorem forall_mem_concat {points : List (Point Float)} (hfin : ∀ p ∈ points, p.isFinite)
    {p : Point Float} (hp : p.isFinite) : ∀ q ∈ points ++ [p], q.isFinite := by
  intro q hq
  rcases List.mem_append.1 hq with hq | hq
  · exact hfin q hq
  · obtain rfl : q = p := by simpa using hq
    exact hp

/-- A bound is still attained after one more point when it is the old bound or the coordinate of the
new point. -/
theorem exists_mem_concat {points : List (Point Float)} {p : Point Float}
    {f : Point Float → Float} {a b : Float} (h : b = a ∨ b = f p) (ha : ∃ q ∈ points, f q = a) :
    ∃ q ∈ points ++ [p], f q = b := by
  rcases h with rfl | rfl
  · obtain ⟨q, hq, hqa⟩ := ha
    exact ⟨q, List.mem_append_left _ hq, hqa⟩
  · exact ⟨p, by simp, rfl⟩

/-- Widening a tight envelope to one more point keeps it tight. -/
theorem IsTight.insert {e : Envelope Float} {points : List (Point Float)} (h : e.IsTight points)
    (hfin : ∀ p ∈ points, p.isFinite) {p : Point Float} (hp : p.isFinite) :
    (e.insert p).IsTight (points ++ [p]) := by
  have hpr := Rect.isFinite_ofPoint hp
  cases hrect : e.rect with
  | none =>
    have hnil : points = [] := h.isEmpty_iff.1 (by simp [isEmpty, hrect])
    subst hnil
    have he : e.insert p = { rect := some (.ofPoint p) } := by
      simp [Envelope.insert, merge, hrect]
    rw [he]
    refine ⟨fun q hq => ?_, fun r hr => ?_, by simp [isEmpty]⟩
    · obtain rfl : q = p := by simpa using hq
      exact (Rect.contains_iff hpr hp).2 (by simp [Rect.ofPoint])
    · obtain rfl : Rect.ofPoint p = r := by simpa using hr
      simp [Rect.ofPoint]
  | some r =>
    have hr := h.isFinite hfin hrect
    have he : e.insert p = { rect := some (r.merge (.ofPoint p)) } := by
      simp [Envelope.insert, merge, hrect]
    obtain ⟨hx, hy, hx', hy'⟩ := Rect.rank_merge hr hpr
    rw [he]
    refine ⟨fun q hq => ?_, fun s hs => ?_, by simp [isEmpty]⟩
    · refine (Rect.contains_iff (hr.merge hpr) (forall_mem_concat hfin hp q hq)).2 ?_
      rw [hx, hy, hx', hy']
      rcases List.mem_append.1 hq with hq | hq
      · have hinside := h.inside hfin hrect hq
        omega
      · obtain rfl : q = p := by simpa using hq
        simp only [Rect.ofPoint]
        omega
    · obtain rfl : r.merge (.ofPoint p) = s := by simpa using hs
      obtain ⟨h₁, h₂, h₃, h₄⟩ := Rect.merge_bounds r (.ofPoint p)
      obtain ⟨a₁, a₂, a₃, a₄⟩ := h.attained r hrect
      exact ⟨exists_mem_concat h₁ a₁, exists_mem_concat h₂ a₂, exists_mem_concat h₃ a₃,
        exists_mem_concat h₄ a₄⟩

/-- Widening to points one after the other keeps an envelope tight. -/
theorem IsTight.foldl_insert {e : Envelope Float} {points : List (Point Float)}
    (h : e.IsTight points) (hfin : ∀ p ∈ points, p.isFinite) {more : List (Point Float)}
    (hmore : ∀ p ∈ more, p.isFinite) : (more.foldl Envelope.insert e).IsTight (points ++ more) := by
  induction more generalizing e points with
  | nil => simpa using h
  | cons p rest ih =>
    have hp : p.isFinite := hmore p (by simp)
    have := ih (h.insert hfin hp) (forall_mem_concat hfin hp) fun q hq => hmore q (by simp [hq])
    rwa [List.append_assoc] at this

/-- What was widened to finite points, starting from nothing, is the least box around them. -/
theorem isTight_foldl_insert {points : List (Point Float)} (hfin : ∀ p ∈ points, p.isFinite) :
    (points.foldl insert empty).IsTight points :=
  isTight_empty.foldl_insert (by simp) hfin

/-! ## The order of the points -/

/-- The bounds of a tight envelope are the least and the greatest coordinates. -/
theorem IsTight.isLeast_isGreatest {e : Envelope Float} {points : List (Point Float)}
    (h : e.IsTight points) (hfin : ∀ p ∈ points, p.isFinite) {r : Rect Float}
    (hr : e.rect = some r) :
    IsLeast ((fun p => rank p.x) '' {p | p ∈ points}) (rank r.xMin) ∧
      IsLeast ((fun p => rank p.y) '' {p | p ∈ points}) (rank r.yMin) ∧
      IsGreatest ((fun p => rank p.x) '' {p | p ∈ points}) (rank r.xMax) ∧
      IsGreatest ((fun p => rank p.y) '' {p | p ∈ points}) (rank r.yMax) := by
  have hinside := fun p (hp : p ∈ points) => h.inside hfin hr hp
  obtain ⟨⟨a, ha, hax⟩, ⟨b, hb, hby⟩, ⟨c, hc, hcx⟩, d, hd, hdy⟩ := h.attained r hr
  refine ⟨⟨⟨a, ha, congrArg rank hax⟩, ?_⟩, ⟨⟨b, hb, congrArg rank hby⟩, ?_⟩,
    ⟨⟨c, hc, congrArg rank hcx⟩, ?_⟩, ⟨⟨d, hd, congrArg rank hdy⟩, ?_⟩⟩
  · rintro _ ⟨p, hp, rfl⟩
    exact (hinside p hp).1
  · rintro _ ⟨p, hp, rfl⟩
    exact (hinside p hp).2.2.1
  · rintro _ ⟨p, hp, rfl⟩
    exact (hinside p hp).2.1
  · rintro _ ⟨p, hp, rfl⟩
    exact (hinside p hp).2.2.2

/-- Tight envelopes around the same points have the same bounds, up to the sign of zero. -/
theorem IsTight.sameRanks {e f : Envelope Float} {points others : List (Point Float)}
    (he : e.IsTight points) (hf : f.IsTight others) (hfin : ∀ p ∈ points, p.isFinite)
    (hmem : ∀ p, p ∈ points ↔ p ∈ others) : Option.Rel Rect.SameRanks e.rect f.rect := by
  have hnil : points = [] ↔ others = [] := by
    simp only [List.eq_nil_iff_forall_not_mem, hmem]
  have hempty : e.isEmpty ↔ f.isEmpty := by
    rw [he.isEmpty_iff, hnil, hf.isEmpty_iff]
  unfold isEmpty at hempty
  cases hr : e.rect with
  | none =>
    cases hs : f.rect with
    | none => exact .none
    | some s => simp [hr, hs] at hempty
  | some r =>
    cases hs : f.rect with
    | none => simp [hr, hs] at hempty
    | some s =>
      have hsame : {p | p ∈ points} = {p | p ∈ others} := Set.ext hmem
      have hfin' : ∀ p ∈ others, p.isFinite := fun p hp => hfin p ((hmem p).2 hp)
      obtain ⟨hx, hy, hx', hy'⟩ := he.isLeast_isGreatest hfin hr
      rw [hsame] at hx hy hx' hy'
      obtain ⟨kx, ky, kx', ky'⟩ := hf.isLeast_isGreatest hfin' hs
      exact .some ⟨hx.unique kx, hy.unique ky, hx'.unique kx', hy'.unique ky'⟩

end Envelope

end Cartouche
