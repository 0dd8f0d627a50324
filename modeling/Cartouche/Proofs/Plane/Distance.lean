import Mathlib.Algebra.Order.Ring.Abs
import Mathlib.Order.Bounds.Basic
import Mathlib.Order.Interval.Set.Basic
import Cartouche.Plane.Line
import Cartouche.Proofs.Plane.Halfway
import Cartouche.Proofs.Plane.Moment

/-!
# Distances from segments and paths

In exact arithmetic the normal from a point to a segment and the way along the segment from its foot
span a right triangle (`Segment.distanceSq_lerp`). So the nearest place of a segment is the one
whose fraction of the way is next to that of the foot (`Segment.isLeast_distanceSq`), and the
nearest segment of a path has its nearest place (`LineString.exists_nearest_segment`). The only
divisor is the square of the length of a segment whose ends are at different places
(`Segment.lengthSq_along_pos`), so it does not matter what a division by zero gives
(`Segment.distanceSq_withDivision`). `LineString.distanceSq?_isLeast` says all of this.
-/

namespace Cartouche

open scoped Scalar.Exact

variable {α : Type u} [Field α] [LinearOrder α]

/-- Exact coordinates with another division. -/
@[reducible] def Scalar.Exact.withDivision (divide : α → α → α) : Scalar α :=
  { (inferInstance : Scalar α) with div := divide }

/-- The places between the ends of a segment, the ends included. -/
def Segment.places (s : Segment α) : Set (Point α) := s.start.lerp s.stop '' Set.Icc 0 1

/-- The places that a path passes: its points, and what lies between consecutive ones. -/
def LineString.places (line : LineString α) : Set (Point α) :=
  {q | q ∈ line.points ∨ ∃ a b, [a, b] <:+: line.points ∧ q ∈ Segment.places ⟨a, b⟩}

/-! ## Points -/

namespace Point

/-- The distance is the same in both directions. -/
theorem distanceSq_comm (p q : Point α) : p.distanceSq q = q.distanceSq p := by
  simp only [distanceSq, sub, Offset.lengthSq]
  ring

/-- No part of the way leads to the start, so the start is one of the places of a segment. -/
theorem distanceSq_lerp_zero (p a b : Point α) : p.distanceSq (a.lerp b 0) = p.distanceSq a := by
  simp [distanceSq, sub, lerp, Offset.lengthSq]

/-- The whole way leads to the stop. -/
theorem distanceSq_lerp_one (p a b : Point α) : p.distanceSq (a.lerp b 1) = p.distanceSq b := by
  simp [distanceSq, sub, lerp, Offset.lengthSq]

/-- Between two points at one place nothing else is passed. -/
theorem distanceSq_lerp_of_samePlace {a b : Point α} (h : a.samePlace b) (p : Point α)
    (fraction : α) : p.distanceSq (a.lerp b fraction) = p.distanceSq a := by
  rw [samePlace_iff, toOffset, toOffset, Offset.mk.injEq] at h
  simp [distanceSq, sub, lerp, Offset.lengthSq, h]

end Point

/-! ## Segments -/

namespace Segment

variable {s : Segment α} {p : Point α}

/-- The way from the start to the stop. -/
def along (s : Segment α) : Offset α := s.stop.sub s.start

/-- The foot of the normal from a point to the line through the segment, as a fraction of the way.
-/
def projection (s : Segment α) (p : Point α) : α :=
  ((p.sub s.start).dx * s.along.dx + (p.sub s.start).dy * s.along.dy) / s.along.lengthSq

/-- The length of the normal, as a multiple of the length of the segment. It is negative on one of
the two sides. -/
def height (s : Segment α) (p : Point α) : α :=
  ((p.sub s.start).dy * s.along.dx - (p.sub s.start).dx * s.along.dy) / s.along.lengthSq

/-- What the algorithm computes, in the terms of this module: the distance of an end if the foot of
the normal does not lie between the ends, and the length of the normal otherwise. -/
theorem distanceSq_eq (s : Segment α) (p : Point α) :
    s.distanceSq p =
      if s.start.samePlace s.stop then s.start.distanceSq p
      else if s.projection p ≤ 0 then s.start.distanceSq p
      else if 1 ≤ s.projection p then s.stop.distanceSq p
      else s.height p * s.height p * s.along.lengthSq := by
  simp only [distanceSq, Scalar.Exact.zero_eq, Scalar.Exact.ofNat_eq, Nat.cast_one]
  rfl

section

variable [IsStrictOrderedRing α]

/-- A segment whose ends are at different places has a length. -/
theorem lengthSq_along_pos (h : ¬ s.start.samePlace s.stop) : 0 < s.along.lengthSq := by
  have hnonneg : 0 ≤ s.along.lengthSq := add_nonneg (mul_self_nonneg _) (mul_self_nonneg _)
  refine hnonneg.lt_of_ne' fun hzero => h ?_
  obtain ⟨hdx, hdy⟩ := mul_self_add_mul_self_eq_zero.1 hzero
  rw [Point.samePlace_iff]
  ext
  · exact (sub_eq_zero.1 hdx).symm
  · exact (sub_eq_zero.1 hdy).symm

/-- The normal from a point and the way from its foot to a place span a right triangle. -/
theorem distanceSq_lerp (h : ¬ s.start.samePlace s.stop) (p : Point α) (fraction : α) :
    p.distanceSq (s.start.lerp s.stop fraction) =
      ((s.projection p - fraction) ^ 2 + s.height p ^ 2) * s.along.lengthSq := by
  have hlength := (lengthSq_along_pos h).ne'
  have hdot : s.projection p * s.along.lengthSq =
      (p.sub s.start).dx * s.along.dx + (p.sub s.start).dy * s.along.dy :=
    div_mul_cancel₀ _ hlength
  have hcross : s.height p * s.along.lengthSq =
      (p.sub s.start).dy * s.along.dx - (p.sub s.start).dx * s.along.dy :=
    div_mul_cancel₀ _ hlength
  refine mul_left_cancel₀ hlength ?_
  calc s.along.lengthSq * p.distanceSq (s.start.lerp s.stop fraction)
      = ((p.sub s.start).dx * s.along.dx + (p.sub s.start).dy * s.along.dy -
            fraction * s.along.lengthSq) ^ 2 +
          ((p.sub s.start).dy * s.along.dx - (p.sub s.start).dx * s.along.dy) ^ 2 := by
        simp only [Point.distanceSq, Point.sub, Point.lerp, Offset.lengthSq, along]
        ring
    _ = s.along.lengthSq *
          (((s.projection p - fraction) ^ 2 + s.height p ^ 2) * s.along.lengthSq) := by
        rw [← hdot, ← hcross]
        ring

/-- The nearer a place is to the foot of the normal, the nearer it is to the point. -/
theorem distanceSq_lerp_le (h : ¬ s.start.samePlace s.stop) {near far : α}
    (hle : |s.projection p - near| ≤ |s.projection p - far|) :
    p.distanceSq (s.start.lerp s.stop near) ≤ p.distanceSq (s.start.lerp s.stop far) := by
  rw [distanceSq_lerp h, distanceSq_lerp h]
  refine mul_le_mul_of_nonneg_right ?_ (lengthSq_along_pos h).le
  exact add_le_add_left (sq_le_sq.2 hle) _

/-- Some place is as far away as the segment, and no other place is nearer. -/
theorem exists_nearest (s : Segment α) (p : Point α) :
    ∃ near ∈ Set.Icc (0 : α) 1, s.distanceSq p = p.distanceSq (s.start.lerp s.stop near) ∧
      ∀ far ∈ Set.Icc (0 : α) 1,
        p.distanceSq (s.start.lerp s.stop near) ≤ p.distanceSq (s.start.lerp s.stop far) := by
  have hzero : (0 : α) ∈ Set.Icc 0 1 := Set.left_mem_Icc.2 zero_le_one
  have hone : (1 : α) ∈ Set.Icc 0 1 := Set.right_mem_Icc.2 zero_le_one
  have hstart : s.start.distanceSq p = p.distanceSq (s.start.lerp s.stop 0) := by
    rw [Point.distanceSq_lerp_zero, Point.distanceSq_comm]
  have hstop : s.stop.distanceSq p = p.distanceSq (s.start.lerp s.stop 1) := by
    rw [Point.distanceSq_lerp_one, Point.distanceSq_comm]
  rw [distanceSq_eq]
  split_ifs with hsame hbefore hbehind
  · refine ⟨0, hzero, hstart, fun far _ => ?_⟩
    rw [Point.distanceSq_lerp_of_samePlace hsame, Point.distanceSq_lerp_of_samePlace hsame]
  · refine ⟨0, hzero, hstart, fun far hfar => distanceSq_lerp_le hsame ?_⟩
    have hfoot : s.projection p - far ≤ s.projection p - 0 := sub_le_sub_left hfar.1 _
    exact abs_le_abs_of_nonpos (by simpa using hbefore) hfoot
  · refine ⟨1, hone, hstop, fun far hfar => distanceSq_lerp_le hsame ?_⟩
    have hfoot : s.projection p - 1 ≤ s.projection p - far := sub_le_sub_left hfar.2 _
    exact abs_le_abs_of_nonneg (sub_nonneg.2 hbehind) hfoot
  · have hinside : s.projection p ∈ Set.Icc 0 1 :=
      ⟨(not_le.1 hbefore).le, (not_le.1 hbehind).le⟩
    refine ⟨s.projection p, hinside, ?_, fun far _ => distanceSq_lerp_le hsame ?_⟩
    · rw [distanceSq_lerp hsame]
      ring
    · rw [sub_self, abs_zero]
      exact abs_nonneg _

/-- The distance from a segment is the least one from its places. -/
theorem isLeast_distanceSq (s : Segment α) (p : Point α) :
    IsLeast (p.distanceSq '' s.places) (s.distanceSq p) := by
  obtain ⟨near, hnear, heq, hleast⟩ := s.exists_nearest p
  refine ⟨⟨_, ⟨near, hnear, rfl⟩, heq.symm⟩, ?_⟩
  rintro _ ⟨_, ⟨far, hfar, rfl⟩, rfl⟩
  rw [heq]
  exact hleast far hfar

/-- The ends of a segment are no nearer than the segment. -/
theorem distanceSq_le_ends (s : Segment α) (p : Point α) :
    s.distanceSq p ≤ p.distanceSq s.start ∧ s.distanceSq p ≤ p.distanceSq s.stop := by
  obtain ⟨-, hleast⟩ := s.isLeast_distanceSq p
  constructor
  · rw [← Point.distanceSq_lerp_zero p s.start s.stop]
    exact hleast ⟨_, ⟨0, Set.left_mem_Icc.2 zero_le_one, rfl⟩, rfl⟩
  · rw [← Point.distanceSq_lerp_one p s.start s.stop]
    exact hleast ⟨_, ⟨1, Set.right_mem_Icc.2 zero_le_one, rfl⟩, rfl⟩

/-- The only divisor is not zero, so any division does that is exact for other divisors. -/
theorem distanceSq_withDivision {divide : α → α → α}
    (hdivide : ∀ a b, b ≠ 0 → divide a b = a / b) (s : Segment α) (p : Point α) :
    @Segment.distanceSq α (Scalar.Exact.withDivision divide) s p = s.distanceSq p := by
  by_cases h : s.start.samePlace s.stop
  · rw [distanceSq_eq, if_pos h]
    exact if_pos h
  · have hdiv (a : α) : divide a s.along.lengthSq = a / s.along.lengthSq :=
      hdivide a _ (lengthSq_along_pos h).ne'
    unfold distanceSq
    refine (if_neg h).trans (Eq.trans ?_ (if_neg h).symm)
    show (if divide _ s.along.lengthSq ≤ _ then _ else if _ ≤ divide _ s.along.lengthSq then _
      else divide _ s.along.lengthSq * divide _ s.along.lengthSq * s.along.lengthSq) = _
    rw [hdiv, hdiv]
    rfl

end

end Segment

/-! ## Paths -/

namespace LineString

variable {line : LineString α} {p : Point α}

/-- In exact arithmetic the lesser distance stands first. -/
theorem nearer_iff {a b : α × Bool} : nearer a b ↔ a.1 < b.1 := by
  simp [nearer, Scalar.isUndefined]

/-- A search that begins with one element ends with one that is not behind any of them. -/
theorem foldl_nearer (a : α × Bool) (rest : List (α × Bool)) :
    rest.foldl (fun best b => if nearer b best then b else best) a ∈ a :: rest ∧
      ∀ b ∈ a :: rest,
        (rest.foldl (fun best b => if nearer b best then b else best) a).1 ≤ b.1 := by
  induction rest generalizing a with
  | nil => simp
  | cons b rest ih =>
    rw [List.foldl_cons]
    split
    · next h =>
      obtain ⟨hmem, hle⟩ := ih b
      refine ⟨List.mem_cons_of_mem _ hmem, List.forall_mem_cons.2 ⟨?_, hle⟩⟩
      exact (hle b List.mem_cons_self).trans (nearer_iff.1 h).le
    · next h =>
      obtain ⟨hmem, hle⟩ := ih a
      obtain ⟨hfirst, hrest⟩ := List.forall_mem_cons.1 hle
      refine ⟨?_, List.forall_mem_cons.2 ⟨hfirst, List.forall_mem_cons.2 ⟨?_, hrest⟩⟩⟩
      · exact List.cons_subset_cons a (List.subset_cons_self b rest) hmem
      · exact hfirst.trans (not_lt.1 (nearer_iff.not.1 h))

/-- The least distance in a list is that of an item, and no item has a lesser one. Any list but the
empty one has such an item. -/
theorem exists_nearest? {items : List (α × Bool)} (h : items ≠ []) :
    ∃ least ∈ items, nearest? items = some least ∧ ∀ b ∈ items, least.1 ≤ b.1 := by
  obtain ⟨a, rest, rfl⟩ := List.exists_cons_of_ne_nil h
  obtain ⟨hmem, hle⟩ := foldl_nearer a rest
  exact ⟨_, hmem, rfl, hle⟩

/-- The distance from a path with segments is that from one of them which is not farther away than
any other. -/
theorem exists_nearest_segment (p first second : Point α) (rest : List (Point α)) :
    ∃ s ∈ segments (first :: second :: rest),
      distanceSq? { points := first :: second :: rest } p = some (s.distanceSq p) ∧
        ∀ other ∈ segments (first :: second :: rest), s.distanceSq p ≤ other.distanceSq p := by
  have hne : (segments (first :: second :: rest)).map
      (fun s => (s.distanceSq p, s.involvesUndefined p)) ≠ [] := List.cons_ne_nil _ _
  obtain ⟨_, hmem, heq, hle⟩ := exists_nearest? hne
  obtain ⟨s, hs, rfl⟩ := List.mem_map.1 hmem
  refine ⟨s, hs, congrArg (Option.map Prod.fst) heq, fun other hother => ?_⟩
  exact hle _ (List.mem_map_of_mem hother)

/-- A path through one point passes nothing else. -/
theorem places_singleton (single : Point α) : places { points := [single] } = {single} := by
  ext q
  constructor
  · rintro (hq | ⟨a, b, hab, -⟩)
    · exact List.mem_singleton.1 hq
    · exact absurd hab.length_le (by simp)
  · rintro rfl
    exact .inl (List.mem_singleton_self q)

/-- The distance from a path through one point is that from the point. -/
theorem distanceSq?_singleton (p single : Point α) :
    distanceSq? { points := [single] } p = some (p.distanceSq single) := by
  have hsame : single.samePlace single := Point.samePlace_iff.2 rfl
  refine congrArg some ?_
  rw [Segment.distanceSq_eq, if_pos hsame, Point.distanceSq_comm]

/-- There is no distance only where there are no points. -/
theorem distanceSq?_eq_none_iff : line.distanceSq? p = none ↔ line.points = [] := by
  obtain ⟨points⟩ := line
  match points with
  | [] => exact ⟨fun _ => rfl, fun _ => rfl⟩
  | [single] => simp [distanceSq?_singleton]
  | first :: second :: rest =>
    obtain ⟨s, -, heq, -⟩ := exists_nearest_segment p first second rest
    simp [heq]

variable [IsStrictOrderedRing α]

/-- The distance from a path is the least one from its places. -/
theorem isLeast_of_distanceSq? {d : α} (h : line.distanceSq? p = some d) :
    IsLeast (p.distanceSq '' line.places) d := by
  obtain ⟨points⟩ := line
  match points with
  | [] => cases h
  | [single] =>
    rw [distanceSq?_singleton] at h
    obtain rfl := Option.some_inj.1 h
    rw [places_singleton, Set.image_singleton]
    exact isLeast_singleton
  | first :: second :: rest =>
    obtain ⟨s, hs, heq, hle⟩ := exists_nearest_segment p first second rest
    obtain rfl := Option.some_inj.1 (heq.symm.trans h)
    obtain ⟨⟨near, hnear, hattained⟩, -⟩ := s.isLeast_distanceSq p
    refine ⟨⟨near, .inr ⟨_, _, mem_segments_iff.1 hs, hnear⟩, hattained⟩, ?_⟩
    rintro _ ⟨q, hq | ⟨a, b, hab, hq⟩, rfl⟩
    · obtain ⟨other, hother, rfl | rfl⟩ := exists_segment_of_mem hq
      · exact (hle other hother).trans (other.distanceSq_le_ends p).1
      · exact (hle other hother).trans (other.distanceSq_le_ends p).2
    · have hother : ⟨a, b⟩ ∈ segments (first :: second :: rest) := mem_segments_iff.2 hab
      exact (hle _ hother).trans ((Segment.isLeast_distanceSq _ p).2 ⟨q, hq, rfl⟩)

/-- The distance from a path does not depend on what division by zero gives, since it is not so for
any of its segments. -/
theorem distanceSq?_withDivision {divide : α → α → α}
    (hdivide : ∀ a b, b ≠ 0 → divide a b = a / b) (line : LineString α) (p : Point α) :
    @LineString.distanceSq? α (Scalar.Exact.withDivision divide) line p = line.distanceSq? p := by
  obtain ⟨points⟩ := line
  have hsame := Segment.distanceSq_withDivision hdivide
  match points with
  | [] => rfl
  | [single] => exact congrArg some (hsame _ p)
  | first :: second :: rest =>
    have hitems : ((fun s => (@Segment.distanceSq α (Scalar.Exact.withDivision divide) s p,
          s.involvesUndefined p)) : Segment α → α × Bool) =
        fun s => (s.distanceSq p, s.involvesUndefined p) :=
      funext fun s => congrArg (·, s.involvesUndefined p) (hsame s p)
    exact congrArg (fun f => (nearest? ((segments (first :: second :: rest)).map f)).map Prod.fst)
      hitems

/-- In exact arithmetic the distance from a segment is the least one from its places, for every
segment, also one without extent: no place is nearer, and one is as near. The only divisor, the
square of the length, is not zero where it divides. A path without points is at no distance from
anywhere, and the distance from any other path is the least one from the places that it passes. It
makes no difference to either of them what a division by zero gives, so there is none. -/
theorem distanceSq?_isLeast (line : LineString α) (p : Point α) :
    (∀ s : Segment α,
      IsLeast (p.distanceSq '' (s.start.lerp s.stop '' Set.Icc 0 1)) (s.distanceSq p) ∧
        (¬ s.start.samePlace s.stop → (s.stop.sub s.start).lengthSq ≠ 0)) ∧
    (line.distanceSq? p = none ↔ line.points = []) ∧
    (∀ d, line.distanceSq? p = some d ↔ IsLeast (p.distanceSq '' line.places) d) ∧
    ∀ divide : α → α → α, (∀ a b, b ≠ 0 → divide a b = a / b) →
      (∀ s, @Segment.distanceSq α (Scalar.Exact.withDivision divide) s p = s.distanceSq p) ∧
        @LineString.distanceSq? α (Scalar.Exact.withDivision divide) line p =
          line.distanceSq? p := by
  refine ⟨fun s => ⟨s.isLeast_distanceSq p, fun h => (Segment.lengthSq_along_pos h).ne'⟩,
    distanceSq?_eq_none_iff, fun d => ⟨isLeast_of_distanceSq?, fun hleast => ?_⟩,
    fun divide hdivide => ⟨fun s => Segment.distanceSq_withDivision hdivide s p,
      distanceSq?_withDivision hdivide line p⟩⟩
  cases h : line.distanceSq? p with
  | none =>
    obtain ⟨⟨q, hq | ⟨a, b, hab, -⟩, -⟩, -⟩ := hleast
    · simp [distanceSq?_eq_none_iff.1 h] at hq
    · simp [distanceSq?_eq_none_iff.1 h] at hab
  | some other => rw [(isLeast_of_distanceSq? h).unique hleast]

/-- A division that gives one where the divisor is zero. -/
def divideOrOne (a b : ℚ) : ℚ := if b = 0 then 1 else a / b

/-- A point beside the last segment of the path around a corner. -/
def outlook : Point ℚ := { x := 5, y := 3 }

/-- The distance from a path in which a vertex is repeated, with a division that gives one by zero.
The repeated vertex is a segment without extent, and the division is not used for it. -/
theorem distanceSq?_isLeast_corner :
    (∀ a b, b ≠ 0 → divideOrOne a b = a / b) ∧
      @distanceSq? ℚ (Scalar.Exact.withDivision divideOrOne) { points := corner } outlook = some 9 ∧
      IsLeast (outlook.distanceSq '' places { points := corner }) 9 := by
  have hdivide : ∀ a b, b ≠ 0 → divideOrOne a b = a / b := fun a b hb => if_neg hb
  have hnine : distanceSq? { points := corner } outlook = some 9 := by decide +kernel
  obtain ⟨-, -, hleast, hany⟩ := distanceSq?_isLeast { points := corner } outlook
  exact ⟨hdivide, (hany divideOrOne hdivide).2.trans hnine, (hleast 9).1 hnine⟩

end LineString

end Cartouche
