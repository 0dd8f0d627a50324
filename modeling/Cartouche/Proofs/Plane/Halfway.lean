import Mathlib.Algebra.Order.BigOperators.Group.List
import Mathlib.Algebra.Order.Field.Rat
import Mathlib.Tactic.Linarith
import Mathlib.Tactic.Positivity
import Cartouche.Plane.Centroid
import Cartouche.Proofs.Plane.Exact
import Cartouche.Proofs.Plane.Path

/-!
# Half way along a path

In exact arithmetic, and for any lengths of segments, the walk along a path never has more behind it
than half of the length (`add_sum_le_of_walkTo?_eq_none`). So it ends at a vertex or inside a
segment (`walkTo?_eq_some`), it divides by the length of a segment only where that is positive
(`IsLeftAt.length_pos`), and the point it finds is half way along the path
(`lineCentroid?_isHalfway`).
-/

namespace Cartouche

open scoped Scalar.Exact

variable {α : Type u} [Field α] [LinearOrder α]

/-- The length of a path, for given lengths of segments. -/
def pathLength (length : Segment α → α) (points : List (Point α)) : α :=
  ((segments points).map length).sum

/-- A place on a path and its distance from the first vertex along the path: a vertex, or a fraction
of the way between two consecutive ones. -/
inductive IsOnPath (length : Segment α → α) (points : List (Point α)) : Point α → α → Prop where
  | vertex {front back : List (Point α)} {p : Point α} (h : points = front ++ p :: back) :
    IsOnPath length points p (pathLength length (front ++ [p]))
  | inside {before after : List (Segment α)} {s : Segment α} {fraction : α}
    (h : segments points = before ++ s :: after) (hlow : 0 ≤ fraction) (hhigh : fraction ≤ 1) :
    IsOnPath length points (s.start.lerp s.stop fraction)
      ((before.map length).sum + fraction * length s)

/-- The walk passes all segments in front of a segment and comes to an end inside of it: it goes
beyond the given distance there, and not to a vertex that is near enough. -/
structure IsLeftAt (length : Segment α → α) (half : α) (before : List (Segment α))
    (s : Segment α) : Prop where
  passed : walkTo? length half 0 before = none
  notNear : ¬ |(before.map length).sum + length s - half| ≤ centroidTolerance
  beyond : half < (before.map length).sum + length s

/-! ## The walk -/

section

variable {length : Segment α → α} {half walked : α}

/-- One step of the walk. -/
theorem walkTo?_cons (s : Segment α) (rest : List (Segment α)) :
    walkTo? length half walked (s :: rest) =
      if |walked + length s - half| ≤ centroidTolerance then some s.stop
      else if half < walked + length s then some (s.pointAt ((half - walked) / length s))
      else walkTo? length half (walked + length s) rest := rfl

/-- A walk goes on where it did not end. -/
theorem walkTo?_append (before rest : List (Segment α)) :
    walkTo? length half walked (before ++ rest) =
      (walkTo? length half walked before).or
        (walkTo? length half (walked + (before.map length).sum) rest) := by
  induction before generalizing walked with
  | nil => simp [walkTo?]
  | cons s before ih =>
    rw [List.cons_append, walkTo?_cons, walkTo?_cons, List.map_cons, List.sum_cons]
    split
    · rfl
    · split
      · rfl
      · rw [ih, add_assoc]

/-- What was passed is no more than half of the length. -/
theorem add_sum_le_of_walkTo?_eq_none (hwalked : walked ≤ half) {before : List (Segment α)}
    (h : walkTo? length half walked before = none) :
    walked + (before.map length).sum ≤ half := by
  induction before generalizing walked with
  | nil => simpa using hwalked
  | cons s before ih =>
    rw [walkTo?_cons] at h
    split at h
    · cases h
    · split at h
      · cases h
      · next hbeyond =>
        rw [List.map_cons, List.sum_cons, ← add_assoc]
        exact ih (not_lt.1 hbeyond) h

/-- A walk that ends inside a segment ends where the division by its length says. -/
theorem IsLeftAt.walkTo?_eq {before : List (Segment α)} {s : Segment α}
    (h : IsLeftAt length half before s) (after : List (Segment α)) :
    walkTo? length half 0 (before ++ s :: after) =
      some (s.pointAt ((half - (before.map length).sum) / length s)) := by
  rw [walkTo?_append, h.passed, Option.none_or, walkTo?_cons, zero_add, if_neg h.notNear,
    if_pos h.beyond]

variable [IsStrictOrderedRing α]

/-- Half of the length is reached at a vertex or inside a segment, if there is as much. -/
theorem walkTo?_eq_some {path : List (Segment α)} (hwalked : walked ≤ half)
    (hhalf : half < walked + (path.map length).sum) :
    ∃ before s after p, path = before ++ s :: after ∧ walkTo? length half walked path = some p ∧
      ((p = s.stop ∧
          |walked + (before.map length).sum + length s - half| ≤ centroidTolerance) ∨
        ∃ fraction, 0 ≤ fraction ∧ fraction ≤ 1 ∧ p = s.start.lerp s.stop fraction ∧
          walked + (before.map length).sum + fraction * length s = half) := by
  induction path generalizing walked with
  | nil =>
    have : half < walked := by simpa using hhalf
    exact absurd hwalked (not_le.2 this)
  | cons s rest ih =>
    rw [walkTo?_cons]
    by_cases hnear : |walked + length s - half| ≤ centroidTolerance
    · refine ⟨[], s, rest, s.stop, rfl, if_pos hnear, .inl ⟨rfl, ?_⟩⟩
      simpa using hnear
    rw [if_neg hnear]
    by_cases hbeyond : half < walked + length s
    · have hpos : 0 < length s := by linarith
      refine ⟨[], s, rest, _, rfl, if_pos hbeyond, .inr ⟨_, ?_, ?_, rfl, ?_⟩⟩
      · exact div_nonneg (sub_nonneg.2 hwalked) hpos.le
      · rw [div_le_one hpos]
        linarith
      · rw [div_mul_cancel₀ _ hpos.ne']
        simp
    · rw [if_neg hbeyond]
      have hrest : half < walked + length s + (rest.map length).sum := by
        rw [List.map_cons, List.sum_cons, ← add_assoc] at hhalf
        exact hhalf
      obtain ⟨before, s', after, p, rfl, hp, hplace⟩ := ih (not_lt.1 hbeyond) hrest
      refine ⟨s :: before, s', after, p, rfl, hp, ?_⟩
      rw [List.map_cons, List.sum_cons, ← add_assoc]
      exact hplace

/-- A segment inside of which the walk ends has a length. -/
theorem IsLeftAt.length_pos {before : List (Segment α)} {s : Segment α}
    (h : IsLeftAt length half before s) (hhalf : 0 ≤ half) : 0 < length s := by
  have hpassed := add_sum_le_of_walkTo?_eq_none hhalf h.passed
  have hbeyond := h.beyond
  linarith

end

/-! ## The point half way -/

section

variable {length : Segment α → α}

/-- The end of a segment is a vertex, as far along the path as the segments up to it are long. -/
theorem isOnPath_stop {points : List (Point α)} {before after : List (Segment α)} {s : Segment α}
    (h : segments points = before ++ s :: after) :
    IsOnPath length points s.stop ((before.map length).sum + length s) := by
  obtain ⟨front, back, hpoints, hbefore⟩ := exists_of_segments_eq_append h
  have hdistance : pathLength length (front ++ [s.start] ++ [s.stop]) =
      (before.map length).sum + length s := by
    rw [pathLength, List.append_assoc, List.singleton_append, segments_concat, hbefore]
    simp
  rw [← hdistance]
  have hvertex : points = (front ++ [s.start]) ++ s.stop :: back := by
    rw [hpoints, List.append_assoc]
    rfl
  exact .vertex hvertex

/-- A path without length is represented by its first vertex, any other one by the end of a walk. -/
theorem lineCentroid?_cons (first : Point α) (rest : List (Point α)) :
    lineCentroid? length (first :: rest) =
      if pathLength length (first :: rest) ≤ 0 then some first
      else (walkTo? length (pathLength length (first :: rest) / 2) 0 (segments (first :: rest))).or
        (first :: rest).getLast? := by
  simp only [lineCentroid?, pathLength, Scalar.Exact.sum_eq, Scalar.Exact.zero_eq,
    Scalar.Exact.ofNat_eq, Nat.cast_ofNat]
  rfl

variable [IsStrictOrderedRing α]

/-- The length of a path is not negative if those of its segments are not. -/
theorem sum_map_length_nonneg (hlength : ∀ s, 0 ≤ length s) (path : List (Segment α)) :
    0 ≤ (path.map length).sum := by
  refine List.sum_nonneg fun a ha => ?_
  obtain ⟨s, -, rfl⟩ := List.mem_map.1 ha
  exact hlength s

/-- A path without length has no segment inside of which a walk ends. -/
theorem not_isLeftAt_of_pathLength_eq_zero (hlength : ∀ s, 0 ≤ length s)
    {points : List (Point α)} (h : pathLength length points = 0) {before after : List (Segment α)}
    {s : Segment α} (hsplit : segments points = before ++ s :: after) :
    ¬ IsLeftAt length (pathLength length points / 2) before s := by
  intro hleft
  have hbeyond := hleft.beyond
  have hafter := sum_map_length_nonneg hlength after
  rw [h, zero_div] at hbeyond
  rw [pathLength, hsplit, List.map_append, List.sum_append, List.map_cons, List.sum_cons] at h
  linarith

/-- On a path with a length the walk finds a point half way. -/
theorem exists_isOnPath_of_pos {points : List (Point α)} (hpos : 0 < pathLength length points) :
    ∃ p distance, walkTo? length (pathLength length points / 2) 0 (segments points) = some p ∧
      IsOnPath length points p distance ∧
      |distance - pathLength length points / 2| ≤ centroidTolerance := by
  have hless : pathLength length points / 2 < 0 + ((segments points).map length).sum := by
    rw [zero_add]
    exact half_lt_self hpos
  obtain ⟨before, s, after, p, hsplit, hwalk, ⟨rfl, hnear⟩ | ⟨fraction, hlow, hhigh, rfl, hhalf⟩⟩ :=
    walkTo?_eq_some (half_pos hpos).le hless
  · rw [zero_add] at hnear
    exact ⟨s.stop, _, hwalk, isOnPath_stop hsplit, hnear⟩
  · refine ⟨_, _, hwalk, .inside hsplit hlow hhigh, ?_⟩
    rw [zero_add] at hhalf
    rw [hhalf, sub_self, abs_zero]
    simp [centroidTolerance]

/-- Every path has a point half way along it. It is a vertex or lies between two consecutive ones,
and its distance from the first vertex along the path is half of the length of the path up to the
tolerance. It is the first vertex of a path without length; on any other path the walk finds it, so
that the last vertex never has to stand in. And where the walk ends inside a segment, the length by
which it divides is not zero. -/
theorem lineCentroid?_isHalfway (hlength : ∀ s, 0 ≤ length s) {points : List (Point α)}
    (hpoints : points ≠ []) :
    ∃ p distance, lineCentroid? length points = some p ∧ IsOnPath length points p distance ∧
      |distance - pathLength length points / 2| ≤ 1 / 1000000 ∧
      (pathLength length points = 0 → points.head? = some p) ∧
      (pathLength length points ≠ 0 →
        walkTo? length (pathLength length points / 2) 0 (segments points) = some p) ∧
      ∀ before s after, segments points = before ++ s :: after →
        IsLeftAt length (pathLength length points / 2) before s →
          length s ≠ 0 ∧
            p = s.pointAt
              ((pathLength length points / 2 - (before.map length).sum) / length s) := by
  obtain ⟨first, rest, rfl⟩ := List.exists_cons_of_ne_nil hpoints
  have htolerance : (centroidTolerance : α) = 1 / 1000000 := by simp [centroidTolerance]
  have hnonneg : 0 ≤ pathLength length (first :: rest) := sum_map_length_nonneg hlength _
  rw [lineCentroid?_cons]
  rcases hnonneg.eq_or_lt with hzero | hpos
  · have hvertex : first :: rest = [] ++ first :: rest := rfl
    have hfirst : IsOnPath length (first :: rest) first 0 := .vertex hvertex
    refine ⟨first, 0, if_pos hzero.ge, hfirst, ?_, fun _ => rfl, fun h => absurd hzero.symm h, ?_⟩
    · rw [← hzero]
      norm_num
    · intro before s after hsplit hleft
      exact absurd hleft (not_isLeftAt_of_pathLength_eq_zero hlength hzero.symm hsplit)
  · obtain ⟨p, distance, hwalk, hplace, hnear⟩ := exists_isOnPath_of_pos hpos
    rw [if_neg (not_le.2 hpos), hwalk]
    refine ⟨p, distance, rfl, hplace, htolerance ▸ hnear, fun h => absurd h hpos.ne', fun _ => rfl,
      ?_⟩
    intro before s after hsplit hleft
    refine ⟨(hleft.length_pos (half_pos hpos).le).ne', ?_⟩
    rw [hsplit, hleft.walkTo?_eq] at hwalk
    exact (Option.some_inj.1 hwalk).symm

/-- The length of a segment along the axes. -/
def detour (s : Segment ℚ) : ℚ := |s.stop.x - s.start.x| + |s.stop.y - s.start.y|

/-- A path around a corner with a vertex that is repeated. -/
def corner : List (Point ℚ) :=
  [{ x := 0, y := 0 }, { x := 2, y := 0 }, { x := 2, y := 0 }, { x := 2, y := 6 }]

/-- The walk around the corner is left inside the last segment. -/
theorem isLeftAt_corner :
    IsLeftAt detour 4 [⟨⟨0, 0, none⟩, ⟨2, 0, none⟩⟩, ⟨⟨2, 0, none⟩, ⟨2, 0, none⟩⟩]
      ⟨⟨2, 0, none⟩, ⟨2, 6, none⟩⟩ where
  passed := by norm_num [walkTo?_cons, walkTo?, detour, centroidTolerance]
  notNear := by norm_num [detour, centroidTolerance]
  beyond := by norm_num [detour]

/-- Half of a way around a corner, with a measure that counts both directions by themselves. -/
theorem lineCentroid?_isHalfway_corner :
    (∀ s, 0 ≤ detour s) ∧ corner ≠ [] ∧ pathLength detour corner = 8 ∧
      lineCentroid? detour corner = some { x := 2, y := 2 } := by
  have hlength : ∀ s, 0 ≤ detour s := fun s => by unfold detour; positivity
  have hcorner : corner ≠ [] := List.cons_ne_nil _ _
  have htotal : pathLength detour corner = 8 := by
    norm_num [pathLength, corner, segments, detour]
  have hhalf : pathLength detour corner / 2 = 4 := by
    rw [htotal]
    norm_num
  obtain ⟨p, distance, hp, -, -, -, -, hinside⟩ :=
    lineCentroid?_isHalfway hlength hcorner
  rw [hhalf] at hinside
  obtain ⟨-, rfl⟩ := hinside _ _ [] rfl isLeftAt_corner
  refine ⟨hlength, hcorner, htotal, hp.trans ?_⟩
  norm_num [Segment.pointAt, Point.lerp, detour]

end

end Cartouche
