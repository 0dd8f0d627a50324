import Cartouche.Plane.Segment

/-!
# Paths and their segments

The segments of a path are its consecutive points. A place between two segments of a path is a place
between two of its points (`exists_of_segments_eq_append`), and the ends of its segments are points
of the path.
-/

namespace Cartouche

variable {α : Type u}

/-- One more point adds the segment to it. -/
theorem segments_concat (front : List (Point α)) (p q : Point α) :
    segments (front ++ [p, q]) = segments (front ++ [p]) ++ [⟨p, q⟩] := by
  induction front with
  | nil => rfl
  | cons first rest ih =>
    cases rest with
    | nil => rfl
    | cons second rest => exact congrArg (⟨first, second⟩ :: ·) ih

/-- The segments of a path the other way round. -/
theorem segments_reverse (points : List (Point α)) :
    segments points.reverse = ((segments points).map fun s => ⟨s.stop, s.start⟩).reverse := by
  match points with
  | [] => rfl
  | [p] => rfl
  | p :: q :: rest =>
    have hlast : (p :: q :: rest).reverse = rest.reverse ++ [q, p] := by simp
    have hrest : (q :: rest).reverse = rest.reverse ++ [q] := by simp
    rw [hlast, segments_concat, ← hrest, segments_reverse (q :: rest), segments, List.map_cons,
      List.reverse_cons]

/-- The segments of a path whose points are mapped are mapped segments. -/
theorem segments_map {β : Type v} (f : Point α → Point β) (points : List (Point α)) :
    segments (points.map f) = (segments points).map fun s => ⟨f s.start, f s.stop⟩ := by
  match points with
  | [] => rfl
  | [p] => rfl
  | p :: q :: rest => exact congrArg (⟨f p, f q⟩ :: ·) (segments_map f (q :: rest))

/-- The ends of a segment of a path are consecutive points of it, and the segments in front of it
are those of the points up to its start. -/
theorem exists_of_segments_eq_append {points : List (Point α)} {before after : List (Segment α)}
    {s : Segment α} (h : segments points = before ++ s :: after) :
    ∃ front back, points = front ++ s.start :: s.stop :: back ∧
      segments (front ++ [s.start]) = before := by
  induction before generalizing points with
  | nil =>
    match points, h with
    | p :: q :: rest, h =>
      obtain ⟨rfl, -⟩ := List.cons_eq_cons.1 h
      exact ⟨[], rest, rfl, rfl⟩
  | cons first before ih =>
    match points, h with
    | p :: q :: rest, h =>
      have hsplit := List.cons_eq_cons.1 h
      obtain ⟨front, back, hpoints, hbefore⟩ := ih hsplit.2
      refine ⟨p :: front, back, by rw [hpoints]; rfl, ?_⟩
      have hq : segments (p :: (front ++ [s.start])) = ⟨p, q⟩ :: segments (front ++ [s.start]) := by
        cases front with
        | nil =>
          obtain ⟨rfl, -⟩ := List.cons_eq_cons.1 hpoints
          rfl
        | cons second front =>
          obtain ⟨rfl, -⟩ := List.cons_eq_cons.1 hpoints
          rfl
      rw [List.cons_append, hq, hbefore, hsplit.1]

/-- The ends of a segment of a path are points of the path. -/
theorem mem_of_mem_segments {points : List (Point α)} {s : Segment α} (h : s ∈ segments points) :
    s.start ∈ points ∧ s.stop ∈ points := by
  obtain ⟨before, after, hsplit⟩ := List.append_of_mem h
  obtain ⟨front, back, rfl, -⟩ := exists_of_segments_eq_append hsplit
  exact ⟨by simp, by simp⟩

/-- The segments of a path join its consecutive points. -/
theorem mem_segments_iff {points : List (Point α)} {s : Segment α} :
    s ∈ segments points ↔ [s.start, s.stop] <:+: points := by
  constructor
  · intro h
    obtain ⟨before, after, hsplit⟩ := List.append_of_mem h
    obtain ⟨front, back, rfl, -⟩ := exists_of_segments_eq_append hsplit
    exact ⟨front, back, by simp⟩
  · rintro ⟨front, back, rfl⟩
    induction front with
    | nil => exact List.mem_cons_self
    | cons first rest ih =>
      cases rest with
      | nil => exact List.mem_cons_of_mem _ ih
      | cons second rest => exact List.mem_cons_of_mem _ ih

/-- The points of a path with segments are ends of them. -/
theorem exists_segment_of_mem {first second p : Point α} {rest : List (Point α)}
    (h : p ∈ first :: second :: rest) :
    ∃ s ∈ segments (first :: second :: rest), p = s.start ∨ p = s.stop := by
  induction rest generalizing first second with
  | nil => exact ⟨⟨first, second⟩, List.mem_cons_self, by simpa using h⟩
  | cons third rest ih =>
    rcases List.mem_cons.1 h with rfl | h
    · exact ⟨⟨p, second⟩, List.mem_cons_self, .inl rfl⟩
    · obtain ⟨s, hs, hp⟩ := ih h
      exact ⟨s, List.mem_cons_of_mem _ hs, hp⟩

end Cartouche
