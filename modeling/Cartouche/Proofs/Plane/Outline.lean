import Cartouche.Plane.Centroid

/-!
# Geometries without a representative point

A point that stands for a geometry is made from the points of its outline, which are all but those
in holes. So there is none exactly when the outline is empty (`centroidBy?_eq_none_iff`), for any
lengths of segments and whatever zero areas and lengths there are. A geometry without points has no
outline. The converse fails for geometries all of whose points are in holes, and for no others
(`centroid?_eq_none_iff_isEmpty`).
-/

namespace Cartouche

variable {α : Type u} [Scalar α]

/-! ## The parts of geometries -/

/-- The first points of several paths have a first one unless all paths are empty. -/
theorem findSome?_head?_eq_none_iff {β : Type v} {paths : List (List β)} :
    paths.findSome? List.head? = none ↔ paths.flatten = [] := by
  rw [List.findSome?_eq_none_iff, List.flatten_eq_nil_iff]
  constructor
  · intro h path hpath
    exact List.head?_eq_none_iff.1 (h path hpath)
  · intro h path hpath
    exact List.head?_eq_none_iff.2 (h path hpath)

/-- Points have a mean unless there are none. -/
theorem pointsCentroid?_eq_none_iff {points : List (Point α)} :
    pointsCentroid? points = none ↔ points = [] := by
  unfold pointsCentroid?
  split
  · next h => exact iff_of_true rfl (List.isEmpty_iff.1 h)
  · next h => exact iff_of_false (by simp) (mt List.isEmpty_iff.2 h)

/-- A path has a point half way along it, be it only the last one. -/
theorem lineCentroid?_eq_none_iff {length : Segment α → α} {points : List (Point α)} :
    lineCentroid? length points = none ↔ points = [] := by
  cases points with
  | nil => exact iff_of_true rfl rfl
  | cons first rest =>
    refine iff_of_false ?_ (List.cons_ne_nil first rest)
    simp only [lineCentroid?]
    split
    · simp
    · rw [Option.or_eq_none_iff]
      rintro ⟨-, hlast⟩
      exact List.cons_ne_nil first rest (List.getLast?_eq_none_iff.1 hlast)

section

variable (hzero : ¬ (Scalar.zero : α) < Scalar.zero)

include hzero

/-- Paths have a mean, or else a first point. -/
theorem linesCentroid?_eq_none_iff {length : Segment α → α} {paths : List (List (Point α))} :
    linesCentroid? length paths = none ↔ paths.flatten = [] := by
  simp only [linesCentroid?]
  split
  · next hpos =>
    refine iff_of_false (by simp) fun hnil => ?_
    have hsegments : paths.flatMap segments = [] := by
      rw [List.flatMap_eq_nil_iff]
      intro path hpath
      rw [List.flatten_eq_nil_iff.1 hnil path hpath]
      rfl
    rw [hsegments] at hpos
    exact hzero hpos
  · exact findSome?_head?_eq_none_iff

/-- Areas have a center, or their exteriors have one as paths. -/
theorem areaCentroid?_eq_none_iff {length : Segment α → α} {polygons : List (Polygon α)} :
    areaCentroid? length polygons = none ↔
      polygons.flatMap (fun polygon => polygon.exterior.points) = [] := by
  have horigin : (polygons.findSome? fun polygon => polygon.exterior.points.head?) = none ↔
      polygons.flatMap (fun polygon => polygon.exterior.points) = [] := by
    rw [List.flatMap_def, ← findSome?_head?_eq_none_iff, List.findSome?_map]
    rfl
  unfold areaCentroid?
  split
  · next h => exact iff_of_true rfl (horigin.1 h)
  · next origin h =>
    have hne := mt horigin.2 (by rw [h]; simp)
    refine iff_of_false ?_ hne
    dsimp only
    split
    · rw [linesCentroid?_eq_none_iff hzero, ← List.flatMap_def]
      exact hne
    · simp

end

/-! ## Outlines -/

namespace Geometry

mutual

/-- The points of a geometry that are not in holes. -/
def outline {α : Type u} : Geometry α → List (Point α)
  | .point p => [p]
  | .lineString line => line.points
  | .polygon area => area.exterior.points
  | .multiPoint parts => parts
  | .multiLineString parts => parts.flatMap LineString.points
  | .multiPolygon parts => parts.flatMap fun area => area.exterior.points
  | .collection members => memberOutlines members

/-- The outlines of several geometries, one after the other. -/
def memberOutlines {α : Type u} : List (Geometry α) → List (Point α)
  | [] => []
  | member :: rest => outline member ++ memberOutlines rest

end

/-- All points of the geometry are in holes, and it has some. -/
def IsHollow {α : Type u} (g : Geometry α) : Prop := g.points ≠ [] ∧ g.outline = []

section

variable (length : Segment α → α)

mutual

/-- There is no point that stands for a geometry exactly when its outline is empty. -/
theorem centroidBy?_eq_none_iff (hzero : ¬ (Scalar.zero : α) < Scalar.zero) :
    (g : Geometry α) → (g.centroidBy? length = none ↔ g.outline = [])
  | .point p => by simp [centroidBy?, outline]
  | .lineString line => by
    rw [centroidBy?, outline]
    exact lineCentroid?_eq_none_iff
  | .polygon area => by
    rw [centroidBy?, outline, areaCentroid?_eq_none_iff hzero, List.flatMap_singleton]
  | .multiPoint parts => by
    rw [centroidBy?, outline]
    exact pointsCentroid?_eq_none_iff
  | .multiLineString parts => by
    rw [centroidBy?, outline, linesCentroid?_eq_none_iff hzero, List.flatMap_def]
  | .multiPolygon parts => by
    rw [centroidBy?, outline]
    exact areaCentroid?_eq_none_iff hzero
  | .collection members => by
    rw [centroidBy?, outline]
    exact firstCentroidBy?_eq_none_iff hzero members

/-- None of several geometries has a point that stands for it exactly when all their outlines are
empty. -/
theorem firstCentroidBy?_eq_none_iff (hzero : ¬ (Scalar.zero : α) < Scalar.zero) :
    (members : List (Geometry α)) →
      (firstCentroidBy? length members = none ↔ memberOutlines members = [])
  | [] => by simp [firstCentroidBy?, memberOutlines]
  | member :: rest => by
    rw [firstCentroidBy?, memberOutlines, Option.or_eq_none_iff, List.append_eq_nil_iff,
      centroidBy?_eq_none_iff hzero member, firstCentroidBy?_eq_none_iff hzero rest]

end

end

mutual

/-- What is on the outline of a geometry is a point of it. -/
theorem outline_subset {α : Type u} : (g : Geometry α) → g.outline ⊆ g.points
  | .point p => by simp [outline]
  | .lineString line => by simp [outline]
  | .polygon area => by simp [outline, Polygon.points]
  | .multiPoint parts => by simp [outline]
  | .multiLineString parts => by simp [outline]
  | .multiPolygon parts => by
    intro p hp
    rw [outline, List.mem_flatMap] at hp
    obtain ⟨area, harea, hp⟩ := hp
    rw [points_multiPolygon, List.mem_flatMap]
    exact ⟨area, harea, List.mem_append_left _ hp⟩
  | .collection members => by
    rw [outline, points]
    exact memberOutlines_subset members

/-- What is taken of the members of a collection are points of them. -/
theorem memberOutlines_subset {α : Type u} :
    (members : List (Geometry α)) → memberOutlines members ⊆ memberPoints members
  | [] => by simp [memberOutlines]
  | member :: rest => by
    rw [memberOutlines, memberPoints]
    exact List.append_subset.2 ⟨List.subset_append_of_subset_left _ (outline_subset member),
      List.subset_append_of_subset_right _ (memberOutlines_subset rest)⟩

end

/-- A geometry has no representative point exactly when its outline is empty. So it has none exactly
when it is empty, unless all of its points are in holes. -/
theorem centroid?_eq_none_iff_isEmpty (g : Geometry Float) :
    (g.centroid? = none ↔ g.outline = []) ∧
      ((g.centroid? = none ↔ g.isEmpty) ↔ ¬ g.IsHollow) := by
  have hnone : g.centroid? = none ↔ g.outline = [] :=
    centroidBy?_eq_none_iff Segment.length (by decide) g
  refine ⟨hnone, ?_⟩
  rw [hnone, isEmpty_iff]
  constructor
  · rintro h ⟨hpoints, houtline⟩
    exact hpoints (h.1 houtline)
  · intro h
    refine ⟨fun houtline => ?_, fun hpoints => ?_⟩
    · exact Classical.byContradiction fun hpoints => h ⟨hpoints, houtline⟩
    · exact List.subset_nil.1 (hpoints ▸ g.outline_subset)

/-- A hole in nothing. -/
def hole : Geometry Float :=
  .polygon { interiors := [{ points := [{ x := 1.0, y := 2.0 }] }] }

/-- Not every geometry with points has a representative one. -/
theorem centroid?_hole : hole.isEmpty = false ∧ hole.centroid? = none :=
  ⟨rfl, rfl⟩

end Geometry

end Cartouche
