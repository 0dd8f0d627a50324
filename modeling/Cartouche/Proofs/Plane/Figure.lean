import Cartouche.Plane.Figure
import Cartouche.Proofs.GeoJson.Import
import Cartouche.Proofs.Plane.Bounds

/-!
# What figures are converted to

A figure can be converted when every line string in it has two points, at whatever depth it stands;
otherwise the conversion fails with the number of points of the first one that is too short
(`Figure.answers_toGeometry`). `Figure.Becomes` says what a figure is converted to: a geometry of
the corresponding kind with the same parts, where a single line is a line string, and a rectangle
and a triangle are polygons around their corners. It visits the coordinates of the figure in their
order (`Figure.Becomes.points_eq`). Rings are closed when a figure is outlined, and closing them
again changes nothing, since a point with finite coordinates is where it is
(`closing_closed`).
-/

namespace Cartouche

open GeoJson (closing points_ofPoints)

/-! ## Rings -/

/-- A ring as it is outlined, with its first point behind it unless it ends where it starts. -/
def closed (outline : List (Point Float)) : List (Point Float) := outline ++ closing outline

/-- A point with finite coordinates is where it is. -/
theorem Point.samePlace_self {p : Point Float} (h : p.isFinite) : p.samePlace p := by
  obtain ⟨hx, hy⟩ := p.isFinite_x_y h
  have hself {v : Float} (hv : v.isFinite) : v == v :=
    Binary64.beq_self_iff.2 (Binary64.isNaN_of_isFinite hv)
  rw [samePlace, hself hx, hself hy]
  rfl

/-- A path from a finite point back to it is closed. Being finite matters: a point with a coordinate
that is not a number is not even where it is itself. -/
theorem isClosedPath_of_ends {points : List (Point Float)} {p : Point Float}
    (hfirst : points.head? = some p) (hlast : points.getLast? = some p) (hp : p.isFinite) :
    isClosedPath points := by
  unfold isClosedPath
  rw [hfirst, hlast]
  exact p.samePlace_self hp

/-- Nothing is added to a closed path. -/
theorem closing_eq_nil_iff {points : List (Point Float)} :
    closing points = [] ↔ points = [] ∨ isClosedPath points := by
  unfold closing isClosedPath Point.samePlace
  cases points with
  | nil => simp
  | cons first rest =>
    rw [List.head?_cons, List.getLast?_eq_some_getLast (List.cons_ne_nil first rest)]
    simp

/-- A ring that was closed is closed. -/
theorem closed_eq_nil_or_isClosedPath {outline : List (Point Float)}
    (h : ∀ p ∈ outline, p.isFinite) : closed outline = [] ∨ isClosedPath (closed outline) := by
  unfold closed
  by_cases hclosing : closing outline = []
  · rw [hclosing, List.append_nil]
    exact closing_eq_nil_iff.1 hclosing
  · right
    cases outline with
    | nil => exact absurd rfl hclosing
    | cons first rest =>
      have hfirst : closing (first :: rest) = [first] := by
        unfold closing at hclosing ⊢
        rw [List.head?_cons, List.getLast?_eq_some_getLast (List.cons_ne_nil first rest)] at *
        simp only at hclosing ⊢
        split
        · next hends => exact absurd (if_pos hends) hclosing
        · rfl
      rw [hfirst]
      refine isClosedPath_of_ends rfl ?_ (h first List.mem_cons_self)
      rw [List.getLast?_concat]

/-- Closing a ring again changes nothing. -/
theorem closing_closed {outline : List (Point Float)} (h : ∀ p ∈ outline, p.isFinite) :
    closing (closed outline) = [] :=
  closing_eq_nil_iff.2 (closed_eq_nil_or_isClosedPath h)

namespace Geometry

mutual

/-- The rings of the polygons in a geometry, at whatever depth they stand. -/
def rings : Geometry Float → List (LinearRing Float)
  | .polygon area => area.rings
  | .multiPolygon parts => parts.flatMap Polygon.rings
  | .collection members => memberRings members
  | .point _ | .lineString _ | .multiPoint _ | .multiLineString _ => []

/-- The rings in several geometries. -/
def memberRings : List (Geometry Float) → List (LinearRing Float)
  | [] => []
  | member :: rest => rings member ++ memberRings rest

end

end Geometry

namespace Figure

/-! ## What a figure consists of -/

/-- The rings of a polygon, of which the first one is the exterior. -/
def ringOutlines (rings : List (List (Point Float))) : List (List (Point Float)) :=
  match rings with
  | [] => [[]]
  | exterior :: interiors => closed exterior :: interiors.map closed

mutual

/-- All coordinates of a figure in their order. A rectangle and a triangle have those of their
outlines. -/
def coordinates : Figure Float → List (Point Float)
  | .point p => [p]
  | .line start stop => [start, stop]
  | .lineString points => points
  | .polygon rings => (ringOutlines rings).flatten
  | .multiPoint points => points
  | .multiLineString lines => lines.flatten
  | .multiPolygon polygons => polygons.flatMap fun rings => (ringOutlines rings).flatten
  | .collection members => memberCoordinates members
  | .rect p q => rectOutline p q
  | .triangle a b c => triangleOutline a b c

/-- The coordinates of several figures. -/
def memberCoordinates : List (Figure Float) → List (Point Float)
  | [] => []
  | member :: rest => coordinates member ++ memberCoordinates rest

end

mutual

/-- The line strings in a figure in their order, at whatever depth they stand. -/
def lineStrings : Figure Float → List (List (Point Float))
  | .lineString points => [points]
  | .multiLineString lines => lines
  | .collection members => memberLineStrings members
  | .point _ | .line _ _ | .polygon _ | .multiPoint _ | .multiPolygon _ | .rect _ _
  | .triangle _ _ _ => []

/-- The line strings in several figures. -/
def memberLineStrings : List (Figure Float) → List (List (Point Float))
  | [] => []
  | member :: rest => lineStrings member ++ memberLineStrings rest

end

/-- All coordinates are finite. -/
def IsFinite (f : Figure Float) : Prop := ∀ p ∈ f.coordinates, p.isFinite

/-! ## What a figure becomes -/

/-- The polygon has these rings and no others, the first one as its exterior. -/
def HasRings (area : Polygon Float) (outlines : List (List (Point Float))) : Prop :=
  area.rings.map LinearRing.points = outlines

/-- The corners of a rectangle with two opposite ones, counter-clockwise and back to the first. -/
def IsAroundRect (p q : Point Float) (outline : List (Point Float)) : Prop :=
  ∃ xMin xMax yMin yMax, [xMin, xMax].Perm [p.x, q.x] ∧ [yMin, yMax].Perm [p.y, q.y] ∧
    ¬ xMax < xMin ∧ ¬ yMax < yMin ∧
    outline = [⟨xMax, yMin, none⟩, ⟨xMax, yMax, none⟩, ⟨xMin, yMax, none⟩, ⟨xMin, yMin, none⟩,
      ⟨xMax, yMin, none⟩]

/-- The corners of a triangle in some order and back to the first. -/
def IsAroundTriangle (a b c : Point Float) (outline : List (Point Float)) : Prop :=
  ∃ first second third, [first, second, third].Perm [a, b, c] ∧
    outline = [first, second, third, first]

mutual

/-- The geometry is of the kind that corresponds to the figure, and has the same parts. -/
def Becomes : Figure Float → Geometry Float → Prop
  | .point p, .point q => q = p
  | .line start stop, .lineString path => path.points = [start, stop]
  | .lineString points, .lineString path => path.points = points
  | .polygon rings, .polygon area => HasRings area (ringOutlines rings)
  | .multiPoint points, .multiPoint parts => parts = points
  | .multiLineString lines, .multiLineString parts => parts.map LineString.points = lines
  | .multiPolygon polygons, .multiPolygon parts =>
    List.Forall₂ (fun rings area => HasRings area (ringOutlines rings)) polygons parts
  | .collection members, .collection parts => MembersBecome members parts
  | .rect p q, .polygon area =>
    HasRings area [rectOutline p q] ∧ IsAroundRect p q (rectOutline p q)
  | .triangle a b c, .polygon area =>
    HasRings area [triangleOutline a b c] ∧ IsAroundTriangle a b c (triangleOutline a b c)
  | _, _ => False

/-- The geometries are those that the figures become, one by one. -/
def MembersBecome : List (Figure Float) → List (Geometry Float) → Prop
  | [], [] => True
  | member :: rest, g :: geometries => Becomes member g ∧ MembersBecome rest geometries
  | _, _ => False

end

/-! ## Conversion -/

/-- A line needs two points. -/
def isShort (points : List (Point Float)) : Bool := points.length < 2

/-- The result is right, or it is the failure for the line that is too short. -/
def Answers {β : Type} (result : Except ConversionError β) (short : Option (List (Point Float)))
    (Right : β → Prop) : Prop :=
  match short, result with
  | none, .ok b => Right b
  | some points, .error error => error = .shortLine points.length
  | _, _ => False

section

variable {β γ : Type} {Right : β → Prop} {Right' : γ → Prop}

/-- A result that is right, where no line is too short, is an answer. -/
theorem Answers.ok {b : β} (h : Right b) : Answers (.ok b) none Right := h

/-- What is built from a right result is right, and failures are passed on. -/
theorem Answers.map {result : Except ConversionError β} {short : Option (List (Point Float))}
    {f : β → γ} (h : Answers result short Right) (hf : ∀ b, Right b → Right' (f b)) :
    Answers (result.bind fun b => .ok (f b)) short Right' := by
  cases short with
  | none =>
    cases result with
    | ok b => exact hf b h
    | error error => exact h
  | some points =>
    cases result with
    | ok b => exact h
    | error error => exact h

/-- Of two results the first failure counts. -/
theorem Answers.bind {first : Except ConversionError β} {second : β → Except ConversionError γ}
    {short short' : Option (List (Point Float))} (h : Answers first short Right)
    (h' : ∀ b, Right b → Answers (second b) short' Right') :
    Answers (first.bind second) (short.or short') Right' := by
  cases short with
  | none =>
    cases first with
    | ok b => exact h' b h
    | error error => exact h.elim
  | some points =>
    cases first with
    | ok b => exact h.elim
    | error error => exact h

end

/-- A line string is converted unless it is too short. It is the only line that can be too short
here. -/
theorem answers_ofPoints (points : List (Point Float)) :
    Answers (LineString.ofPoints points) ([points].find? isShort) fun path =>
      path.points = points := by
  unfold LineString.ofPoints
  split
  · next h =>
    rw [List.find?_cons_of_pos (by simpa [isShort] using h)]
    exact rfl
  · next h =>
    rw [List.find?_cons_of_neg (by simpa [isShort] using h), List.find?_nil]
    exact rfl

/-- Several line strings are converted one by one up to the first that is too short. -/
theorem answers_mapM_ofPoints (lines : List (List (Point Float))) :
    Answers (lines.mapM LineString.ofPoints) (lines.find? isShort) fun parts =>
      parts.map LineString.points = lines := by
  induction lines with
  | nil => exact Answers.ok rfl
  | cons points rest ih =>
    rw [List.mapM_cons, ← List.singleton_append, List.find?_append]
    refine (answers_ofPoints points).bind fun path hpath => ?_
    refine ih.map fun parts hparts => ?_
    rw [List.map_cons, hpath, hparts]
    rfl

/-- The rings of a polygon are closed once. -/
theorem hasRings_polygonOf {rings : List (List (Point Float))}
    (h : ∀ outline ∈ rings, ∀ p ∈ outline, p.isFinite) :
    HasRings (polygonOf rings) (ringOutlines rings) := by
  have hring (outline : List (Point Float)) (h : ∀ p ∈ outline, p.isFinite) :
      (LinearRing.ofPoints (LinearRing.ofPoints outline).points).points = closed outline := by
    rw [points_ofPoints, points_ofPoints]
    show closed outline ++ closing (closed outline) = _
    rw [closing_closed h, List.append_nil]
  cases rings with
  | nil => rfl
  | cons exterior interiors =>
    obtain ⟨hexterior, hinteriors⟩ := List.forall_mem_cons.1 h
    refine List.cons_eq_cons.2 ⟨hring exterior hexterior, ?_⟩
    refine List.map_map.trans (List.map_congr_left fun outline hmem => ?_)
    exact hring outline (hinteriors outline hmem)

/-- Closing a ring leaves out none of its points, so if the closed rings are finite the rings
are. -/
theorem finite_of_ringOutlines {rings : List (List (Point Float))}
    (h : ∀ p ∈ (ringOutlines rings).flatten, p.isFinite) :
    ∀ outline ∈ rings, ∀ p ∈ outline, p.isFinite := by
  intro outline houtline p hp
  cases rings with
  | nil => cases houtline
  | cons exterior interiors =>
    have hmem : closed outline ∈ ringOutlines (exterior :: interiors) :=
      List.mem_map_of_mem (f := closed) houtline
    exact h p (List.mem_flatten.2 ⟨_, hmem, List.mem_append_left _ hp⟩)

/-- A polygon inside of one ring that is closed already. -/
theorem hasRings_polygonOf_singleton {p : Point Float} {outline : List (Point Float)}
    (hfirst : outline.head? = some p) (hlast : outline.getLast? = some p)
    (h : ∀ p ∈ outline, p.isFinite) : HasRings (polygonOf [outline]) [outline] := by
  have hclosed : closed outline = outline := by
    have hends := isClosedPath_of_ends hfirst hlast (h p (List.mem_of_mem_head? hfirst))
    rw [closed, closing_eq_nil_iff.2 (.inr hends), List.append_nil]
  have hrings := hasRings_polygonOf (List.forall_mem_singleton.2 h)
  rwa [ringOutlines, hclosed] at hrings

/-- The outline of a rectangle goes around it, whichever of its opposite corners are given and in
which order. -/
theorem isAroundRect_rectOutline (p q : Point Float) : IsAroundRect p q (rectOutline p q) := by
  have hsorted {a b : Float} : ∃ lesser greater, [lesser, greater].Perm [a, b] ∧
      ¬ greater < lesser ∧ (if a < b then (a, b) else (b, a)) = (lesser, greater) := by
    split
    · next h => exact ⟨a, b, .refl _, Binary64.lt_asymm h, rfl⟩
    · next h => exact ⟨b, a, .swap a b [], h, rfl⟩
  obtain ⟨xMin, xMax, hx, hxx, hxSorted⟩ := @hsorted p.x q.x
  obtain ⟨yMin, yMax, hy, hyy, hySorted⟩ := @hsorted p.y q.y
  refine ⟨xMin, xMax, yMin, yMax, hx, hy, hxx, hyy, ?_⟩
  rw [rectOutline, hxSorted, hySorted]

/-- The outline of a triangle goes through its three corners and back. -/
theorem isAroundTriangle_triangleOutline (a b c : Point Float) :
    IsAroundTriangle a b c (triangleOutline a b c) := by
  unfold triangleOutline
  extract_lets turn
  split
  · exact ⟨c, b, a, List.reverse_perm [a, b, c], rfl⟩
  · exact ⟨a, b, c, .refl _, rfl⟩

mutual

/-- A figure is converted to what it becomes, unless a line string in it is too short. -/
theorem answers_toGeometry : (f : Figure Float) → f.IsFinite →
    Answers f.toGeometry (f.lineStrings.find? isShort) f.Becomes
  | .point p, _ => by
    rw [toGeometry, lineStrings]
    exact Answers.ok (by rw [Becomes])
  | .line start stop, _ => by
    rw [toGeometry, lineStrings]
    exact Answers.ok (by rw [Becomes])
  | .lineString points, _ => by
    rw [toGeometry, lineStrings]
    exact (answers_ofPoints points).map fun path hpath => by rw [Becomes]; exact hpath
  | .polygon rings, h => by
    rw [IsFinite, coordinates] at h
    rw [toGeometry, lineStrings]
    exact Answers.ok (by rw [Becomes]; exact hasRings_polygonOf (finite_of_ringOutlines h))
  | .multiPoint points, _ => by
    rw [toGeometry, lineStrings]
    exact Answers.ok (by rw [Becomes])
  | .multiLineString lines, _ => by
    rw [toGeometry, lineStrings]
    exact (answers_mapM_ofPoints lines).map fun parts hparts => by rw [Becomes]; exact hparts
  | .multiPolygon polygons, h => by
    rw [IsFinite, coordinates] at h
    rw [toGeometry, lineStrings]
    refine Answers.ok ?_
    rw [Becomes, List.forall₂_map_right_iff, List.forall₂_same]
    intro rings hrings
    exact hasRings_polygonOf (finite_of_ringOutlines fun p hp =>
      h p (List.mem_flatMap.2 ⟨rings, hrings, hp⟩))
  | .collection members, h => by
    rw [IsFinite, coordinates] at h
    rw [toGeometry, lineStrings]
    exact (answers_memberGeometries members h).map fun parts hparts => by
      rw [Becomes]; exact hparts
  | .rect p q, h => by
    rw [IsFinite, coordinates] at h
    rw [toGeometry, lineStrings]
    refine Answers.ok ?_
    rw [Becomes]
    exact ⟨hasRings_polygonOf_singleton rfl rfl h, isAroundRect_rectOutline p q⟩
  | .triangle a b c, h => by
    rw [IsFinite, coordinates] at h
    rw [toGeometry, lineStrings]
    refine Answers.ok ?_
    rw [Becomes]
    obtain ⟨first, second, third, hperm, houtline⟩ := isAroundTriangle_triangleOutline a b c
    refine ⟨hasRings_polygonOf_singleton (p := first) ?_ ?_ h, first, second, third, hperm,
      houtline⟩
    · rw [houtline]; rfl
    · rw [houtline]; rfl

/-- The members of a collection are converted one by one, and the first line that is too short may
be at any depth. -/
theorem answers_memberGeometries : (members : List (Figure Float)) →
    (∀ p ∈ memberCoordinates members, p.isFinite) →
      Answers (memberGeometries members) ((memberLineStrings members).find? isShort)
        (MembersBecome members)
  | [], _ => by
    rw [memberGeometries, memberLineStrings]
    exact Answers.ok (by rw [MembersBecome]; trivial)
  | member :: rest, h => by
    rw [memberCoordinates, List.forall_mem_append] at h
    rw [memberGeometries, memberLineStrings, List.find?_append]
    refine (answers_toGeometry member h.1).bind fun g hg => ?_
    refine (answers_memberGeometries rest h.2).map fun geometries hgeometries => ?_
    rw [MembersBecome]
    exact ⟨hg, hgeometries⟩

end

/-! ## What is visited -/

/-- A polygon visits the points of its rings, the exterior first. -/
theorem HasRings.points_eq {area : Polygon Float} {outlines : List (List (Point Float))}
    (h : HasRings area outlines) : area.points = outlines.flatten := by
  rw [← h, ← List.flatMap_def]
  rfl

mutual

/-- What a figure becomes visits the coordinates of the figure in their order. -/
theorem Becomes.points_eq : {f : Figure Float} → {g : Geometry Float} → f.Becomes g →
    g.points = f.coordinates
  | .point p, .point q, h => by
    rw [Becomes] at h
    rw [coordinates, Geometry.points_point, h]
  | .line start stop, .lineString path, h => by
    rw [Becomes] at h
    rw [coordinates, Geometry.points_lineString, h]
  | .lineString points, .lineString path, h => by
    rw [Becomes] at h
    rw [coordinates, Geometry.points_lineString, h]
  | .polygon rings, .polygon area, h => by
    rw [Becomes] at h
    rw [coordinates, Geometry.points_polygon, h.points_eq]
  | .multiPoint points, .multiPoint parts, h => by
    rw [Becomes] at h
    rw [coordinates, Geometry.points_multiPoint, h]
  | .multiLineString lines, .multiLineString parts, h => by
    rw [Becomes] at h
    rw [coordinates, Geometry.points_multiLineString, ← h, List.flatMap_def]
  | .multiPolygon polygons, .multiPolygon parts, h => by
    rw [Becomes] at h
    rw [coordinates, Geometry.points_multiPolygon]
    induction h with
    | nil => rfl
    | cons hrings _ ih => rw [List.flatMap_cons, List.flatMap_cons, ih, hrings.points_eq]
  | .collection members, .collection parts, h => by
    rw [Becomes] at h
    rw [coordinates, Geometry.points, MembersBecome.points_eq h]
  | .rect p q, .polygon area, h => by
    rw [Becomes] at h
    rw [coordinates, Geometry.points_polygon, h.1.points_eq, List.flatten_singleton]
  | .triangle a b c, .polygon area, h => by
    rw [Becomes] at h
    rw [coordinates, Geometry.points_polygon, h.1.points_eq, List.flatten_singleton]

/-- The geometries visit the coordinates of the members of the figure one after the other. -/
theorem MembersBecome.points_eq : {members : List (Figure Float)} →
    {geometries : List (Geometry Float)} → MembersBecome members geometries →
      Geometry.memberPoints geometries = memberCoordinates members
  | [], [], _ => by rw [Geometry.memberPoints, memberCoordinates]
  | member :: rest, g :: geometries, h => by
    rw [MembersBecome] at h
    rw [Geometry.memberPoints, memberCoordinates, Becomes.points_eq h.1,
      MembersBecome.points_eq h.2]

end

/-- A path that is empty or ends where it starts. -/
def IsRing (points : List (Point Float)) : Prop := points = [] ∨ isClosedPath points

/-- What holds of all outlines holds of all rings of the polygon. -/
theorem HasRings.isRing {area : Polygon Float} {outlines : List (List (Point Float))}
    (h : HasRings area outlines) (houtlines : ∀ outline ∈ outlines, IsRing outline) :
    ∀ ring ∈ area.rings, IsRing ring.points := by
  intro ring hring
  exact houtlines ring.points (h ▸ List.mem_map_of_mem hring)

/-- The outlines of a polygon with finite points are closed or empty, whether or not they were drawn
so. -/
theorem isRing_of_ringOutlines {rings : List (List (Point Float))}
    (h : ∀ p ∈ (ringOutlines rings).flatten, p.isFinite) :
    ∀ outline ∈ ringOutlines rings, IsRing outline := by
  have hfinite := finite_of_ringOutlines h
  intro outline houtline
  cases rings with
  | nil => exact .inl (List.mem_singleton.1 houtline)
  | cons exterior interiors =>
    have hmem : outline ∈ (exterior :: interiors).map closed := houtline
    obtain ⟨drawn, hdrawn, rfl⟩ := List.mem_map.1 hmem
    exact closed_eq_nil_or_isClosedPath (hfinite drawn hdrawn)

mutual

/-- The rings of what a figure becomes are closed or empty. -/
theorem Becomes.isRing : {f : Figure Float} → {g : Geometry Float} → f.Becomes g → f.IsFinite →
    ∀ ring ∈ g.rings, IsRing ring.points
  | .point p, .point q, _, _ => by simp [Geometry.rings]
  | .line start stop, .lineString path, _, _ => by simp [Geometry.rings]
  | .lineString points, .lineString path, _, _ => by simp [Geometry.rings]
  | .polygon rings, .polygon area, h, hfinite => by
    rw [Becomes] at h
    rw [IsFinite, coordinates] at hfinite
    rw [Geometry.rings]
    exact h.isRing (isRing_of_ringOutlines hfinite)
  | .multiPoint points, .multiPoint parts, _, _ => by simp [Geometry.rings]
  | .multiLineString lines, .multiLineString parts, _, _ => by simp [Geometry.rings]
  | .multiPolygon polygons, .multiPolygon parts, h, hfinite => by
    rw [Becomes] at h
    rw [IsFinite, coordinates] at hfinite
    rw [Geometry.rings]
    induction h with
    | nil => simp
    | cons hrings _ ih =>
      rw [List.flatMap_cons, List.forall_mem_append] at hfinite ⊢
      exact ⟨hrings.isRing (isRing_of_ringOutlines hfinite.1), ih hfinite.2⟩
  | .collection members, .collection parts, h, hfinite => by
    rw [Becomes] at h
    rw [IsFinite, coordinates] at hfinite
    rw [Geometry.rings]
    exact MembersBecome.isRing h hfinite
  | .rect p q, .polygon area, h, hfinite => by
    rw [Becomes] at h
    rw [IsFinite, coordinates] at hfinite
    rw [Geometry.rings]
    refine h.1.isRing (List.forall_mem_singleton.2 (.inr ?_))
    exact isClosedPath_of_ends rfl rfl (hfinite _ List.mem_cons_self)
  | .triangle a b c, .polygon area, h, hfinite => by
    rw [Becomes] at h
    rw [IsFinite, coordinates] at hfinite
    rw [Geometry.rings]
    obtain ⟨hrings, first, second, third, -, houtline⟩ := h
    rw [houtline] at hrings hfinite
    refine hrings.isRing (List.forall_mem_singleton.2 (.inr ?_))
    exact isClosedPath_of_ends rfl rfl (hfinite _ List.mem_cons_self)

/-- The same for the members of a collection, one by one. -/
theorem MembersBecome.isRing : {members : List (Figure Float)} →
    {geometries : List (Geometry Float)} → MembersBecome members geometries →
      (∀ p ∈ memberCoordinates members, p.isFinite) →
        ∀ ring ∈ Geometry.memberRings geometries, IsRing ring.points
  | [], [], _, _ => by simp [Geometry.memberRings]
  | member :: rest, g :: geometries, h, hfinite => by
    rw [MembersBecome] at h
    rw [memberCoordinates, List.forall_mem_append] at hfinite
    rw [Geometry.memberRings, List.forall_mem_append]
    exact ⟨Becomes.isRing h.1 hfinite.1, MembersBecome.isRing h.2 hfinite.2⟩

end

/-! ## Success and failure -/

/-- A figure with finite coordinates is converted when every line string in it, at whatever depth,
has two points. Then the geometry is what the figure becomes, it visits the coordinates of the
figure in their order and no others, and its rings are closed or empty. Otherwise the failure tells
the number of points of the first line string that is too short. -/
theorem toGeometry_converts {f : Figure Float} (h : f.IsFinite) :
    ((∃ g, f.toGeometry = .ok g) ↔ ∀ points ∈ f.lineStrings, 2 ≤ points.length) ∧
      (∀ g, f.toGeometry = .ok g → f.Becomes g ∧ g.points = f.coordinates ∧
        ∀ ring ∈ g.rings, ring.points = [] ∨ ring.isClosed) ∧
      ∀ error, f.toGeometry = .error error →
        ∃ points, f.lineStrings.find? (fun points => points.length < 2) = some points ∧
          error = .shortLine points.length ∧
          error.message = "invalid input geometry: line string requires at least 2 points, got " ++
            toString points.length := by
  have hanswers := f.answers_toGeometry h
  have hlong : f.lineStrings.find? isShort = none ↔
      ∀ points ∈ f.lineStrings, 2 ≤ points.length := by
    rw [List.find?_eq_none]
    refine forall₂_congr fun points _ => ?_
    rw [isShort, decide_eq_true_eq, not_lt]
  cases hshort : f.lineStrings.find? isShort with
  | none =>
    rw [hshort] at hanswers hlong
    cases hresult : f.toGeometry with
    | error error =>
      rw [hresult] at hanswers
      exact hanswers.elim
    | ok g =>
      rw [hresult] at hanswers
      refine ⟨⟨fun _ => hlong.1 rfl, fun _ => ⟨g, rfl⟩⟩, ?_, ?_⟩
      · rintro _ ⟨⟩
        exact ⟨hanswers, hanswers.points_eq, hanswers.isRing h⟩
      · rintro _ ⟨⟩
  | some points =>
    rw [hshort] at hanswers hlong
    cases hresult : f.toGeometry with
    | ok g =>
      rw [hresult] at hanswers
      exact hanswers.elim
    | error error =>
      rw [hresult] at hanswers
      obtain rfl : error = .shortLine points.length := hanswers
      refine ⟨⟨?_, fun hall => absurd (hlong.2 hall) (Option.some_ne_none _)⟩, ?_, ?_⟩
      · rintro ⟨_, ⟨⟩⟩
      · rintro _ ⟨⟩
      · rintro _ ⟨⟩
        exact ⟨points, hshort, rfl, rfl⟩

/-- An area that ends where it starts up to the sign of a zero, an open one in it, a rectangle and a
line are converted; with two line strings that are too short behind a long one, the first of them is
told. -/
theorem toGeometry_converts_sheet :
    let a : Point Float := ⟨0.0, 0.0, none⟩
    let b : Point Float := ⟨4.0, 0.0, none⟩
    let c : Point Float := ⟨4.0, 3.0, none⟩
    let area : Figure Float :=
      .collection [.polygon [[a, b, c, ⟨-0.0, 0.0, none⟩], [a, b, c], []], .rect c a, .line a c]
    let sheet : Figure Float := .collection [area, .multiLineString [[a, b], [c], []]]
    area.IsFinite ∧ (∃ g, area.toGeometry = .ok g ∧ g.points.length = 4 + 4 + 5 + 2) ∧
      sheet.IsFinite ∧ ∃ error, sheet.toGeometry = .error error ∧ error = .shortLine 1 := by
  intro a b c area sheet
  have harea : area.IsFinite := by
    have hall : area.coordinates.all Point.isFinite := by decide +kernel
    exact List.all_eq_true.1 hall
  have hsheet : sheet.IsFinite := by
    have hall : sheet.coordinates.all Point.isFinite := by decide +kernel
    exact List.all_eq_true.1 hall
  have hlines : sheet.lineStrings = [[a, b], [c], []] := rfl
  obtain ⟨harea₁, harea₂, -⟩ := toGeometry_converts harea
  obtain ⟨hsheet₁, -, hsheet₂⟩ := toGeometry_converts hsheet
  rw [hlines] at hsheet₁ hsheet₂
  refine ⟨harea, ?_, hsheet, ?_⟩
  · obtain ⟨g, hg⟩ := harea₁.2 (by decide +kernel)
    refine ⟨g, hg, ?_⟩
    rw [(harea₂ g hg).2.1]
    decide +kernel
  · cases hresult : sheet.toGeometry with
    | ok g => exact absurd (hsheet₁.1 ⟨g, hresult⟩ [c] (by simp)) (by decide)
    | error error =>
      obtain ⟨points, hpoints, herror, -⟩ := hsheet₂ error hresult
      cases hpoints
      exact ⟨error, rfl, herror⟩

end Figure

end Cartouche
