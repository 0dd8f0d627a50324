import Mathlib.Data.List.Forall2
import Cartouche.GeoJson.Basic

/-!
# What is imported from feature collections

A shape can be converted when every position in it has two numbers, every line two positions and
every area a ring (`Shape.isConvertible`), at whatever depth they stand. `Shape.Becomes` says what a
shape is converted to: a geometry of the same kind with the same parts, in which a ring is closed by
its first point unless it is closed already. Conversion succeeds for convertible shapes only, and
leads to what they become (`Shape.decides_toGeometry`), which visits the positions of the shape in
their order (`Shape.Becomes.visitAll`). So of a collection there remain the convertible items in
their order, each with its own id or numbered by its place among all items (`IsConversion`).
-/

namespace Cartouche.GeoJson

/-! ## All or nothing -/

/-- The result succeeds exactly when it should, and then with a value that is right. -/
def Decides {ε α : Type} (result : Except ε α) (should : Bool) (Right : α → Prop) : Prop :=
  match result with
  | .ok a => should = true ∧ Right a
  | .error _ => should = false

section

variable {ε α β : Type}

/-- What is built from a right result is right, and succeeds when this does. -/
theorem Decides.map {result : Except ε α} {should : Bool} {Right : α → Prop} {f : α → β}
    {Right' : β → Prop} (h : Decides result should Right) (hf : ∀ a, Right a → Right' (f a)) :
    Decides (result.bind fun a => .ok (f a)) should Right' := by
  cases result with
  | error e => exact h
  | ok a => exact ⟨h.1, hf a h.2⟩

/-- A second result depends on the first one having succeeded. -/
theorem Decides.bind {first : Except ε α} {second : α → Except ε β} {should should' : Bool}
    {Right : α → Prop} {Right' : β → Prop} (h : Decides first should Right)
    (h' : ∀ a, Right a → Decides (second a) should' Right') :
    Decides (first.bind second) (should && should') Right' := by
  cases first with
  | error e =>
    have hshould : should = false := h
    rw [hshould]
    exact rfl
  | ok a =>
    obtain ⟨rfl, ha⟩ := h
    rw [Bool.true_and]
    exact h' a ha

/-- Items are converted one by one, and the first failure fails all of them. -/
theorem decides_mapM {f : α → Except ε β} {should : α → Bool} {Right : α → β → Prop}
    {items : List α} (h : ∀ a ∈ items, Decides (f a) (should a) (Right a)) :
    Decides (items.mapM f) (items.all should) (List.Forall₂ Right items) := by
  induction items with
  | nil => exact ⟨rfl, .nil⟩
  | cons a rest ih =>
    rw [List.mapM_cons, List.all_cons]
    refine (h a List.mem_cons_self).bind fun b hb => ?_
    refine (ih fun c hc => h c (List.mem_cons_of_mem _ hc)).map fun bs hbs => ?_
    exact .cons hb hbs

/-- Of items there remain those whose conversion succeeds. -/
theorem forall₂_filterMap {γ : Type} {f : α → Except ε β} {given : α → β → γ} {should : α → Bool}
    {Right : α → γ → Prop}
    (h : ∀ a, Decides (f a) (should a) fun b => Right a (given a b)) (items : List α) :
    List.Forall₂ Right (items.filter should)
      (items.filterMap fun a => (f a).toOption.map (given a)) := by
  induction items with
  | nil => exact .nil
  | cons a rest ih =>
    have ha := h a
    cases hresult : f a with
    | error e =>
      rw [hresult] at ha
      have hshould : should a = false := ha
      rw [List.filter_cons_of_neg (Bool.eq_false_iff.1 hshould),
        List.filterMap_cons_none (by rw [hresult]; rfl)]
      exact ih
    | ok b =>
      rw [hresult] at ha
      rw [List.filter_cons_of_pos ha.1, List.filterMap_cons_some (by rw [hresult]; rfl)]
      exact .cons ha.2 ih

end

/-! ## Positions and paths -/

/-- The point has the first two or three numbers of the position. -/
structure IsAt (position : Position) (p : Point Float) : Prop where
  x : position[0]? = some p.x
  y : position[1]? = some p.y
  z : position[2]? = p.z

/-- Positions that stand one after the other, as those of a ring or not. -/
structure Path where
  positions : List Position
  isRing : Bool := false

/-- What is added to a ring: its first point, unless the last one has the same coordinates in the
plane. -/
def closing (points : List (Point Float)) : List (Point Float) :=
  match points.head?, points.getLast? with
  | some first, some last => if first.x == last.x && first.y == last.y then [] else [first]
  | _, _ => []

/-- The points are those at the positions, and behind them the point that closes a ring. -/
def Path.Visits (path : Path) (visited : List (Point Float)) : Prop :=
  ∃ points, List.Forall₂ IsAt path.positions points ∧
    visited = points ++ if path.isRing then closing points else []

/-- The points visit the paths, one after the other. -/
def VisitAll (paths : List Path) (points : List (Point Float)) : Prop :=
  ∃ parts, List.Forall₂ Path.Visits paths parts ∧ points = parts.flatten

/-- No paths are visited by no points. -/
theorem VisitAll.nil : VisitAll [] [] := ⟨[], .nil, rfl⟩

/-- One more path is visited in front of the others. -/
theorem VisitAll.cons {path : Path} {visited : List (Point Float)} {paths : List Path}
    {points : List (Point Float)} (h : path.Visits visited) (h' : VisitAll paths points) :
    VisitAll (path :: paths) (visited ++ points) := by
  obtain ⟨parts, hparts, rfl⟩ := h'
  exact ⟨visited :: parts, .cons h hparts, rfl⟩

/-- A single path that is visited is all of them. -/
theorem Path.Visits.visitAll {path : Path} {visited : List (Point Float)}
    (h : path.Visits visited) : VisitAll [path] visited := by
  have hall := VisitAll.cons h .nil
  rwa [List.append_nil] at hall

/-- Paths behind others are visited behind them. -/
theorem VisitAll.append {paths paths' : List Path} {points points' : List (Point Float)}
    (h : VisitAll paths points) (h' : VisitAll paths' points') :
    VisitAll (paths ++ paths') (points ++ points') := by
  obtain ⟨parts, hparts, rfl⟩ := h
  obtain ⟨parts', hparts', rfl⟩ := h'
  exact ⟨parts ++ parts', List.rel_append hparts hparts', List.flatten_append.symm⟩

/-- Parts that visit their own paths visit all of them together. -/
theorem visitAll_flatMap {α β : Type} {paths : α → List Path} {points : β → List (Point Float)}
    {as : List α} {bs : List β}
    (h : List.Forall₂ (fun a b => VisitAll (paths a) (points b)) as bs) :
    VisitAll (as.flatMap paths) (bs.flatMap points) := by
  induction h with
  | nil => exact .nil
  | cons hab _ ih =>
    rw [List.flatMap_cons, List.flatMap_cons]
    exact hab.append ih

/-- The position has enough numbers. -/
def Position.isConvertible (position : Position) : Bool := 2 ≤ position.length

/-- The positions, and there are enough of them for a line. -/
def isLine (positions : List Position) : Bool :=
  positions.all Position.isConvertible && 2 ≤ positions.length

/-- The rings, and there is an exterior one. -/
def isArea (rings : List (List Position)) : Bool :=
  !rings.isEmpty && rings.all (·.all Position.isConvertible)

/-- The points of an area visit its rings, the exterior first. -/
def AreaVisits (rings : List (List Position)) (area : Polygon Float) : Prop :=
  List.Forall₂ (fun positions (ring : LinearRing Float) =>
    ({ positions, isRing := true } : Path).Visits ring.points) rings area.rings

/-- A position is converted when it has two numbers. A third one is the elevation, and what follows
is ignored. -/
theorem decides_pointAt (position : Position) :
    Decides (pointAt position) (Position.isConvertible position) (IsAt position) := by
  match position with
  | [] => rfl
  | [_] => rfl
  | [x, y] => exact ⟨rfl, rfl, rfl, rfl⟩
  | x :: y :: z :: rest => exact ⟨by simp [Position.isConvertible], rfl, rfl, rfl⟩

/-- Positions are converted when each of them can be. -/
theorem decides_pointsAt (positions : List Position) :
    Decides (pointsAt positions) (positions.all Position.isConvertible)
      (List.Forall₂ IsAt positions) :=
  decides_mapM fun position _ => decides_pointAt position

/-- A line is converted when its positions can be and there are two of them. -/
theorem decides_lineThrough (positions : List Position) :
    Decides (lineThrough positions) (isLine positions)
      fun line => ({ positions } : Path).Visits line.points := by
  refine (decides_pointsAt positions).bind fun points hpoints => ?_
  have hlength := hpoints.length_eq
  unfold LineString.ofPoints
  by_cases hshort : points.length < 2
  · rw [if_pos hshort]
    exact decide_eq_false (by omega)
  · rw [if_neg hshort]
    exact ⟨decide_eq_true (by omega), points, hpoints, (List.append_nil points).symm⟩

/-- A ring through points is closed by the first one. -/
theorem points_ofPoints (points : List (Point Float)) :
    (LinearRing.ofPoints points).points = points ++ closing points := by
  cases points with
  | nil => rfl
  | cons first rest =>
    obtain ⟨last, hlast⟩ : ∃ last, (first :: rest).getLast? = some last :=
      ⟨_, List.getLast?_eq_some_getLast (List.cons_ne_nil first rest)⟩
    have hclosed : isClosedPath (first :: rest) = (first.x == last.x && first.y == last.y) := by
      unfold isClosedPath
      rw [List.head?_cons, hlast]
      rfl
    have hclosing : closing (first :: rest)
        = if first.x == last.x && first.y == last.y then [] else [first] := by
      unfold closing
      rw [List.head?_cons, hlast]
    rw [LinearRing.ofPoints, hclosed, hclosing]
    by_cases hback : (first.x == last.x && first.y == last.y) = true
    · rw [if_pos hback, if_pos hback, List.append_nil]
    · rw [if_neg hback, if_neg hback]

/-- A ring is converted when its positions can be, however few there are, and is closed by its first
point. -/
theorem decides_ringThrough (positions : List Position) :
    Decides (ringThrough positions) (positions.all Position.isConvertible)
      fun ring => ({ positions, isRing := true } : Path).Visits ring.points :=
  (decides_pointsAt positions).map fun points hpoints =>
    ⟨points, hpoints, points_ofPoints points⟩

/-- An area is converted when all its rings can be and there is an exterior. -/
theorem decides_areaInside (rings : List (List Position)) :
    Decides (areaInside rings) (isArea rings) (AreaVisits rings) := by
  cases rings with
  | nil => rfl
  | cons exterior interiors =>
    refine (decides_ringThrough exterior).bind fun ring hring => ?_
    refine (decides_mapM fun interior _ => decides_ringThrough interior).map fun holes hholes => ?_
    exact .cons hring hholes

/-- Paths visited by one part each. -/
theorem visitAll_map {α β : Type} {path : α → Path} {points : β → List (Point Float)}
    {as : List α} {bs : List β} (h : List.Forall₂ (fun a b => (path a).Visits (points b)) as bs) :
    VisitAll (as.map path) (bs.flatMap points) := by
  rw [List.map_eq_flatMap]
  exact visitAll_flatMap (h.imp fun _ _ hab => hab.visitAll)

/-- The points of an area visit its rings as paths. -/
theorem AreaVisits.visitAll {rings : List (List Position)} {area : Polygon Float}
    (h : AreaVisits rings area) :
    VisitAll (rings.map fun positions => { positions, isRing := true }) area.points :=
  visitAll_map h

/-! ## Shapes -/

namespace Shape

mutual

/-- Every position has two numbers, every line two positions and every area a ring. -/
def isConvertible : Shape → Bool
  | .point position => Position.isConvertible position
  | .multiPoint positions => positions.all Position.isConvertible
  | .lineString positions => isLine positions
  | .multiLineString lines => lines.all isLine
  | .polygon rings => isArea rings
  | .multiPolygon polygons => polygons.all isArea
  | .collection members => membersConvertible members

/-- All members can be converted. -/
def membersConvertible : List Shape → Bool
  | [] => true
  | member :: rest => isConvertible member && membersConvertible rest

end

mutual

/-- The geometry is of the same kind as the shape, and its parts visit those of the shape. -/
def Becomes : Shape → Geometry Float → Prop
  | .point position, .point p => IsAt position p
  | .multiPoint positions, .multiPoint parts => List.Forall₂ IsAt positions parts
  | .lineString positions, .lineString line => ({ positions } : Path).Visits line.points
  | .multiLineString lines, .multiLineString parts =>
    List.Forall₂ (fun positions (line : LineString Float) =>
      ({ positions } : Path).Visits line.points) lines parts
  | .polygon rings, .polygon area => AreaVisits rings area
  | .multiPolygon polygons, .multiPolygon parts => List.Forall₂ AreaVisits polygons parts
  | .collection members, .collection parts => MembersBecome members parts
  | _, _ => False

/-- The geometries are those that the shapes become, one by one. -/
def MembersBecome : List Shape → List (Geometry Float) → Prop
  | [], [] => True
  | member :: rest, g :: geometries => Becomes member g ∧ MembersBecome rest geometries
  | _, _ => False

end

mutual

/-- The paths of a shape in their order, down to the members of its members. -/
def paths : Shape → List Path
  | .point position => [{ positions := [position] }]
  | .multiPoint positions => [{ positions }]
  | .lineString positions => [{ positions }]
  | .multiLineString lines => lines.map fun positions => { positions }
  | .polygon rings => rings.map fun positions => { positions, isRing := true }
  | .multiPolygon polygons =>
    polygons.flatMap fun rings => rings.map fun positions => { positions, isRing := true }
  | .collection members => memberPaths members

/-- The paths of several shapes. -/
def memberPaths : List Shape → List Path
  | [] => []
  | member :: rest => paths member ++ memberPaths rest

end

mutual

/-- A shape is converted to what it becomes, if it can be converted. -/
theorem decides_toGeometry :
    (shape : Shape) → Decides shape.toGeometry shape.isConvertible shape.Becomes
  | .point position => by
    rw [toGeometry, isConvertible]
    exact (decides_pointAt position).map fun p hp => by rw [Becomes]; exact hp
  | .multiPoint positions => by
    rw [toGeometry, isConvertible]
    exact (decides_pointsAt positions).map fun points hpoints => by rw [Becomes]; exact hpoints
  | .lineString positions => by
    rw [toGeometry, isConvertible]
    exact (decides_lineThrough positions).map fun line hline => by rw [Becomes]; exact hline
  | .multiLineString lines => by
    rw [toGeometry, isConvertible]
    exact (decides_mapM fun line _ => decides_lineThrough line).map fun parts hparts => by
      rw [Becomes]; exact hparts
  | .polygon rings => by
    rw [toGeometry, isConvertible]
    exact (decides_areaInside rings).map fun area harea => by rw [Becomes]; exact harea
  | .multiPolygon polygons => by
    rw [toGeometry, isConvertible]
    exact (decides_mapM fun rings _ => decides_areaInside rings).map fun parts hparts => by
      rw [Becomes]; exact hparts
  | .collection members => by
    rw [toGeometry, isConvertible]
    exact (decides_memberGeometries members).map fun parts hparts => by rw [Becomes]; exact hparts

/-- The members of a collection are converted one by one, and the first failure fails all of
them. -/
theorem decides_memberGeometries :
    (members : List Shape) →
      Decides (memberGeometries members) (membersConvertible members) (MembersBecome members)
  | [] => by
    rw [memberGeometries, membersConvertible]
    exact ⟨rfl, by rw [MembersBecome]; trivial⟩
  | member :: rest => by
    rw [memberGeometries, membersConvertible]
    refine (decides_toGeometry member).bind fun g hg => ?_
    refine (decides_memberGeometries rest).map fun geometries hgeometries => ?_
    rw [MembersBecome]
    exact ⟨hg, hgeometries⟩

end

mutual

/-- What a shape becomes visits the paths of the shape and no other points. -/
theorem Becomes.visitAll : {shape : Shape} → {g : Geometry Float} → shape.Becomes g →
    VisitAll shape.paths g.points
  | .point position, .point p, h => by
    rw [Becomes] at h
    rw [paths, Geometry.points_point]
    exact Path.Visits.visitAll ⟨[p], .cons h .nil, rfl⟩
  | .multiPoint positions, .multiPoint parts, h => by
    rw [Becomes] at h
    rw [paths, Geometry.points_multiPoint]
    exact Path.Visits.visitAll ⟨parts, h, (List.append_nil parts).symm⟩
  | .lineString positions, .lineString line, h => by
    rw [Becomes] at h
    rw [paths, Geometry.points_lineString]
    exact h.visitAll
  | .multiLineString lines, .multiLineString parts, h => by
    rw [Becomes] at h
    rw [paths, Geometry.points_multiLineString]
    exact visitAll_map h
  | .polygon rings, .polygon area, h => by
    rw [Becomes] at h
    rw [paths, Geometry.points_polygon]
    exact h.visitAll
  | .multiPolygon polygons, .multiPolygon parts, h => by
    rw [Becomes] at h
    rw [paths, Geometry.points_multiPolygon]
    exact visitAll_flatMap (h.imp fun _ _ harea => harea.visitAll)
  | .collection members, .collection parts, h => by
    rw [Becomes] at h
    rw [paths, Geometry.points]
    exact MembersBecome.visitAll h

/-- The points of the members visit their paths one member after the other. -/
theorem MembersBecome.visitAll : {members : List Shape} → {geometries : List (Geometry Float)} →
    MembersBecome members geometries →
      VisitAll (memberPaths members) (Geometry.memberPoints geometries)
  | [], [], _ => by
    rw [memberPaths, Geometry.memberPoints]
    exact .nil
  | member :: rest, g :: geometries, h => by
    rw [MembersBecome] at h
    rw [memberPaths, Geometry.memberPoints]
    exact (Becomes.visitAll h.1).append (MembersBecome.visitAll h.2)

end

end Shape

/-! ## Collections -/

/-- An item remains when it has a shape and the shape can be converted. -/
def Item.isConvertible (item : Item) : Bool := item.shape.any Shape.isConvertible

/-- The id an item has itself, perhaps empty. -/
def Item.ownId (item : Item) : String := (item.id.map Id.display).getD ""

/-- The feature is what an item is converted to: its geometry is what the shape becomes and visits
what the shape does; the id is that of the item or stems from the number of the item; properties are
attributes. -/
structure IsConversion (idStem : String) (number : Nat) (item : Item) (feature : Feature) :
    Prop where
  becomes : ∃ shape, item.shape = some shape ∧ shape.Becomes feature.geometry ∧
    VisitAll shape.paths feature.geometry.points
  id : feature.id = if item.ownId = "" then idStem ++ "." ++ toString number else item.ownId
  attributes : feature.attributes =
    .ofList (item.properties.map fun (name, value) => (name, propertyValue value))

/-- An id is given to a feature without one and changes nothing else. -/
theorem numbered_eq (idStem : String) (number : Nat) (feature : Feature) :
    numbered idStem number feature = { feature with
      id := if feature.id = "" then idStem ++ "." ++ toString number else feature.id } := by
  unfold numbered
  by_cases hid : feature.id = ""
  · rw [if_pos hid, if_pos (String.isEmpty_iff.mpr hid)]
  · rw [if_neg hid, if_neg fun hempty => hid (String.isEmpty_iff.mp hempty)]

/-- An item is converted when it has a shape that can be. Its number is used for an id only when it
has none of its own. -/
theorem decides_toFeature (idStem : String) (number : Nat) (item : Item) :
    Decides item.toFeature item.isConvertible
      fun feature => IsConversion idStem number item (numbered idStem number feature) := by
  unfold Item.toFeature Item.isConvertible
  cases hshape : item.shape with
  | none => exact rfl
  | some shape =>
    refine shape.decides_toGeometry.map fun g hg => ?_
    rw [numbered_eq]
    exact ⟨⟨shape, hshape, hg, hg.visitAll⟩, rfl, rfl⟩

/-- In a collection there remain the items that can be converted, in their order, each numbered by
its place among all items. -/
theorem FeatureCollection.isConversion_toFeatures (collection : FeatureCollection)
    (idStem : String) :
    List.Forall₂ (fun (item, index) feature => IsConversion idStem (index + 1) item feature)
      (collection.items.zipIdx.filter fun (item, _) => item.isConvertible)
      (collection.toFeatures idStem) :=
  forall₂_filterMap (fun (item, index) => decides_toFeature idStem (index + 1) item)
    collection.items.zipIdx

example : ((FeatureCollection.mk [{ shape := none }, { shape := some (.multiPoint []) }]).toFeatures
    "roads").map (·.id) = ["roads.2"] := by
  rfl

end Cartouche.GeoJson
