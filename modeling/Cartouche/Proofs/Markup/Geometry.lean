import Cartouche.Markup.Geometry
import Cartouche.Proofs.Markup.Text

/-!
# Geometries as trees

The markup of a geometry is that of a tree, `GeometryEncoder.treeWith`, which has the shape of the
geometry (`events_treeWith`), and all names in it are names (`isForest_eventsWith`). A finite
geometry by itself is always encoded, to the text of its tree (`encodeToString_eq`), which is read
as the node of the tree (`read?_render_tree`).
-/

namespace Cartouche

open Markup (IsTag IsForest isName isTag_nil)

/-- All words of a dialect. -/
def Dialect.words (dialect : Dialect) : List String :=
  [dialect.point, dialect.lineString, dialect.polygon, dialect.linearRing, dialect.outerBoundary,
    dialect.innerBoundary, dialect.coordinates, dialect.multiPoint, dialect.multiLineString,
    dialect.multiPolygon, dialect.collection] ++
    [dialect.pointMember, dialect.lineStringMember, dialect.polygonMember,
      dialect.geometryMember].filterMap id

/-- All words of a dialect are names. -/
def Dialect.IsSound (dialect : Dialect) : Prop := ∀ word ∈ dialect.words, isName word.toList

/-- The words of the tabular dialect are names, the abbreviation in front included. -/
theorem Dialect.isSound_gml : Dialect.gml.IsSound := by
  unfold IsSound
  decide

/-- The words of the dialect of placemarks are names. -/
theorem Dialect.isSound_kml : Dialect.kml.IsSound := by
  unfold IsSound
  decide

/-- The attribute that names a spatial reference system can stand in any tag. -/
theorem isTag_srsAttributes (srsName : Option String) {name : String} (h : isName name.toList) :
    IsTag name (srsAttributes srsName) := by
  cases srsName with
  | none => exact isTag_nil.2 h
  | some srs => exact ⟨h, by simp [srsAttributes]; decide, by simp [srsAttributes]⟩

/-- The attributes of coordinate lists can stand in any tag. -/
theorem isTag_coordinateAttributes (context : RenderContext) {name : String}
    (h : isName name.toList) : IsTag name context.coordinateAttributes := by
  refine ⟨h, ?_, ?_⟩
  · simp [RenderContext.coordinateAttributes]
    decide
  · simp [RenderContext.coordinateAttributes]

namespace GeometryEncoder

variable (encoder : GeometryEncoder)

/-- The attributes of coordinate lists. -/
def listAttributes : Attributes :=
  if encoder.dialect.coordinateAttributes then encoder.context.coordinateAttributes else []

/-- A coordinate list as a tree. -/
def coordinatesTree (points : List (Point Float)) : Markup.Tree :=
  if points.isEmpty then
    .empty encoder.dialect.coordinates encoder.listAttributes
  else
    .text encoder.dialect.coordinates encoder.listAttributes
      (encoder.context.formatCoordinates points)

/-- A point as a tree. -/
def pointTree (attributes : Attributes) (p : Point Float) : Markup.Tree :=
  .element encoder.dialect.point attributes [encoder.coordinatesTree [p]]

/-- A line as a tree. -/
def lineStringTree (attributes : Attributes) (line : LineString Float) : Markup.Tree :=
  .element encoder.dialect.lineString attributes [encoder.coordinatesTree line.points]

/-- A ring as a tree. -/
def ringTree (boundary : String) (ring : LinearRing Float) : Markup.Tree :=
  .element boundary []
    [.element encoder.dialect.linearRing [] [encoder.coordinatesTree ring.points]]

/-- An area as a tree. -/
def polygonTree (attributes : Attributes) (area : Polygon Float) : Markup.Tree :=
  .element encoder.dialect.polygon attributes
    (encoder.ringTree encoder.dialect.outerBoundary area.exterior ::
      area.interiors.map (encoder.ringTree encoder.dialect.innerBoundary))

/-- A member as a tree. -/
def memberTree (wrapper : Option String) (tree : Markup.Tree) : Markup.Tree :=
  match wrapper with
  | some name => .element name [] [tree]
  | none => tree

mutual

/-- A geometry as a tree. -/
def treeWith (attributes : Attributes) : Geometry Float → Markup.Tree
  | .point p => encoder.pointTree attributes p
  | .lineString line => encoder.lineStringTree attributes line
  | .polygon area => encoder.polygonTree attributes area
  | .multiPoint parts =>
    .element encoder.dialect.multiPoint attributes
      (parts.map fun p => memberTree encoder.dialect.pointMember (encoder.pointTree [] p))
  | .multiLineString parts =>
    .element encoder.dialect.multiLineString attributes
      (parts.map fun line =>
        memberTree encoder.dialect.lineStringMember (encoder.lineStringTree [] line))
  | .multiPolygon parts =>
    .element encoder.dialect.multiPolygon attributes
      (parts.map fun area => memberTree encoder.dialect.polygonMember (encoder.polygonTree [] area))
  | .collection members => .element encoder.dialect.collection attributes (memberTrees members)

/-- The members of a collection as trees. -/
def memberTrees : List (Geometry Float) → List Markup.Tree
  | [] => []
  | g :: rest => memberTree encoder.dialect.geometryMember (treeWith [] g) :: memberTrees rest

end

/-- The tree of a geometry. -/
def tree (g : Geometry Float) : Markup.Tree := encoder.treeWith (srsAttributes encoder.srsName) g

/-! ## The events of the trees -/

/-- A coordinate list is that of its tree. Without points both are an empty element. -/
theorem events_coordinatesTree (points : List (Point Float)) :
    (encoder.coordinatesTree points).events = encoder.coordinates points := by
  unfold coordinatesTree coordinates
  split
  · rfl
  · rfl

/-- The markup of a point is that of its tree. -/
theorem events_pointTree (attributes : Attributes) (p : Point Float) :
    (encoder.pointTree attributes p).events = encoder.point attributes p := by
  simp [pointTree, point, events_coordinatesTree]

/-- The markup of a line is that of its tree. -/
theorem events_lineStringTree (attributes : Attributes) (line : LineString Float) :
    (encoder.lineStringTree attributes line).events = encoder.lineString attributes line := by
  simp [lineStringTree, lineString, events_coordinatesTree]

/-- The markup of a ring is that of its tree. -/
theorem events_ringTree (boundary : String) (r : LinearRing Float) :
    (encoder.ringTree boundary r).events = encoder.ring boundary r := by
  simp [ringTree, ring, events_coordinatesTree]

/-- The markup of an area is that of its tree, with the exterior in front of the interiors. -/
theorem events_polygonTree (attributes : Attributes) (area : Polygon Float) :
    (encoder.polygonTree attributes area).events = encoder.polygon attributes area := by
  simp [polygonTree, polygon, Markup.Tree.allEvents_eq_flatMap, List.flatMap_map,
    events_ringTree]

/-- Wrapping a tree is wrapping its markup. In a dialect without wrappers both leave the member as
it is. -/
theorem events_memberTree (wrapper : Option String) (tree : Markup.Tree) :
    (memberTree wrapper tree).events = member wrapper tree.events := by
  cases wrapper with
  | none => rfl
  | some name => simp [memberTree, member]

mutual

/-- The markup of a geometry is that of its tree. -/
theorem events_treeWith (attributes : Attributes) :
    (g : Geometry Float) → (encoder.treeWith attributes g).events = encoder.eventsWith attributes g
  | .point p => by simp [treeWith, eventsWith, events_pointTree]
  | .lineString line => by simp [treeWith, eventsWith, events_lineStringTree]
  | .polygon area => by simp [treeWith, eventsWith, events_polygonTree]
  | .multiPoint parts => by
    simp [treeWith, eventsWith, Markup.Tree.allEvents_eq_flatMap, List.flatMap_map,
      events_memberTree, events_pointTree]
  | .multiLineString parts => by
    simp [treeWith, eventsWith, Markup.Tree.allEvents_eq_flatMap, List.flatMap_map,
      events_memberTree, events_lineStringTree]
  | .multiPolygon parts => by
    simp [treeWith, eventsWith, Markup.Tree.allEvents_eq_flatMap, List.flatMap_map,
      events_memberTree, events_polygonTree]
  | .collection members => by
    rw [treeWith, eventsWith, Markup.Tree.events_element, allEvents_memberTrees members]

/-- The markup of the members of a collection is that of their trees. -/
theorem allEvents_memberTrees :
    (members : List (Geometry Float)) →
      Markup.Tree.allEvents (encoder.memberTrees members) = encoder.memberEvents members
  | [] => by simp [memberTrees, memberEvents]
  | g :: rest => by
    rw [memberTrees, memberEvents, Markup.Tree.allEvents_cons, events_memberTree,
      events_treeWith [] g, allEvents_memberTrees rest]

end

/-- The markup of a geometry with its reference system is that of its tree. -/
theorem events_tree (g : Geometry Float) : (encoder.tree g).events = encoder.events g :=
  encoder.events_treeWith _ g

/-! ## Names -/

section

variable {encoder} (h : encoder.dialect.IsSound)

include h

/-- A coordinate list can be read. Its separators stand in values, where every text can stand. -/
theorem isForest_coordinates (points : List (Point Float)) :
    IsForest (encoder.coordinates points) := by
  have hname : isName encoder.dialect.coordinates.toList := h _ (by simp [Dialect.words])
  have htag : IsTag encoder.dialect.coordinates encoder.listAttributes := by
    unfold listAttributes
    split
    · exact isTag_coordinateAttributes _ hname
    · exact isTag_nil.2 hname
  rw [← events_coordinatesTree]
  refine .ofTree ?_
  unfold coordinatesTree
  split
  · simpa [Markup.IsSound] using htag
  · exact (IsForest.textElement htag _).2

/-- A point can be read, with all attributes that can stand in a tag. -/
theorem isForest_point {attributes : Attributes}
    (ha : ∀ {name : String}, isName name.toList → IsTag name attributes) (p : Point Float) :
    IsForest (encoder.point attributes p) :=
  .element (ha (h _ (by simp [Dialect.words]))) (isForest_coordinates h [p])

/-- A line can be read, with all attributes that can stand in a tag. -/
theorem isForest_lineString {attributes : Attributes}
    (ha : ∀ {name : String}, isName name.toList → IsTag name attributes)
    (line : LineString Float) : IsForest (encoder.lineString attributes line) :=
  .element (ha (h _ (by simp [Dialect.words]))) (isForest_coordinates h line.points)

/-- A ring can be read, if its boundary is a name. -/
theorem isForest_ring {boundary : String} (hb : isName boundary.toList) (r : LinearRing Float) :
    IsForest (encoder.ring boundary r) :=
  .element (isTag_nil.2 hb)
    (.element (isTag_nil.2 (h _ (by simp [Dialect.words]))) (isForest_coordinates h r.points))

/-- An area can be read, with all attributes that can stand in a tag. -/
theorem isForest_polygon {attributes : Attributes}
    (ha : ∀ {name : String}, isName name.toList → IsTag name attributes) (area : Polygon Float) :
    IsForest (encoder.polygon attributes area) :=
  .element (ha (h _ (by simp [Dialect.words])))
    (.append (isForest_ring h (h _ (by simp [Dialect.words])) area.exterior)
      (.flatMap fun r _ => isForest_ring h (h _ (by simp [Dialect.words])) r))

omit h in
/-- A member can be read in its wrapper when it can be read by itself. -/
theorem isForest_member {wrapper : Option String} (hw : ∀ name ∈ wrapper, isName name.toList)
    {content : List Event} (hc : IsForest content) : IsForest (member wrapper content) := by
  cases wrapper with
  | none => exact hc
  | some name => exact .element (isTag_nil.2 (hw name rfl)) hc

mutual

/-- The names in the markup of a geometry are names. -/
theorem isForest_eventsWith {attributes : Attributes}
    (ha : ∀ {name : String}, isName name.toList → IsTag name attributes) :
    (g : Geometry Float) → IsForest (encoder.eventsWith attributes g)
  | .point p => by
    rw [eventsWith]
    exact isForest_point h ha p
  | .lineString line => by
    rw [eventsWith]
    exact isForest_lineString h ha line
  | .polygon area => by
    rw [eventsWith]
    exact isForest_polygon h ha area
  | .multiPoint parts => by
    rw [eventsWith]
    refine .element (ha (h _ (by simp [Dialect.words]))) (.flatMap fun p _ => ?_)
    exact isForest_member (fun name hn => h name (by simp_all [Dialect.words]))
      (isForest_point h isTag_nil.2 p)
  | .multiLineString parts => by
    rw [eventsWith]
    refine .element (ha (h _ (by simp [Dialect.words]))) (.flatMap fun line _ => ?_)
    exact isForest_member (fun name hn => h name (by simp_all [Dialect.words]))
      (isForest_lineString h isTag_nil.2 line)
  | .multiPolygon parts => by
    rw [eventsWith]
    refine .element (ha (h _ (by simp [Dialect.words]))) (.flatMap fun area _ => ?_)
    exact isForest_member (fun name hn => h name (by simp_all [Dialect.words]))
      (isForest_polygon h isTag_nil.2 area)
  | .collection members => by
    rw [eventsWith]
    exact .element (ha (h _ (by simp [Dialect.words]))) (isForest_memberEvents members)

/-- The names in the markup of the members of a collection are names. -/
theorem isForest_memberEvents :
    (members : List (Geometry Float)) → IsForest (encoder.memberEvents members)
  | [] => by
    rw [memberEvents]
    exact .nil
  | g :: rest => by
    rw [memberEvents]
    refine .append (isForest_member (fun name hn => h name (by simp_all [Dialect.words])) ?_)
      (isForest_memberEvents rest)
    exact isForest_eventsWith isTag_nil.2 g

end

/-- The markup of every geometry can be read, with every reference system. -/
theorem isForest_events (g : Geometry Float) : IsForest (encoder.events g) :=
  isForest_eventsWith h (isTag_srsAttributes encoder.srsName) g

end

/-! ## Texts -/

/-- A finite geometry passes the check that comes before its markup. -/
theorem validate_eq_ok {g : Geometry Float} (h : g.isFinite) : validate g = .ok () := by
  simp [validate, h]

/-- A finite geometry by itself is encoded to the text of its tree. -/
theorem encodeToString_eq {g : Geometry Float} (h : g.isFinite) :
    encoder.encodeToString g =
      .ok (Markup.render encoder.context.verbose (encoder.tree g).events) := by
  have hfinish := Writer.finish_writeAll encoder.context.verbose (encoder.events g)
  simp only [encodeToString, encode, validate_eq_ok h, events_tree, bind, Except.bind, pure,
    Except.pure, hfinish]
  rfl

/-- A finite geometry by itself is read as the node of its tree. -/
theorem read?_render_tree (hd : encoder.dialect.IsSound) (pretty : Bool) (g : Geometry Float) :
    Markup.read? (Markup.render pretty (encoder.tree g).events) =
      some [(encoder.tree g).node (Markup.margin pretty)] := by
  refine Markup.read?_fragment pretty ?_
  rw [events_tree]
  exact (isForest_events hd g).2

end GeometryEncoder

end Cartouche
