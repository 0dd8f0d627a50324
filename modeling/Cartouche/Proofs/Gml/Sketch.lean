import Cartouche.Proofs.Markup.Geometry
import Cartouche.Proofs.Number.Format

/-!
# Reading geometries of tabular documents

The markup of a geometry tells the geometry apart from others up to the digits of its coordinates. A
`Sketch` has the shape of a geometry and something in the place of each point list, and
`Sketch.decode?` is a reader of fragments that gives the sketch of the geometry with the text of
each coordinate list. The names of the elements alone decide what is read: boundaries, members and
nested collections do not collide (`sketch?_treeWith`).
-/

namespace Cartouche

/-- The shape of a geometry with something in the place of each point list. -/
inductive Sketch (α : Type u) where
  | point (list : α)
  | lineString (list : α)
  | polygon (exterior : α) (interiors : List α)
  | multiPoint (parts : List α)
  | multiLineString (parts : List α)
  | multiPolygon (parts : List (α × List α))
  | collection (members : List (Sketch α))

namespace Sketch

section

variable {α : Type u} {β : Type v}

mutual

/-- The sketch of a geometry, by what is made of a point list. -/
def ofGeometry (f : List (Point Float) → α) : Geometry Float → Sketch α
  | .point p => .point (f [p])
  | .lineString line => .lineString (f line.points)
  | .polygon area =>
    .polygon (f area.exterior.points) (area.interiors.map fun ring => f ring.points)
  | .multiPoint parts => .multiPoint (parts.map fun p => f [p])
  | .multiLineString parts => .multiLineString (parts.map fun line => f line.points)
  | .multiPolygon parts =>
    .multiPolygon (parts.map fun area =>
      (f area.exterior.points, area.interiors.map fun ring => f ring.points))
  | .collection members => .collection (ofMembers f members)

/-- The sketches of the members of a collection. -/
def ofMembers (f : List (Point Float) → α) : List (Geometry Float) → List (Sketch α)
  | [] => []
  | g :: rest => ofGeometry f g :: ofMembers f rest

end

mutual

/-- What stands in the places of the point lists, in order. -/
def lists : Sketch α → List α
  | .point list => [list]
  | .lineString list => [list]
  | .polygon exterior interiors => exterior :: interiors
  | .multiPoint parts => parts
  | .multiLineString parts => parts
  | .multiPolygon parts => parts.flatMap fun (exterior, interiors) => exterior :: interiors
  | .collection members => memberLists members

/-- What stands in the places of the point lists of members. -/
def memberLists : List (Sketch α) → List α
  | [] => []
  | sketch :: rest => lists sketch ++ memberLists rest

end

end

end Sketch

/-- The point lists of a geometry, in the order in which its points are visited. -/
def Geometry.pointLists (g : Geometry Float) : List (List (Point Float)) :=
  (Sketch.ofGeometry id g).lists

namespace Sketch

mutual

/-- Nothing is lost: the points of the lists are those the geometry visits. -/
theorem flatten_pointLists : (g : Geometry Float) → g.pointLists.flatten = g.points
  | .point p => by simp [Geometry.pointLists, ofGeometry, lists]
  | .lineString line => by simp [Geometry.pointLists, ofGeometry, lists]
  | .polygon area => by
    simp [Geometry.pointLists, ofGeometry, lists, Polygon.points, List.flatMap]
  | .multiPoint parts => by
    have h : (parts.map fun p => [p]).flatten = parts := by
      induction parts with
      | nil => rfl
      | cons p rest ih => simp [ih]
    simpa [Geometry.pointLists, ofGeometry, lists] using h
  | .multiLineString parts => by
    simp [Geometry.pointLists, ofGeometry, lists, List.flatMap]
  | .multiPolygon parts => by
    induction parts with
    | nil => rfl
    | cons area rest ih =>
      simp only [Geometry.pointLists, ofGeometry, lists, Geometry.points_multiPolygon] at ih ⊢
      rw [List.map_cons, List.flatMap_cons, List.flatten_append, ih, List.flatMap_cons]
      simp [Polygon.points, List.flatMap]
  | .collection members => by
    simp only [Geometry.pointLists, ofGeometry, lists]
    rw [flatten_memberLists members, Geometry.points_collection]

/-- The same for the members of a collection, which are visited one after the other. -/
theorem flatten_memberLists : (members : List (Geometry Float)) →
    (memberLists (ofMembers id members)).flatten = members.flatMap Geometry.points
  | [] => rfl
  | g :: rest => by
    simp only [ofMembers, memberLists, List.flatten_append, List.flatMap_cons]
    rw [flatten_memberLists rest]
    exact congrArg (· ++ _) (flatten_pointLists g)

end

end Sketch

/-- The text of a coordinate list, if there are points. -/
def RenderContext.listText (context : RenderContext) (points : List (Point Float)) :
    Option String :=
  if points.isEmpty then none else some (context.formatCoordinates points)

/-! ## Reading -/

namespace Sketch

open Markup (Node Head)

/-- The content of an element with a name. -/
def content? (name : String) : Node → Option (List Node)
  | .text _ => none
  | .element other _ content => if other = name then some content else none

/-- The only node. -/
def only? : List Node → Option Node
  | [node] => some node
  | _ => none

/-- The text of a coordinate list; an empty element is a list without points. -/
def list? (node : Node) : Option (Option String) := do
  match ← content? "gml:coordinates" node with
  | [] => some none
  | [.text text] => some (some text)
  | _ => none

/-- The coordinate list inside a point or a line. -/
def inner? (name : String) (node : Node) : Option (Option String) := do
  list? (← only? (← content? name node))

/-- The coordinate list of a ring that is a boundary. -/
def ring? (boundary : String) (node : Node) : Option (Option String) := do
  inner? "gml:LinearRing" (← only? (← content? boundary node))

/-- The boundaries of an area. -/
def area? (node : Node) : Option (Option String × List (Option String)) := do
  match ← content? "gml:Polygon" node with
  | [] => none
  | exterior :: interiors =>
    return (← ring? "gml:outerBoundaryIs" exterior,
      ← interiors.mapM (ring? "gml:innerBoundaryIs"))

/-- A member of a geometry with several parts. -/
def member? {β : Type} (wrapper : String) (part? : Node → Option β) (node : Node) : Option β := do
  part? (← only? (← content? wrapper node))

mutual

/-- The sketch of a geometry, with the texts of the coordinate lists. -/
def sketch? (node : Node) : Option (Sketch (Option String)) :=
  match node with
  | .text _ => none
  | .element name _ content =>
    match name with
    | "gml:Point" => (inner? "gml:Point" node).map point
    | "gml:LineString" => (inner? "gml:LineString" node).map lineString
    | "gml:Polygon" => (area? node).map fun (exterior, interiors) => polygon exterior interiors
    | "gml:MultiPoint" =>
      (content.mapM (member? "gml:pointMember" (inner? "gml:Point"))).map multiPoint
    | "gml:MultiLineString" =>
      (content.mapM (member? "gml:lineStringMember" (inner? "gml:LineString"))).map multiLineString
    | "gml:MultiPolygon" =>
      (content.mapM (member? "gml:polygonMember" area?)).map multiPolygon
    | "gml:MultiGeometry" => (members? content).map collection
    | _ => none

/-- The sketches of the members of a collection. -/
def members? : List Node → Option (List (Sketch (Option String)))
  | [] => some []
  | .element "gml:geometryMember" _ [node] :: rest => do
    return (← sketch? node) :: (← members? rest)
  | _ => none

end

/-! ## What is read of the markup of a geometry -/

/-- Reading a list item by item succeeds when every item is read, and gives what the items are read
as. The readers of this module go through lists in this way only. -/
theorem mapM_eq_some {α : Type u} {β : Type v} {f : α → Option β} {g : α → β} {xs : List α}
    (h : ∀ x ∈ xs, f x = some (g x)) : xs.mapM f = some (xs.map g) := by
  induction xs with
  | nil => rfl
  | cons x rest ih =>
    rw [List.mapM_cons, h x (by simp), ih fun y hy => h y (by simp [hy])]
    rfl

/-- A part is read through its wrapper as it is read by itself, since the wrapper holds nothing
else. -/
theorem member?_memberTree {β : Type} {wrapper : String} {part? : Node → Option β}
    {tree : Markup.Tree} {b : β} (hpart : part? (tree.node none) = some b) :
    member? wrapper part? ((GeometryEncoder.memberTree (some wrapper) tree).node none) =
      some b := by
  simp [GeometryEncoder.memberTree, member?, content?, only?, hpart]

section

variable {encoder : GeometryEncoder} (h : encoder.dialect = .gml)

include h

/-- A coordinate list is read as its text. -/
theorem list?_coordinatesTree (points : List (Point Float)) :
    list? ((encoder.coordinatesTree points).node none) =
      some (encoder.context.listText points) := by
  unfold GeometryEncoder.coordinatesTree RenderContext.listText
  split
  · simp [list?, content?, h, Dialect.gml]
  · next hne =>
    have htext : (encoder.context.formatCoordinates points).toList ≠ [] := by
      rw [ne_eq, String.toList_eq_nil_iff]
      exact encoder.context.formatCoordinates_ne_empty (by simpa using hne)
    simp [list?, content?, h, Dialect.gml, Markup.textNodes, htext]

/-- The coordinate list of a point is read from its element, whatever attributes this has. -/
theorem inner?_pointTree (attributes : Attributes) (p : Point Float) :
    inner? "gml:Point" ((encoder.pointTree attributes p).node none) =
      some (encoder.context.listText [p]) := by
  have hlist := list?_coordinatesTree h [p]
  simp [GeometryEncoder.pointTree, inner?, content?, only?, h, Dialect.gml,
    hlist]

/-- The coordinate list of a line is read from its element, whatever attributes this has. -/
theorem inner?_lineStringTree (attributes : Attributes) (line : LineString Float) :
    inner? "gml:LineString" ((encoder.lineStringTree attributes line).node none) =
      some (encoder.context.listText line.points) := by
  have hlist := list?_coordinatesTree h line.points
  simp [GeometryEncoder.lineStringTree, inner?, content?, only?, h, Dialect.gml, hlist]

/-- The coordinate list of a ring is read through the two elements around it. The name of the
boundary tells the exterior from the interiors. -/
theorem ring?_ringTree (boundary : String) (ring : LinearRing Float) :
    ring? boundary ((encoder.ringTree boundary ring).node none) =
      some (encoder.context.listText ring.points) := by
  have hlist := list?_coordinatesTree h ring.points
  simp [GeometryEncoder.ringTree, ring?, inner?, content?, only?, h, Dialect.gml, hlist]

/-- The exterior of an area is told apart from its holes. -/
theorem area?_polygonTree (attributes : Attributes) (area : Polygon Float) :
    area? ((encoder.polygonTree attributes area).node none) =
      some (encoder.context.listText area.exterior.points,
        area.interiors.map fun ring => encoder.context.listText ring.points) := by
  have hexterior := ring?_ringTree h "gml:outerBoundaryIs" area.exterior
  have hinteriors : area.interiors.mapM
      (ring? "gml:innerBoundaryIs" ∘ Markup.Tree.node none ∘
        encoder.ringTree "gml:innerBoundaryIs") =
        some (area.interiors.map fun ring => encoder.context.listText ring.points) :=
    mapM_eq_some fun ring _ => ring?_ringTree h "gml:innerBoundaryIs" ring
  simp [GeometryEncoder.polygonTree, area?, content?, h, Dialect.gml,
    hexterior, hinteriors]

mutual

/-- The markup of a geometry is read as its sketch. -/
theorem sketch?_treeWith (attributes : Attributes) :
    (g : Geometry Float) → sketch? ((encoder.treeWith attributes g).node none) =
      some (.ofGeometry encoder.context.listText g)
  | .point p => by
    have hp := inner?_pointTree h attributes p
    simp only [GeometryEncoder.treeWith, GeometryEncoder.pointTree, Markup.Tree.node_element_none,
      h, Dialect.gml] at hp ⊢
    simp only [sketch?, hp, ofGeometry, Option.map_some]
  | .lineString line => by
    have hline := inner?_lineStringTree h attributes line
    simp only [GeometryEncoder.treeWith, GeometryEncoder.lineStringTree,
      Markup.Tree.node_element_none, h, Dialect.gml] at hline ⊢
    simp only [sketch?, hline, ofGeometry, Option.map_some]
  | .polygon area => by
    have harea := area?_polygonTree h attributes area
    simp only [GeometryEncoder.treeWith, GeometryEncoder.polygonTree,
      Markup.Tree.node_element_none, h, Dialect.gml] at harea ⊢
    simp only [sketch?, harea, ofGeometry, Option.map_some]
  | .multiPoint parts => by
    have hparts : parts.mapM (member? "gml:pointMember" (inner? "gml:Point") ∘
        Markup.Tree.node none ∘ fun p => GeometryEncoder.memberTree (some "gml:pointMember")
          (encoder.pointTree [] p)) = some (parts.map fun p => encoder.context.listText [p]) :=
      mapM_eq_some fun p _ => member?_memberTree (inner?_pointTree h [] p)
    simp [GeometryEncoder.treeWith, sketch?, h, Dialect.gml, hparts, ofGeometry]
  | .multiLineString parts => by
    have hparts : parts.mapM (member? "gml:lineStringMember" (inner? "gml:LineString") ∘
        Markup.Tree.node none ∘ fun line => GeometryEncoder.memberTree (some "gml:lineStringMember")
          (encoder.lineStringTree [] line)) =
        some (parts.map fun line => encoder.context.listText line.points) :=
      mapM_eq_some fun line _ => member?_memberTree (inner?_lineStringTree h [] line)
    simp [GeometryEncoder.treeWith, sketch?, h, Dialect.gml, hparts, ofGeometry]
  | .multiPolygon parts => by
    have hparts : parts.mapM (member? "gml:polygonMember" area? ∘
        Markup.Tree.node none ∘ fun area => GeometryEncoder.memberTree (some "gml:polygonMember")
          (encoder.polygonTree [] area)) =
        some (parts.map fun area => (encoder.context.listText area.exterior.points,
          area.interiors.map fun ring => encoder.context.listText ring.points)) :=
      mapM_eq_some fun area _ => member?_memberTree (area?_polygonTree h [] area)
    simp [GeometryEncoder.treeWith, sketch?, h, Dialect.gml, hparts, ofGeometry]
  | .collection members => by
    have hmembers := members?_memberTrees members
    simp [GeometryEncoder.treeWith, sketch?, h, Dialect.gml, hmembers, ofGeometry]

/-- The members of a collection are read one after the other. Each is read as the sketch of its
geometry, so reading a collection rests on reading its members. -/
theorem members?_memberTrees :
    (members : List (Geometry Float)) →
      members? ((encoder.memberTrees members).map (Markup.Tree.node none)) =
        some (ofMembers encoder.context.listText members)
  | [] => by simp [GeometryEncoder.memberTrees, members?, ofMembers]
  | g :: rest => by
    have hg := sketch?_treeWith [] g
    have hrest := members?_memberTrees rest
    simp [GeometryEncoder.memberTrees, GeometryEncoder.memberTree, h, Dialect.gml, members?, hg,
      hrest, ofMembers]

end

end

/-! ## Elements -/

/-- A text holds no elements, so there is nothing to find in it. -/
theorem contentsOf_textNodes (name : String) (text : List Char) :
    (Markup.textNodes text).flatMap (Node.contentsOf name) = [] := by
  unfold Markup.textNodes
  split
  · rfl
  · rfl

/-- A wrapper adds no coordinate list to what it wraps. -/
theorem contentsOf_memberTree {wrapper : String} (hw : wrapper ≠ "gml:coordinates")
    (tree : Markup.Tree) :
    ((GeometryEncoder.memberTree (some wrapper) tree).node none).contentsOf "gml:coordinates" =
      (tree.node none).contentsOf "gml:coordinates" := by
  simp [GeometryEncoder.memberTree, Node.contentsOf_element, hw]

/-- The text of a coordinate list as the content of an element. -/
def listContent (context : RenderContext) (points : List (Point Float)) : List Node :=
  Markup.textNodes (context.formatCoordinates points).toList

section

variable {encoder : GeometryEncoder} (h : encoder.dialect = .gml)

include h

/-- A coordinate list is found once. Without points it is an empty element, and is found with no
content. -/
theorem contentsOf_coordinatesTree (points : List (Point Float)) :
    ((encoder.coordinatesTree points).node none).contentsOf "gml:coordinates" =
      [listContent encoder.context points] := by
  unfold GeometryEncoder.coordinatesTree
  split
  · next hempty =>
    obtain rfl : points = [] := by simpa using hempty
    simp [Node.contentsOf_element, h, Dialect.gml, listContent,
      RenderContext.formatCoordinates]
  · simp [Node.contentsOf_element, h, Dialect.gml, listContent, contentsOf_textNodes]

/-- A point has one coordinate list, with the point alone. -/
theorem contentsOf_pointTree (attributes : Attributes) (p : Point Float) :
    ((encoder.pointTree attributes p).node none).contentsOf "gml:coordinates" =
      [listContent encoder.context [p]] := by
  simp [GeometryEncoder.pointTree, Node.contentsOf_element,
    contentsOf_coordinatesTree h, h, Dialect.gml]

/-- A line has one coordinate list with all its points, also when there are none. -/
theorem contentsOf_lineStringTree (attributes : Attributes) (line : LineString Float) :
    ((encoder.lineStringTree attributes line).node none).contentsOf "gml:coordinates" =
      [listContent encoder.context line.points] := by
  simp [GeometryEncoder.lineStringTree, Node.contentsOf_element,
    contentsOf_coordinatesTree h, h, Dialect.gml]

/-- A ring has one coordinate list, since its boundary is another element. -/
theorem contentsOf_ringTree {boundary : String} (hb : boundary ≠ "gml:coordinates")
    (ring : LinearRing Float) :
    ((encoder.ringTree boundary ring).node none).contentsOf "gml:coordinates" =
      [listContent encoder.context ring.points] := by
  simp [GeometryEncoder.ringTree, Node.contentsOf_element,
    contentsOf_coordinatesTree h, h, hb, Dialect.gml]

/-- The coordinate list of the exterior comes before those of the interiors, as in the order of the
points. -/
theorem contentsOf_polygonTree (attributes : Attributes) (area : Polygon Float) :
    ((encoder.polygonTree attributes area).node none).contentsOf "gml:coordinates" =
      listContent encoder.context area.exterior.points ::
        area.interiors.map fun ring => listContent encoder.context ring.points := by
  have hexterior := contentsOf_ringTree h
    (show "gml:outerBoundaryIs" ≠ "gml:coordinates" by decide) area.exterior
  have hinteriors := contentsOf_ringTree h
    (show "gml:innerBoundaryIs" ≠ "gml:coordinates" by decide)
  simp [GeometryEncoder.polygonTree, Node.contentsOf_element, h, Dialect.gml, hexterior, hinteriors,
    List.flatMap_map, ← List.map_eq_flatMap]

mutual

/-- There is one coordinate list for each point list, in their order. -/
theorem contentsOf_treeWith (attributes : Attributes) :
    (g : Geometry Float) →
      ((encoder.treeWith attributes g).node none).contentsOf "gml:coordinates" =
        g.pointLists.map (listContent encoder.context)
  | .point p => by
    simp [GeometryEncoder.treeWith, contentsOf_pointTree h, Geometry.pointLists, ofGeometry, lists]
  | .lineString line => by
    simp [GeometryEncoder.treeWith, contentsOf_lineStringTree h, Geometry.pointLists, ofGeometry,
      lists]
  | .polygon area => by
    simp [GeometryEncoder.treeWith, contentsOf_polygonTree h, Geometry.pointLists, ofGeometry,
      lists]
  | .multiPoint parts => by
    simp [GeometryEncoder.treeWith, Node.contentsOf_element, h,
      Dialect.gml, List.flatMap_map, contentsOf_memberTree, contentsOf_pointTree h,
      Geometry.pointLists, ofGeometry, lists, ← List.map_eq_flatMap]
  | .multiLineString parts => by
    simp [GeometryEncoder.treeWith, Node.contentsOf_element, h,
      Dialect.gml, List.flatMap_map, contentsOf_memberTree, contentsOf_lineStringTree h,
      Geometry.pointLists, ofGeometry, lists, ← List.map_eq_flatMap]
  | .multiPolygon parts => by
    simp [GeometryEncoder.treeWith, Node.contentsOf_element, h,
      Dialect.gml, List.flatMap_map, contentsOf_memberTree, contentsOf_polygonTree h,
      Geometry.pointLists, ofGeometry, lists, List.map_flatMap, Function.comp_def]
  | .collection members => by
    have hmembers := contentsOf_memberTrees members
    simp only [GeometryEncoder.treeWith, Markup.Tree.node_element_none, Node.contentsOf_element, h,
      Geometry.pointLists, ofGeometry, lists]
    rw [hmembers]
    rfl

/-- The coordinate lists of the members of a collection are found one member after the other. -/
theorem contentsOf_memberTrees :
    (members : List (Geometry Float)) →
      ((encoder.memberTrees members).map (Markup.Tree.node none)).flatMap
        (Node.contentsOf "gml:coordinates") =
          (memberLists (ofMembers id members)).map (listContent encoder.context)
  | [] => by simp [GeometryEncoder.memberTrees, ofMembers, memberLists]
  | g :: rest => by
    have hg := contentsOf_treeWith [] g
    have hrest := contentsOf_memberTrees rest
    have hmember := contentsOf_memberTree (show "gml:geometryMember" ≠ "gml:coordinates" by decide)
      (encoder.treeWith [] g)
    simp only [GeometryEncoder.memberTrees, h, Dialect.gml, List.map_cons, List.flatMap_cons,
      ofMembers, memberLists, List.map_append]
    rw [hmember, hg, hrest]
    rfl

end

end

/-! ## Attributes -/

/-- No element of the node names a spatial reference system. -/
def Unplaced (node : Node) : Prop :=
  ∀ element ∈ node.elements, "srsName" ∉ element.1.attributes.map Prod.fst

/-- No element of an element names a reference system when it has no such attribute and none of its
content does. -/
theorem unplaced_element {name : String} {attributes : Attributes} {content : List Node} :
    Unplaced (.element name attributes content) ↔
      "srsName" ∉ attributes.map Prod.fst ∧ ∀ node ∈ content, Unplaced node := by
  have helements : ∀ element, element ∈ (Node.element name attributes content).elements ↔
      element = (⟨name, attributes⟩, content) ∨ ∃ node ∈ content, element ∈ node.elements := by
    simp [Node.elements, Node.elementsIn_eq_flatMap]
  constructor
  · intro hnode
    exact ⟨hnode _ ((helements _).2 (.inl rfl)),
      fun node hmem element he => hnode element ((helements _).2 (.inr ⟨node, hmem, he⟩))⟩
  · rintro ⟨hroot, hcontent⟩ element he
    rcases (helements element).1 he with rfl | ⟨node, hmem, he⟩
    · exact hroot
    · exact hcontent node hmem element he

/-- An element without attributes leaves the question to its content. All elements but the outermost
one have no attributes or those of a coordinate list. -/
theorem unplaced_element_nil {name : String} {content : List Node} :
    Unplaced (.element name [] content) ↔ ∀ node ∈ content, Unplaced node := by
  simp [unplaced_element]

/-- A text has no elements that could name a reference system. -/
theorem unplaced_textNodes (text : List Char) : ∀ node ∈ Markup.textNodes text, Unplaced node := by
  intro node hnode
  unfold Markup.textNodes at hnode
  split at hnode
  · cases hnode
  · obtain rfl : node = _ := by simpa using hnode
    simp [Unplaced, Node.elements]

section

variable (encoder : GeometryEncoder)

/-- The attributes of a coordinate list are about separators. None of them names a reference
system. -/
theorem unplaced_coordinatesTree (points : List (Point Float)) :
    Unplaced ((encoder.coordinatesTree points).node none) := by
  have hlist : "srsName" ∉ encoder.listAttributes.map Prod.fst := by
    unfold GeometryEncoder.listAttributes
    split
    · simp [RenderContext.coordinateAttributes]
    · simp
  unfold GeometryEncoder.coordinatesTree
  split
  · exact unplaced_element.2 ⟨hlist, by simp⟩
  · exact unplaced_element.2 ⟨hlist, unplaced_textNodes _⟩

/-- A point without attributes names no reference system. -/
theorem unplaced_pointTree (p : Point Float) : Unplaced ((encoder.pointTree [] p).node none) := by
  rw [GeometryEncoder.pointTree, Markup.Tree.node_element_none, unplaced_element_nil]
  simpa using unplaced_coordinatesTree encoder [p]

/-- A line without attributes names no reference system. -/
theorem unplaced_lineStringTree (line : LineString Float) :
    Unplaced ((encoder.lineStringTree [] line).node none) := by
  rw [GeometryEncoder.lineStringTree, Markup.Tree.node_element_none, unplaced_element_nil]
  simpa using unplaced_coordinatesTree encoder line.points

/-- A ring names no reference system, whichever boundary it is. -/
theorem unplaced_ringTree (boundary : String) (ring : LinearRing Float) :
    Unplaced ((encoder.ringTree boundary ring).node none) := by
  rw [GeometryEncoder.ringTree, Markup.Tree.node_element_none, unplaced_element_nil]
  simpa [unplaced_element_nil] using
    unplaced_coordinatesTree encoder ring.points

/-- An area without attributes names no reference system, and neither do its rings. -/
theorem unplaced_polygonTree (area : Polygon Float) :
    Unplaced ((encoder.polygonTree [] area).node none) := by
  rw [GeometryEncoder.polygonTree, Markup.Tree.node_element_none, unplaced_element_nil]
  simp [unplaced_ringTree]

omit encoder in
/-- A member names no reference system in its wrapper if it names none without. -/
theorem unplaced_memberTree {wrapper : Option String} {tree : Markup.Tree}
    (h : Unplaced (tree.node none)) :
    Unplaced ((GeometryEncoder.memberTree wrapper tree).node none) := by
  cases wrapper with
  | none => exact h
  | some name =>
    rw [GeometryEncoder.memberTree, Markup.Tree.node_element_none, unplaced_element_nil]
    simpa using h

mutual

/-- Without attributes, a geometry names no spatial reference system anywhere. -/
theorem unplaced_treeWith : (g : Geometry Float) → Unplaced ((encoder.treeWith [] g).node none)
  | .point p => by
    rw [GeometryEncoder.treeWith]
    exact unplaced_pointTree encoder p
  | .lineString line => by
    rw [GeometryEncoder.treeWith]
    exact unplaced_lineStringTree encoder line
  | .polygon area => by
    rw [GeometryEncoder.treeWith]
    exact unplaced_polygonTree encoder area
  | .multiPoint parts => by
    rw [GeometryEncoder.treeWith, Markup.Tree.node_element_none, unplaced_element_nil]
    simpa using fun p _ => unplaced_memberTree (unplaced_pointTree encoder p)
  | .multiLineString parts => by
    rw [GeometryEncoder.treeWith, Markup.Tree.node_element_none, unplaced_element_nil]
    simpa using fun line _ => unplaced_memberTree (unplaced_lineStringTree encoder line)
  | .multiPolygon parts => by
    rw [GeometryEncoder.treeWith, Markup.Tree.node_element_none, unplaced_element_nil]
    simpa using fun area _ => unplaced_memberTree (unplaced_polygonTree encoder area)
  | .collection members => by
    rw [GeometryEncoder.treeWith, Markup.Tree.node_element_none, unplaced_element_nil]
    simpa using unplaced_memberTrees members

/-- No member of a collection names a reference system: they are written without the attributes of
the collection. -/
theorem unplaced_memberTrees : (members : List (Geometry Float)) →
    ∀ tree ∈ encoder.memberTrees members, Unplaced (tree.node none)
  | [] => by simp [GeometryEncoder.memberTrees]
  | g :: rest => by
    intro tree htree
    rw [GeometryEncoder.memberTrees] at htree
    rcases List.mem_cons.1 htree with rfl | htree
    · exact unplaced_memberTree (unplaced_treeWith g)
    · exact unplaced_memberTrees rest tree htree

end

/-- The attributes of a geometry stand in its outermost element. -/
theorem exists_treeWith (g : Geometry Float) : ∃ name members, ∀ attributes,
    encoder.treeWith attributes g = .element name attributes members := by
  cases g with
  | point p => exact ⟨_, _, fun _ => by rw [GeometryEncoder.treeWith, GeometryEncoder.pointTree]⟩
  | lineString line =>
    exact ⟨_, _, fun _ => by rw [GeometryEncoder.treeWith, GeometryEncoder.lineStringTree]⟩
  | polygon area =>
    exact ⟨_, _, fun _ => by rw [GeometryEncoder.treeWith, GeometryEncoder.polygonTree]⟩
  | multiPoint parts => exact ⟨_, _, fun _ => by rw [GeometryEncoder.treeWith]⟩
  | multiLineString parts => exact ⟨_, _, fun _ => by rw [GeometryEncoder.treeWith]⟩
  | multiPolygon parts => exact ⟨_, _, fun _ => by rw [GeometryEncoder.treeWith]⟩
  | collection members => exact ⟨_, _, fun _ => by rw [GeometryEncoder.treeWith]⟩

end

/-! ## Decoding -/

/-- The spatial reference system and the sketch of the geometry in a fragment. -/
def decode? (text : String) : Option (Option String × Sketch (Option String)) := do
  match ← only? (← Markup.read? text) with
  | .text _ => none
  | .element name attributes content =>
    return (attributes.lookup "srsName", ← sketch? (.element name attributes content))

/-- Decoding undoes encoding. Of every finite geometry the markup tells the kind, the nesting, the
text of each coordinate list and the spatial reference system. There is one coordinate list for
each point list, in the order in which the points are visited, and the spatial reference system is
named by the outermost element only. -/
theorem decode_encodeToString (context : RenderContext) (hcompact : context.verbose = false)
    (srsName : Option String) {g : Geometry Float} (hfin : g.isFinite) :
    ∃ text name content,
      GeometryEncoder.encodeToString { context, dialect := .gml, srsName } g = .ok text ∧
      Markup.read? text = some [.element name (srsAttributes srsName) content] ∧
      decode? text = some (srsName, .ofGeometry context.listText g) ∧
      Node.contentsOf "gml:coordinates" (.element name (srsAttributes srsName) content) =
        g.pointLists.map (listContent context) ∧
      g.pointLists.flatten = g.points ∧
      ∀ node ∈ content, Unplaced node := by
  let encoder : GeometryEncoder := { context, dialect := .gml, srsName }
  have hgml : encoder.dialect = .gml := rfl
  obtain ⟨name, members, htree⟩ := exists_treeWith encoder g
  have hnode : ∀ attributes, (encoder.treeWith attributes g).node none =
      .element name attributes (members.map (Markup.Tree.node none)) := by
    intro attributes
    rw [htree, Markup.Tree.node_element_none]
  have hread : Markup.read? (Markup.render context.verbose (encoder.tree g).events) =
      some [.element name (srsAttributes srsName) (members.map (Markup.Tree.node none))] := by
    rw [hcompact, encoder.read?_render_tree Dialect.isSound_gml, ← hnode]
    rfl
  have hsketch := sketch?_treeWith hgml (srsAttributes srsName) g
  have hlists := contentsOf_treeWith hgml (srsAttributes srsName) g
  have hunplaced := unplaced_treeWith encoder g
  rw [hnode] at hsketch hlists hunplaced
  rw [unplaced_element_nil] at hunplaced
  have hsrs : (srsAttributes srsName).lookup "srsName" = srsName := by
    cases srsName <;> rfl
  refine ⟨_, name, _, encoder.encodeToString_eq hfin, hread, ?_, hlists, flatten_pointLists g,
    hunplaced⟩
  unfold decode?
  rw [hread]
  simp [only?, hsrs, hsketch, encoder]

/-- A collection of a point, an area without rings and a collection without members. -/
def nested : Geometry Float :=
  .collection [.point { x := 1.5, y := -2.0 }, .polygon {}, .collection []]

/-- An empty area and an empty collection are parts that a reader must not lose: both come back with
their kinds and in their places, although only the point has coordinates. -/
theorem decode_encodeToString_nested :
    nested.isFinite ∧ ({} : RenderContext).verbose = false ∧ ∃ text,
      GeometryEncoder.encodeToString { context := {}, dialect := .gml, srsName := some "EPSG:4326" }
        nested = .ok text ∧
      decode? text = some (some "EPSG:4326", .collection [
        .point (RenderContext.listText {} [{ x := 1.5, y := -2.0 }]), .polygon none [],
        .collection []]) := by
  have hfin : nested.isFinite := by decide +kernel
  obtain ⟨text, _, _, hok, _, hdecode, _⟩ :=
    decode_encodeToString {} rfl (some "EPSG:4326") hfin
  exact ⟨hfin, rfl, text, hok, hdecode⟩

end Sketch

end Cartouche
