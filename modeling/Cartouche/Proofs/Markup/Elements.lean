import Cartouche.Proofs.Markup.Geometry

/-!
# Elements by their names

`Tree.named` finds the elements of a name in a tree, in the order in which they begin, and
`Tree.content?` is the text of one. Markup that is no tree, because an element in it does not end,
is searched event by event: `textsBehind` gives the texts directly behind the start tags of a name.
Where there are trees the two agree (`textsBehind_allEvents`). Of all elements of a geometry only
the coordinate lists have a text (`GeometryEncoder.textsIn_treeWith`).
-/

namespace Cartouche

open Markup (Tree)

namespace Markup

namespace Tree

mutual

/-- The elements of a name, in the order in which they begin. -/
def named (name : String) : Tree → List Tree
  | .empty other attributes => if other = name then [.empty other attributes] else []
  | .text other attributes content => if other = name then [.text other attributes content] else []
  | .element other attributes members =>
    (if other = name then [.element other attributes members] else []) ++ namedIn name members

/-- The elements of a name in several trees. -/
def namedIn (name : String) : List Tree → List Tree
  | [] => []
  | tree :: rest => named name tree ++ namedIn name rest

end

/-- Several trees are searched one by one. -/
theorem namedIn_eq_flatMap (name : String) (trees : List Tree) :
    namedIn name trees = trees.flatMap (named name) := by
  induction trees with
  | nil => rfl
  | cons tree rest ih => rw [namedIn, ih, List.flatMap_cons]

/-- The search goes through the trees in order, so what is found in the first part comes first. -/
@[simp] theorem namedIn_append (name : String) (first second : List Tree) :
    namedIn name (first ++ second) = namedIn name first ++ namedIn name second := by
  simp [namedIn_eq_flatMap]

/-- The text of an element that holds one. -/
def content? : Tree → Option String
  | .text _ _ content => some content
  | _ => none

/-- The texts of the elements of a name in trees. -/
def textsIn (name : String) (trees : List Tree) : List String :=
  (namedIn name trees).filterMap content?

/-- Without trees there are no texts. -/
@[simp] theorem textsIn_nil (name : String) : textsIn name [] = [] := rfl

/-- The texts of the first part come before those of the second. -/
@[simp] theorem textsIn_append (name : String) (first second : List Tree) :
    textsIn name (first ++ second) = textsIn name first ++ textsIn name second := by
  simp [textsIn]

/-- The texts of the first tree come before those of the others. -/
theorem textsIn_cons (name : String) (tree : Tree) (rest : List Tree) :
    textsIn name (tree :: rest) = textsIn name [tree] ++ textsIn name rest :=
  textsIn_append name [tree] rest

/-- The same as a rule that ends: it stops at lists with one tree, for which the rules below tell
the texts by the form of the tree. -/
@[simp] theorem textsIn_cons_cons (name : String) (first second : Tree) (rest : List Tree) :
    textsIn name (first :: second :: rest) =
      textsIn name [first] ++ textsIn name (second :: rest) :=
  textsIn_cons name first (second :: rest)

/-- An empty element has no text, whatever it is called. -/
@[simp] theorem textsIn_empty (name other : String) (attributes : Attributes) :
    textsIn name [.empty other attributes] = [] := by
  by_cases h : other = name <;> simp [textsIn, namedIn, named, h, content?]

/-- An element with a text adds this text if it has the name, and nothing otherwise. -/
@[simp] theorem textsIn_text (name other : String) (attributes : Attributes) (content : String) :
    textsIn name [.text other attributes content] = if other = name then [content] else [] := by
  by_cases h : other = name <;> simp [textsIn, namedIn, named, h, content?]

/-- The texts in an element are those in its members. -/
@[simp] theorem textsIn_element (name other : String) (attributes : Attributes)
    (members : List Tree) :
    textsIn name [.element other attributes members] = textsIn name members := by
  by_cases h : other = name
  · simp only [textsIn, namedIn, named, h, if_true, List.append_nil]
    rfl
  · simp [textsIn, namedIn, named, h]

/-- Trees without texts of a name have none together. -/
theorem textsIn_eq_nil {name : String} {trees : List Tree}
    (h : ∀ tree ∈ trees, textsIn name [tree] = []) : textsIn name trees = [] := by
  induction trees with
  | nil => rfl
  | cons tree rest ih =>
    rw [textsIn_cons, h tree List.mem_cons_self,
      ih fun other hother => h other (List.mem_cons_of_mem tree hother), List.append_nil]

end Tree

/-- The texts directly behind the start tags of a name. -/
def textsBehind (name : String) : List Event → List String
  | .startTag tag _ :: .text content :: rest =>
    if tag = name then content :: textsBehind name rest else textsBehind name rest
  | _ :: rest => textsBehind name rest
  | [] => []

/-- A start tag that no text follows is passed over. -/
theorem textsBehind_startTag (name tag : String) (attributes : Attributes) {events : List Event}
    (h : ∀ event ∈ events.head?, event.isText = false) :
    textsBehind name (.startTag tag attributes :: events) = textsBehind name events := by
  cases events with
  | nil => rfl
  | cons event rest =>
    cases event with
    | text content => exact absurd (h (.text content) rfl) (by simp [Event.isText])
    | _ => rfl

/-- A start tag of another name is passed over, whatever follows it. -/
theorem textsBehind_startTag_of_ne {name tag : String} (h : tag ≠ name) (attributes : Attributes)
    (events : List Event) :
    textsBehind name (.startTag tag attributes :: events) = textsBehind name events := by
  cases events with
  | nil => rfl
  | cons event rest =>
    cases event with
    | text content => exact if_neg h
    | _ => rfl

mutual

/-- The texts that stand directly behind start tags in a tree are those of its elements. -/
theorem textsBehind_tree (name : String) (rest : List Event) :
    (tree : Tree) → textsBehind name (tree.events ++ rest) =
      Tree.textsIn name [tree] ++ textsBehind name rest
  | .empty other attributes => by
    rw [Tree.events_empty, Tree.textsIn_empty]
    rfl
  | .text other attributes content => by
    rw [Tree.events_text, Tree.textsIn_text]
    simp only [Event.textElement, Event.element, List.cons_append, List.nil_append, textsBehind]
    split <;> rfl
  | .element other attributes members => by
    -- Behind the start tag stands the first tag of a member or the end tag, so no text.
    have hmembers := textsBehind_allEvents name (.endTag other :: rest) members
    have hhead : ∀ event ∈ (Tree.allEvents members ++ .endTag other :: rest).head?,
        event.isText = false := by
      cases members with
      | nil => simp [Event.isText]
      | cons tree trees =>
        obtain ⟨tag, tagAttributes, events, hevents⟩ := tree.exists_events
        rcases hevents with hevents | hevents <;> simp [hevents, Event.isText]
    rw [Tree.events_element, Event.element, List.cons_append, List.cons_append,
      List.append_assoc, List.singleton_append, textsBehind_startTag name other attributes hhead,
      hmembers, Tree.textsIn_element]
    rfl

/-- The same for several trees with other markup behind them. -/
theorem textsBehind_allEvents (name : String) (rest : List Event) :
    (trees : List Tree) → textsBehind name (Tree.allEvents trees ++ rest) =
      Tree.textsIn name trees ++ textsBehind name rest
  | [] => rfl
  | tree :: trees => by
    rw [Tree.allEvents_cons, List.append_assoc, textsBehind_tree name _ tree,
      textsBehind_allEvents name rest trees, Tree.textsIn_cons name tree trees, List.append_assoc]

end

end Markup

namespace GeometryEncoder

variable {name : String}

/-- A wrapper has no text of its own. -/
theorem textsIn_memberTree (wrapper : Option String) {tree : Tree}
    (h : Tree.textsIn name [tree] = []) : Tree.textsIn name [memberTree wrapper tree] = [] := by
  cases wrapper with
  | none => exact h
  | some tag => rw [memberTree, Tree.textsIn_element, h]

/-- Members have no texts, with or without an element around each, if they have none themselves. -/
theorem textsIn_map_memberTree {α : Type} (wrapper : Option String) {f : α → Tree}
    (h : ∀ a, Tree.textsIn name [f a] = []) (parts : List α) :
    Tree.textsIn name (parts.map fun a => memberTree wrapper (f a)) = [] := by
  refine Tree.textsIn_eq_nil fun tree htree => ?_
  obtain ⟨a, -, rfl⟩ := List.mem_map.1 htree
  exact textsIn_memberTree wrapper (h a)

variable (encoder : GeometryEncoder)

section

variable (h : encoder.dialect.coordinates ≠ name)

include h

/-- A coordinate list has a text, but not under another name. -/
theorem textsIn_coordinatesTree (points : List (Point Float)) :
    Tree.textsIn name [encoder.coordinatesTree points] = [] := by
  unfold coordinatesTree
  split
  · simp
  · simp [h]

/-- The only text in a point is its coordinate list. -/
theorem textsIn_pointTree (attributes : Attributes) (p : Point Float) :
    Tree.textsIn name [encoder.pointTree attributes p] = [] := by
  rw [pointTree, Tree.textsIn_element, encoder.textsIn_coordinatesTree h]

/-- The only text in a line is its coordinate list. -/
theorem textsIn_lineStringTree (attributes : Attributes) (line : LineString Float) :
    Tree.textsIn name [encoder.lineStringTree attributes line] = [] := by
  rw [lineStringTree, Tree.textsIn_element, encoder.textsIn_coordinatesTree h]

/-- The only text in a ring is its coordinate list, under whichever boundary. -/
theorem textsIn_ringTree (boundary : String) (ring : LinearRing Float) :
    Tree.textsIn name [encoder.ringTree boundary ring] = [] := by
  rw [ringTree, Tree.textsIn_element, Tree.textsIn_element, encoder.textsIn_coordinatesTree h]

/-- The only texts in an area are the coordinate lists of its rings. -/
theorem textsIn_polygonTree (attributes : Attributes) (area : Polygon Float) :
    Tree.textsIn name [encoder.polygonTree attributes area] = [] := by
  rw [polygonTree, Tree.textsIn_element]
  refine Tree.textsIn_eq_nil fun tree htree => ?_
  rcases List.mem_cons.1 htree with rfl | htree
  · exact encoder.textsIn_ringTree h _ _
  · obtain ⟨ring, -, rfl⟩ := List.mem_map.1 htree
    exact encoder.textsIn_ringTree h _ ring

end

mutual

/-- Only coordinate lists have texts. -/
theorem textsIn_treeWith (h : encoder.dialect.coordinates ≠ name) (attributes : Attributes) :
    (g : Geometry Float) → Tree.textsIn name [encoder.treeWith attributes g] = []
  | .point p => by
    rw [treeWith]
    exact encoder.textsIn_pointTree h attributes p
  | .lineString line => by
    rw [treeWith]
    exact encoder.textsIn_lineStringTree h attributes line
  | .polygon area => by
    rw [treeWith]
    exact encoder.textsIn_polygonTree h attributes area
  | .multiPoint parts => by
    rw [treeWith, Tree.textsIn_element]
    exact textsIn_map_memberTree _ (encoder.textsIn_pointTree h []) parts
  | .multiLineString parts => by
    rw [treeWith, Tree.textsIn_element]
    exact textsIn_map_memberTree _ (encoder.textsIn_lineStringTree h []) parts
  | .multiPolygon parts => by
    rw [treeWith, Tree.textsIn_element]
    exact textsIn_map_memberTree _ (encoder.textsIn_polygonTree h []) parts
  | .collection members => by
    rw [treeWith, Tree.textsIn_element]
    exact textsIn_memberTrees h members

/-- The only texts in the members of a collection are coordinate lists. -/
theorem textsIn_memberTrees (h : encoder.dialect.coordinates ≠ name) :
    (members : List (Geometry Float)) → Tree.textsIn name (encoder.memberTrees members) = []
  | [] => by rw [memberTrees, Tree.textsIn_nil]
  | g :: rest => by
    rw [memberTrees, Tree.textsIn_cons, textsIn_memberTree _ (textsIn_treeWith h [] g),
      textsIn_memberTrees h rest, List.append_nil]

end

end GeometryEncoder

end Cartouche
