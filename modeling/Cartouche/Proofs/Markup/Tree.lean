import Cartouche.Markup.Writer
import Cartouche.Proofs.Markup.Reader

/-!
# Trees of markup

What is written is a sequence of trees: a `Tree` is an element that is empty, holds a text or holds
other elements. Written by itself or behind other markup, compactly or one tag a line, a tree is
read as one node (`Place.readAll_tree`), which is `Tree.node` of the blanks in front of it. A tree
closes what it opens (`nestingAll_tree`), and what cannot be nested cannot be read
(`Place.names_readAll`).
-/

namespace Cartouche.Markup

/-- An element as it is written. -/
inductive Tree where
  | empty (name : String) (attributes : Attributes)
  | text (name : String) (attributes : Attributes) (content : String)
  | element (name : String) (attributes : Attributes) (members : List Tree)

/-- The line break in front of a tag; compact markup has none. -/
def breaks : Option Nat → List Node
  | none => []
  | some blanks => [.text (lineBreak blanks)]

namespace Tree

mutual

/-- The events of a tree. -/
def events : Tree → List Event
  | .empty name attributes => [.emptyTag name attributes]
  | .text name attributes content => Event.textElement name attributes content
  | .element name attributes members => Event.element name attributes (allEvents members)

/-- The events of trees, one after the other. -/
def allEvents : List Tree → List Event
  | [] => []
  | tree :: rest => events tree ++ allEvents rest

end

/-- The three forms of trees are written as the three forms of elements. These lemmas let `simp`
open trees without unfolding the recursion through their members. -/
@[simp] theorem events_empty (name : String) (attributes : Attributes) :
    (empty name attributes).events = [.emptyTag name attributes] := rfl

@[simp] theorem events_text (name : String) (attributes : Attributes) (content : String) :
    (text name attributes content).events = Event.textElement name attributes content := rfl

@[simp] theorem events_element (name : String) (attributes : Attributes) (members : List Tree) :
    (element name attributes members).events =
      Event.element name attributes (allEvents members) := rfl

@[simp] theorem allEvents_nil : allEvents [] = [] := rfl

/-- Trees are written one after the other. -/
@[simp] theorem allEvents_cons (tree : Tree) (rest : List Tree) :
    allEvents (tree :: rest) = tree.events ++ allEvents rest := rfl

/-- The events of trees are those of the first one, then those of the second one, and so on. -/
theorem allEvents_eq_flatMap (trees : List Tree) : allEvents trees = trees.flatMap events := by
  induction trees with
  | nil => rfl
  | cons tree rest ih => simp [ih]

/-- The events of trees can be taken apart where the trees are. -/
theorem allEvents_append (first second : List Tree) :
    allEvents (first ++ second) = allEvents first ++ allEvents second := by
  simp [allEvents_eq_flatMap]

mutual

/-- The node a tree is read as, behind blanks; its content stands behind some more. -/
def node (blanks : Option Nat) : Tree → Node
  | .empty name attributes => .element name attributes []
  | .text name attributes content => .element name attributes (textNodes content.toList)
  | .element name attributes members =>
    .element name attributes (nodes (blanks.map (· + indentStep)) members ++ breaks blanks)

/-- The nodes of trees, each behind its line break. -/
def nodes (blanks : Option Nat) : List Tree → List Node
  | [] => []
  | tree :: rest => breaks blanks ++ node blanks tree :: nodes blanks rest

end

/-- Compact markup has no nodes between those of the trees. -/
theorem nodes_none (trees : List Tree) : nodes none trees = trees.map (node none) := by
  induction trees with
  | nil => simp [nodes]
  | cons tree rest ih => simp [nodes, breaks, ih]

/-- An empty element and one with a text are read alike in both layouts: only members are
indented. -/
@[simp] theorem node_empty (blanks : Option Nat) (name : String) (attributes : Attributes) :
    (empty name attributes).node blanks = .element name attributes [] := rfl

@[simp] theorem node_text (blanks : Option Nat) (name : String) (attributes : Attributes)
    (content : String) :
    (text name attributes content).node blanks =
      .element name attributes (textNodes content.toList) := rfl

/-- In compact markup the content of an element consists of the nodes of its members. -/
@[simp] theorem node_element_none (name : String) (attributes : Attributes) (members : List Tree) :
    (element name attributes members).node none =
      .element name attributes (members.map (node none)) := by
  simp [node, nodes_none, breaks]

end Tree

/-! ## Line breaks -/

/-- What the line breaks of a writer depend on. -/
structure Spacing where
  pretty : Bool
  indent : Nat := 0
  breakPending : Bool := false

namespace Spacing

/-- The blanks in front of a line, if there are lines. -/
def blanks (sp : Spacing) : Option Nat := if sp.pretty then some sp.indent else none

/-- The indentation of a line that begins with an event. -/
def indentFor (sp : Spacing) : Event → Nat
  | .endTag _ => sp.indent - indentStep
  | _ => sp.indent

/-- A line break as the nodes in front of what begins a line. -/
def leading (sp : Spacing) (indent : Nat) : List Node :=
  if sp.breakPending then breaks (if sp.pretty then some indent else none) else []

/-- The spacing behind an event. -/
def after (sp : Spacing) : Event → Spacing
  | .startTag _ _ => { sp with indent := sp.indent + indentStep, breakPending := true }
  | .endTag _ => { sp with indent := sp.indent - indentStep, breakPending := true }
  | .text _ => { sp with breakPending := false }
  | _ => { sp with breakPending := true }

/-- The spacing behind events. -/
def afterAll (sp : Spacing) (events : List Event) : Spacing := events.foldl after sp

/-- An event with the line break in front of it as a text. -/
def spaced (sp : Spacing) (event : Event) : List Event :=
  if sp.pretty && sp.breakPending && !event.isText then
    [.text (lineBreak (sp.indentFor event)), event]
  else
    [event]

/-- Events with the line breaks in front of them as texts. -/
def spacedAll (sp : Spacing) : List Event → List Event
  | [] => []
  | event :: rest => sp.spaced event ++ (sp.after event).spacedAll rest

/-- The layout can be followed in two runs. -/
theorem afterAll_append (sp : Spacing) (first second : List Event) :
    sp.afterAll (first ++ second) = (sp.afterAll first).afterAll second :=
  List.foldl_append

/-- Line breaks can be put in front of events in two runs, if the layout is carried over. -/
theorem spacedAll_append (sp : Spacing) (first second : List Event) :
    sp.spacedAll (first ++ second) =
      sp.spacedAll first ++ (sp.afterAll first).spacedAll second := by
  induction first generalizing sp with
  | nil => rfl
  | cons event rest ih =>
    rw [List.cons_append, spacedAll, spacedAll, ih, List.append_assoc]
    rfl

/-- Line breaks are sound. -/
theorem isSound_spacedAll (sp : Spacing) {events : List Event} (h : ∀ e ∈ events, IsSound e) :
    ∀ e ∈ sp.spacedAll events, IsSound e := by
  induction events generalizing sp with
  | nil => simp [spacedAll]
  | cons event rest ih =>
    intro e he
    rcases List.mem_append.1 he with he | he
    · unfold spaced at he
      split at he
      · rcases List.mem_cons.1 he with rfl | he
        · trivial
        · exact h e (by simp_all)
      · exact h e (by simp_all)
    · exact ih (sp.after event) (fun e he => h e (by simp [he])) e he

mutual

/-- Behind a tree the indentation is as before. -/
theorem afterAll_tree (sp : Spacing) :
    (tree : Tree) → sp.afterAll tree.events = { sp with breakPending := true }
  | .empty name attributes => rfl
  | .text name attributes content => by
    simp [Tree.events, Event.textElement, Event.element, afterAll, after]
  | .element name attributes members => by
    have h := afterAll_trees { sp with indent := sp.indent + indentStep, breakPending := true }
      rfl members
    simp only [Tree.events, Event.element, List.cons_append]
    show ((sp.after (.startTag name attributes)).afterAll
      (Tree.allEvents members ++ [.endTag name])) = _
    rw [afterAll_append]
    simp only [after, h]
    simp [afterAll, after]

/-- Behind trees the indentation is as before. -/
theorem afterAll_trees (sp : Spacing) (h : sp.breakPending = true) :
    (trees : List Tree) → sp.afterAll (Tree.allEvents trees) = sp
  | [] => rfl
  | tree :: rest => by
    have hsame : ({ sp with breakPending := true } : Spacing) = sp := by rw [← h]
    rw [Tree.allEvents, afterAll_append, afterAll_tree sp tree, hsame, afterAll_trees sp h rest]

end

end Spacing

/-! ## Reading trees -/

@[simp] theorem textNodes_nil : textNodes [] = [] := rfl

/-- The characters of a line break are read as the text that stands for it. -/
theorem textNodes_lineBreak (blanks : Nat) :
    textNodes (lineBreak blanks).toList = breaks (some blanks) := by
  have hne : (lineBreak blanks).toList ≠ [] := by simp [lineBreak]
  rw [textNodes, if_neg hne, String.ofList_toList]
  rfl

namespace Place

/-- What a tag is read as depends on the open elements and on the nodes in front of it. -/
theorem read_congr {p q : Place} (hstack : p.stack = q.stack) (hsettled : p.settled = q.settled)
    {event : Event} (h : event.isText = false) : p.read event = q.read event := by
  cases event with
  | declaration => rfl
  | startTag name attributes => simp only [read, hstack, hsettled]
  | endTag name => simp only [read, hstack, hsettled]
  | emptyTag name attributes => simp only [read, hstack, hsettled]
  | text content => cases h

/-- A line break is a node in front of what follows it. -/
theorem readAll_spaced (p : Place) (hp : p.pending = []) (sp : Spacing) {event : Event}
    (h : event.isText = false) :
    p.readAll (sp.spaced event) =
      Place.read ⟨p.stack, p.nodes ++ sp.leading (sp.indentFor event), []⟩ event := by
  unfold Spacing.spaced
  cases hpretty : sp.pretty with
  | false =>
    simp only [Bool.false_and, Bool.false_eq_true, if_false, readAll_cons, readAll_nil,
      Option.bind_fun_some]
    refine read_congr (by rfl) ?_ h
    simp [settled, hp, Spacing.leading, hpretty, breaks]
  | true =>
    cases hbreak : sp.breakPending with
    | false =>
      simp only [Bool.and_false, Bool.false_and, Bool.false_eq_true, if_false, readAll_cons,
        readAll_nil, Option.bind_fun_some]
      refine read_congr (by rfl) ?_ h
      simp [settled, hp, Spacing.leading, hbreak]
    | true =>
      simp only [h, Bool.and_self, Bool.not_false, if_true, readAll_cons, readAll_nil,
        Option.bind_fun_some]
      rw [read, Option.bind_some]
      refine read_congr (by rfl) ?_ h
      simp only [settled, hp, List.nil_append, textNodes_lineBreak, Spacing.leading, hbreak,
        hpretty, if_true, textNodes_nil, List.append_nil]

mutual

/-- A tree is read as its node, behind the line break in front of it. -/
theorem readAll_tree (p : Place) (hp : p.pending = []) (sp : Spacing) :
    (tree : Tree) → p.readAll (sp.spacedAll tree.events) =
      some ⟨p.stack, p.nodes ++ sp.leading sp.indent ++ [tree.node sp.blanks], []⟩
  | .empty name attributes => by
    rw [Tree.events, Spacing.spacedAll, Spacing.spacedAll, List.append_nil,
      readAll_spaced p hp sp rfl]
    simp [read, settled, Tree.node, Spacing.leading, Spacing.indentFor]
  | .text name attributes content => by
    have hspaced : sp.spacedAll (Tree.text name attributes content).events =
        sp.spaced (.startTag name attributes) ++ [.text content, .endTag name] := by
      simp [Tree.events, Event.textElement, Event.element, Spacing.spacedAll, Spacing.spaced,
        Spacing.after, Event.isText]
    rw [hspaced, readAll_append, readAll_spaced p hp sp rfl]
    simp [read, settled, Tree.node, Spacing.indentFor]
  | .element name attributes members => by
    have hinner := readAll_trees
      ⟨⟨⟨name, attributes⟩, p.nodes ++ sp.leading sp.indent⟩ :: p.stack, [], []⟩ rfl
      { sp with indent := sp.indent + indentStep, breakPending := true } rfl members
    have hafter := Spacing.afterAll_trees
      { sp with indent := sp.indent + indentStep, breakPending := true } rfl members
    have hspaced : sp.spacedAll (Tree.element name attributes members).events =
        sp.spaced (.startTag name attributes) ++
          (({ sp with indent := sp.indent + indentStep, breakPending := true } : Spacing).spacedAll
            (Tree.allEvents members) ++
          ({ sp with indent := sp.indent + indentStep, breakPending := true } : Spacing).spaced
            (.endTag name)) := by
      rw [Tree.events, Event.element, List.cons_append, Spacing.spacedAll,
        Spacing.spacedAll_append]
      simp only [Spacing.after, hafter, Spacing.spacedAll, List.append_nil]
    rw [hspaced, readAll_append, readAll_spaced p hp sp rfl, read, Option.bind_some,
      readAll_append]
    simp only [settled, textNodes_nil, List.append_nil, Spacing.indentFor]
    rw [hinner, Option.bind_some, readAll_spaced _ rfl _ rfl]
    simp [read, settled, Tree.node, Spacing.indentFor, Spacing.leading, Spacing.blanks]

/-- Trees are read as their nodes. -/
theorem readAll_trees (p : Place) (hp : p.pending = []) (sp : Spacing)
    (h : sp.breakPending = true) :
    (trees : List Tree) → p.readAll (sp.spacedAll (Tree.allEvents trees)) =
      some ⟨p.stack, p.nodes ++ Tree.nodes sp.blanks trees, []⟩
  | [] => by
    simp [Tree.allEvents, Spacing.spacedAll, Tree.nodes, ← hp]
  | tree :: rest => by
    have hsame : ({ sp with breakPending := true } : Spacing) = sp := by rw [← h]
    rw [Tree.allEvents, Spacing.spacedAll_append, readAll_append, readAll_tree p hp sp tree,
      Option.bind_some, Spacing.afterAll_tree, hsame, readAll_trees _ rfl sp h rest]
    simp [Tree.nodes, Spacing.leading, h, Spacing.blanks]

end

end Place

/-! ## Forests -/

/-- Without attributes a tag only needs a name. -/
theorem isTag_nil {name : String} : IsTag name [] ↔ isName name.toList :=
  ⟨IsTag.name, fun h => ⟨h, by simp, by simp⟩⟩

/-- An element is sound if its tag and its content are. -/
theorem isSound_element {name : String} {attributes : Attributes} {content : List Event} :
    (∀ e ∈ Event.element name attributes content, IsSound e) ↔
      IsTag name attributes ∧ ∀ e ∈ content, IsSound e := by
  constructor
  · intro h
    exact ⟨h (.startTag name attributes) (by simp [Event.element]),
      fun e he => h e (by simp [Event.element, he])⟩
  · rintro ⟨htag, hcontent⟩ e he
    simp only [Event.element, List.cons_append, List.mem_cons, List.mem_append] at he
    rcases he with rfl | he | rfl | he
    · exact htag
    · exact hcontent e he
    · exact htag.name
    · cases he

/-- The events are those of trees that can be read. -/
def IsForest (events : List Event) : Prop :=
  (∃ trees, Tree.allEvents trees = events) ∧ ∀ e ∈ events, IsSound e

namespace IsForest

/-- No events are those of no trees. -/
theorem nil : IsForest [] := ⟨⟨[], rfl⟩, by simp⟩

/-- The events of trees behind those of other trees can be read. -/
theorem append {first second : List Event} (h₁ : IsForest first) (h₂ : IsForest second) :
    IsForest (first ++ second) := by
  obtain ⟨⟨trees₁, rfl⟩, hsound₁⟩ := h₁
  obtain ⟨⟨trees₂, rfl⟩, hsound₂⟩ := h₂
  refine ⟨⟨trees₁ ++ trees₂, Tree.allEvents_append trees₁ trees₂⟩, fun e he => ?_⟩
  rcases List.mem_append.1 he with he | he
  · exact hsound₁ e he
  · exact hsound₂ e he

/-- Many trees can be read when each of them can. -/
theorem flatMap {α : Type u} {f : α → List Event} {xs : List α} (h : ∀ x ∈ xs, IsForest (f x)) :
    IsForest (xs.flatMap f) := by
  induction xs with
  | nil => exact nil
  | cons x rest ih =>
    rw [List.flatMap_cons]
    exact (h x (by simp)).append (ih fun y hy => h y (by simp [hy]))

/-- Trees can be read inside of an element with a proper tag. -/
theorem element {name : String} {attributes : Attributes} (htag : IsTag name attributes)
    {content : List Event} (h : IsForest content) :
    IsForest (Event.element name attributes content) := by
  obtain ⟨⟨trees, rfl⟩, hsound⟩ := h
  refine ⟨⟨[.element name attributes trees], ?_⟩, isSound_element.2 ⟨htag, hsound⟩⟩
  simp [Tree.allEvents, Tree.events]

/-- Any text can be read inside of an element with a proper tag, since special characters are
escaped. -/
theorem textElement {name : String} {attributes : Attributes} (htag : IsTag name attributes)
    (content : String) : IsForest (Event.textElement name attributes content) := by
  refine ⟨⟨[.text name attributes content], ?_⟩, isSound_element.2 ⟨htag, ?_⟩⟩
  · simp [Tree.allEvents, Tree.events]
  · simp [IsSound]

/-- The events of a tree that can be read. -/
theorem ofTree {tree : Tree} (h : ∀ e ∈ tree.events, IsSound e) : IsForest tree.events :=
  ⟨⟨[tree], by simp [Tree.allEvents]⟩, h⟩

end IsForest

/-! ## Nesting -/

/-- The names of the open elements behind an event, from the innermost one. -/
def nesting (names : List String) : Event → Option (List String)
  | .startTag name _ => some (name :: names)
  | .endTag name =>
    match names with
    | [] => none
    | innermost :: outer => if innermost = name then some outer else none
  | .declaration => none
  | _ => some names

/-- The names of the open elements behind events. -/
def nestingAll (names : List String) (events : List Event) : Option (List String) :=
  events.foldlM nesting names

@[simp] theorem nestingAll_nil (names : List String) : nestingAll names [] = some names := rfl

/-- Nesting is followed event by event, up to the first that does not fit. -/
@[simp] theorem nestingAll_cons (names : List String) (event : Event) (events : List Event) :
    nestingAll names (event :: events) = (nesting names event).bind (nestingAll · events) := by
  simp [nestingAll, List.foldlM_cons]

/-- Nesting can be followed in two runs. -/
theorem nestingAll_append (names : List String) (first second : List Event) :
    nestingAll names (first ++ second) = (nestingAll names first).bind (nestingAll · second) := by
  simp [nestingAll, List.foldlM_append]

/-- Line breaks leave no trace in the nesting. -/
theorem nestingAll_spacedAll (names : List String) (sp : Spacing) (events : List Event) :
    nestingAll names (sp.spacedAll events) = nestingAll names events := by
  induction events generalizing names sp with
  | nil => rfl
  | cons event rest ih =>
    have hspaced : nestingAll names (sp.spaced event) = nesting names event := by
      unfold Spacing.spaced
      split
      · simp [nesting]
      · simp
    rw [Spacing.spacedAll, nestingAll_append, hspaced, nestingAll_cons]
    cases nesting names event with
    | none => rfl
    | some inner => exact ih inner (sp.after event)

mutual

/-- A tree closes what it opens. -/
theorem nestingAll_tree (names : List String) :
    (tree : Tree) → nestingAll names tree.events = some names
  | .empty name attributes => rfl
  | .text name attributes content => by
    simp [Tree.events, Event.textElement, Event.element, nesting]
  | .element name attributes members => by
    have h := nestingAll_trees (name :: names) members
    simp [Tree.events, Event.element, nesting, nestingAll_append, h]

/-- Trees close what they open. -/
theorem nestingAll_trees (names : List String) :
    (trees : List Tree) → nestingAll names (Tree.allEvents trees) = some names
  | [] => rfl
  | tree :: rest => by
    rw [Tree.allEvents, nestingAll_append, nestingAll_tree names tree, Option.bind_some,
      nestingAll_trees names rest]

end

/-- The names of the elements that are open at a place. -/
def Place.names (p : Place) : List String := p.stack.map fun frame => frame.head.name

/-- Reading an event changes the nesting as the event says. -/
theorem Place.names_read (p : Place) (event : Event) :
    (p.read event).map names = nesting p.names event := by
  cases event with
  | declaration => rfl
  | startTag name attributes => rfl
  | emptyTag name attributes => rfl
  | text content => rfl
  | endTag name =>
    obtain ⟨stack, nodes, pending⟩ := p
    cases stack with
    | nil => rfl
    | cons frame outer =>
      simp only [read, nesting, names, List.map_cons]
      split
      · rfl
      · rfl

/-- What cannot be nested cannot be read. -/
theorem Place.names_readAll (p : Place) (events : List Event) :
    (p.readAll events).map names = nestingAll p.names events := by
  induction events generalizing p with
  | nil => rfl
  | cons event rest ih =>
    rw [readAll_cons, nestingAll_cons, ← names_read]
    cases p.read event with
    | none => rfl
    | some q => exact ih q

end Cartouche.Markup
