import Cartouche.Proofs.Markup.Tree

/-!
# The text of markup

`Markup.render` is the text that a writer holds after events (`Writer.finish_writeAll`): that of one
event after the other, each behind its line break (`Spacing.text_cons`). A document that consists of
one tree is read as the node of this tree (`read?_document`), and so is a fragment
(`read?_fragment`). Events that cannot be nested make no document (`read?_eq_none`), and a fragment
put in place later stands where the place was reserved (`Writer.bytes_splice`).
-/

namespace Cartouche

/-- A line break has nothing in it that is escaped. -/
theorem escapeMarkup_lineBreak (blanks : Nat) :
    escapeMarkup (lineBreak blanks) = lineBreak blanks := by
  have hblanks :
      (List.replicate blanks ' ').flatMap escapeMarkupChar = List.replicate blanks ' ' := by
    induction blanks with
    | zero => rfl
    | succ n ih => rw [List.replicate_succ, List.flatMap_cons, ih]; rfl
  have hchars : (lineBreak blanks).toList = '\n' :: List.replicate blanks ' ' := by
    simp [lineBreak]
  rw [escapeMarkup, hchars, List.flatMap_cons, hblanks, ← String.toList_inj, hchars,
    String.toList_ofList]
  rfl

namespace Markup

/-! ## Characters -/

namespace Spacing

/-- The text of events with line breaks in front of them. -/
def text (sp : Spacing) (events : List Event) : String :=
  String.ofList ((sp.spacedAll events).flatMap fun e => e.render.toList)

/-- The characters of events with line breaks in front of them. -/
def chars (sp : Spacing) (events : List Event) : List Char :=
  (sp.spacedAll events).flatMap fun e => e.render.toList

/-- The text of events is their characters. Lists of characters are what the reader goes through,
texts are what the writer holds. -/
theorem toList_text (sp : Spacing) (events : List Event) :
    (sp.text events).toList = sp.chars events := by
  simp [text, chars]

/-- The line break in front of an event, if there is one. -/
def breakBefore (sp : Spacing) (event : Event) : String :=
  if sp.pretty && sp.breakPending && !event.isText then lineBreak (sp.indentFor event) else ""

@[simp] theorem chars_nil (sp : Spacing) : sp.chars [] = [] := rfl

/-- An event adds its line break and its own characters, and the others follow in the layout behind
it. -/
@[simp] theorem chars_cons (sp : Spacing) (event : Event) (events : List Event) :
    sp.chars (event :: events) =
      (sp.breakBefore event).toList ++ (event.render.toList ++ (sp.after event).chars events) := by
  have hbreak : ∀ n, (Event.text (lineBreak n)).render = lineBreak n := escapeMarkup_lineBreak
  unfold chars breakBefore
  rw [spacedAll, spaced]
  split
  · simp [hbreak]
  · simp

/-- Characters can be taken apart where the events are, if the layout is carried over. -/
theorem chars_append (sp : Spacing) (first second : List Event) :
    sp.chars (first ++ second) = sp.chars first ++ (sp.afterAll first).chars second := by
  simp [chars, spacedAll_append]

/-- An event adds its line break and its own text, and the others follow in the layout behind it. -/
theorem text_cons (sp : Spacing) (event : Event) (events : List Event) :
    sp.text (event :: events) =
      sp.breakBefore event ++ event.render ++ (sp.after event).text events := by
  rw [← String.toList_inj, toList_text, chars_cons, String.toList_append, String.toList_append,
    toList_text, List.append_assoc]

/-- The text of events can be taken apart where the events are, if the layout is carried over. -/
theorem text_append (sp : Spacing) (first second : List Event) :
    sp.text (first ++ second) = sp.text first ++ (sp.afterAll first).text second := by
  rw [← String.toList_inj, String.toList_append, toList_text, toList_text, toList_text,
    chars_append]

/-- No line break stands between the tags around a text. -/
theorem chars_textElement (sp : Spacing) (name : String) (attributes : Attributes)
    (content : String) :
    sp.chars (Event.textElement name attributes content) =
      (sp.breakBefore (.startTag name attributes)).toList ++
        ((Event.startTag name attributes).render.toList ++
          (content.toList.flatMap escapeMarkupChar ++ (Event.endTag name).render.toList)) := by
  simp [Event.textElement, Event.element, breakBefore, after, Event.isText, Event.render,
    escapeMarkup]

/-- The content of an element stands between its tags, one step to the right. -/
theorem chars_element (sp : Spacing) (name : String) (attributes : Attributes)
    {content : List Event}
    (h : (sp.after (.startTag name attributes)).afterAll content =
      sp.after (.startTag name attributes)) :
    sp.chars (Event.element name attributes content) =
      (sp.breakBefore (.startTag name attributes)).toList ++
        ((Event.startTag name attributes).render.toList ++
          ((sp.after (.startTag name attributes)).chars content ++
            (((sp.after (.startTag name attributes)).breakBefore (.endTag name)).toList ++
              (Event.endTag name).render.toList))) := by
  rw [Event.element, List.cons_append, chars_cons, chars_append, h, chars_cons, chars_nil,
    List.append_nil]

/-- Compact markup has no line breaks. -/
theorem spacedAll_compact {sp : Spacing} (h : sp.pretty = false) (events : List Event) :
    sp.spacedAll events = events := by
  induction events generalizing sp with
  | nil => rfl
  | cons event rest ih =>
    have hafter : (sp.after event).pretty = false := by
      cases event <;> exact h
    simp [spacedAll, spaced, h, ih hafter]

end Spacing

/-- The text of events that are written to a new writer. -/
def render (pretty : Bool) (events : List Event) : String := ({ pretty } : Spacing).text events

/-- In compact markup it does not matter what stands in front of events. -/
theorem Spacing.text_compact {sp : Spacing} (h : sp.pretty = false) (events : List Event) :
    sp.text events = render false events := by
  rw [render, text, text, spacedAll_compact h, spacedAll_compact rfl]

/-- Without line breaks nothing has to be carried over, so compact texts are put side by side. -/
theorem render_false_append (first second : List Event) :
    render false (first ++ second) = render false first ++ render false second := by
  simp [render, Spacing.text, Spacing.spacedAll_compact]

end Markup

/-! ## Writers -/

namespace Writer

/-- What the line breaks of a writer depend on. -/
def spacing (w : Writer) : Markup.Spacing := ⟨w.pretty, w.indent, w.breakPending⟩

/-- A new writer has the layout that it was made for, and nothing to break lines behind. -/
@[simp] theorem spacing_new (pretty : Bool) : (Writer.new pretty).spacing = { pretty } := rfl

/-- The indentation and the line breaks are those of the spacing. -/
theorem spacing_write (w : Writer) (event : Event) :
    (w.write event).spacing = w.spacing.after event := by
  cases event <;> rfl

/-- The layout of a writer follows the events. -/
theorem spacing_writeAll (w : Writer) (events : List Event) :
    (w.writeAll events).spacing = w.spacing.afterAll events := by
  induction events generalizing w with
  | nil => rfl
  | cons event rest ih => rw [writeAll_cons, ih, spacing_write]; rfl

/-- An addition consists of the event and the line break in front of it. -/
theorem addition_eq (w : Writer) (event : Event) :
    w.addition event = w.spacing.breakBefore event ++ event.render := by
  have hindent : w.spacing.indentFor event = w.indentFor event := by
    cases event <;> rfl
  unfold addition Markup.Spacing.breakBefore
  rw [hindent]
  show _ = (if w.pretty && w.breakPending && !event.isText then _ else _) ++ _
  split
  · rfl
  · rw [String.empty_append]

/-- Writing events to a text appends their characters. -/
theorem bytes_writeAll {w : Writer} {text : String} (h : w.bytes = text.toByteArray)
    (events : List Event) :
    (w.writeAll events).bytes = (text ++ w.spacing.text events).toByteArray := by
  induction events generalizing w text with
  | nil => simpa [Markup.Spacing.text, Markup.Spacing.spacedAll] using h
  | cons event rest ih =>
    rw [writeAll_cons, ih (bytes_write h event), spacing_write, Markup.Spacing.text_cons,
      ← addition_eq, String.append_assoc]

/-- What a new writer holds after events. -/
theorem finish_writeAll (pretty : Bool) (events : List Event) :
    ((Writer.new pretty).writeAll events).finish = .ok (Markup.render pretty events) := by
  have hnew : (Writer.new pretty).bytes = "".toByteArray := rfl
  refine finish_of_bytes ?_
  rw [bytes_writeAll hnew]
  simp [Markup.render]

/-- Writing does not change which of the two layouts a writer has. -/
theorem pretty_writeAll (w : Writer) (events : List Event) :
    (w.writeAll events).pretty = w.pretty := by
  induction events generalizing w with
  | nil => rfl
  | cons event rest ih => rw [writeAll_cons, ih]; rfl

/-- Writing takes no place. -/
theorem reserved_writeAll (w : Writer) (events : List Event) :
    (w.writeAll events).reserved = w.reserved := by
  induction events generalizing w with
  | nil => rfl
  | cons event rest ih => rw [writeAll_cons, ih]; rfl

/-- A fragment is put between what was written before the reservation and what was written behind
it. -/
theorem bytes_splice {w : Writer} {before behind : String}
    (h : w.bytes = (before ++ behind).toByteArray) {reservation : Reservation}
    (hr : reservation.offset = before.utf8ByteSize) (fragment : String) :
    (w.splice reservation fragment).bytes =
      (before ++ w.inserted reservation.depth fragment ++ behind).toByteArray := by
  have hsize : w.bytes.size = before.utf8ByteSize + behind.utf8ByteSize := by
    simp [h, String.toByteArray_append]
  have hoffset : min reservation.offset w.bytes.size = before.toByteArray.size := by
    rw [hr, hsize, String.size_toByteArray]
    omega
  have hfront : w.bytes.extract 0 before.toByteArray.size = before.toByteArray := by
    rw [h, String.toByteArray_append, ByteArray.extract_append_eq_left rfl]
  have hback : w.bytes.extract before.toByteArray.size w.bytes.size = behind.toByteArray := by
    rw [h, String.toByteArray_append, ByteArray.extract_append_eq_right rfl (by simp)]
  simp only [splice, hoffset, hfront, hback, String.toByteArray_append]

end Writer

/-! ## Reading -/

namespace Markup

/-- The text of a document is read event by event. -/
theorem read?_render_declaration (pretty : Bool) {events : List Event}
    (h : ∀ e ∈ events, IsSound e) :
    read? (render pretty (.declaration :: events)) =
      (Place.readAll {} (({ pretty, breakPending := true } : Spacing).spacedAll events)).bind
        fun p => p.state.nodes? := by
  have hchars : (render pretty (.declaration :: events)).toList =
      Event.declaration.render.toList ++
        (({ pretty, breakPending := true } : Spacing).spacedAll events).flatMap
          fun e => e.render.toList := by
    simp [render, Spacing.text, Spacing.spacedAll, Spacing.spaced, Spacing.after]
  have hrun := Place.run_renderAll {} (Spacing.isSound_spacedAll { pretty, breakPending := true } h)
  simp only [read?, hchars, behindDeclaration?_render, Option.bind_eq_bind, Option.bind_some]
  rw [show ({} : State) = Place.state {} from rfl, hrun]
  cases Place.readAll {} (({ pretty, breakPending := true } : Spacing).spacedAll events) with
  | none => rfl
  | some p => rfl

/-- The blanks in front of a whole document. -/
def margin (pretty : Bool) : Option Nat := if pretty then some 0 else none

/-- A document that consists of a tree is read as the node of the tree. -/
theorem read?_document (pretty : Bool) {tree : Tree} (h : ∀ e ∈ tree.events, IsSound e) :
    read? (render pretty (.declaration :: tree.events)) =
      some (breaks (margin pretty) ++ [tree.node (margin pretty)]) := by
  rw [read?_render_declaration pretty h, Place.readAll_tree _ rfl]
  cases pretty <;> rfl

/-- A compact document that consists of a tree is read as the node of the tree and nothing else. -/
theorem read?_compactDocument {tree : Tree} (h : ∀ e ∈ tree.events, IsSound e) :
    read? (render false (.declaration :: tree.events)) = some [tree.node none] :=
  read?_document false h

/-- Events that cannot be nested make no document. -/
theorem read?_eq_none (pretty : Bool) {events : List Event} (h : ∀ e ∈ events, IsSound e)
    (hnest : nestingAll [] events = none) :
    read? (render pretty (.declaration :: events)) = none := by
  have hnames :=
    Place.names_readAll {} (({ pretty, breakPending := true } : Spacing).spacedAll events)
  rw [nestingAll_spacedAll, show Place.names {} = [] from rfl, hnest,
    Option.map_eq_none_iff] at hnames
  rw [read?_render_declaration pretty h, hnames]
  rfl

/-- Nothing is taken off a text that does not begin with a declaration. -/
theorem behindDeclaration?_of_ne {first second : Char} (h : second ≠ '?') (rest : List Char) :
    behindDeclaration? (first :: second :: rest) = some (first :: second :: rest) := by
  unfold behindDeclaration?
  split
  · next heq =>
    simp only [List.cons.injEq] at heq
    exact absurd heq.2.1 h
  · rfl

/-- A tree begins with a tag. -/
theorem Tree.exists_events (tree : Tree) : ∃ name attributes events,
    tree.events = .startTag name attributes :: events ∨
      tree.events = .emptyTag name attributes :: events := by
  cases tree with
  | empty name attributes => exact ⟨name, attributes, [], .inr rfl⟩
  | text name attributes content =>
    exact ⟨name, attributes, [.text content, .endTag name], .inl rfl⟩
  | element name attributes members =>
    exact ⟨name, attributes, allEvents members ++ [.endTag name], .inl rfl⟩

/-- A tag begins with a bracket and the first character of a name. -/
theorem exists_toList_head {name : String} {attributes : Attributes} (h : IsTag name attributes) :
    ∃ first rest, (Event.head name attributes).toList = first :: rest ∧ first ≠ '?' := by
  obtain ⟨first, rest, hlist, hfirst, -⟩ := exists_of_isName h.name
  refine ⟨first, rest ++ attributes.flatMap attributeChars, ?_, ?_⟩
  · rw [toList_head, hlist, List.cons_append]
  · rintro rfl
    simp [isNameFirst] at hfirst

/-- A fragment does not begin with a declaration. -/
theorem behindDeclaration?_fragment (pretty : Bool) {tree : Tree}
    (h : ∀ e ∈ tree.events, IsSound e) :
    behindDeclaration? (render pretty tree.events).toList =
      some (render pretty tree.events).toList := by
  obtain ⟨name, attributes, events, hevents⟩ := tree.exists_events
  have htag : IsTag name attributes := by
    rcases hevents with hevents | hevents
    · exact h (.startTag name attributes) (by simp [hevents])
    · exact h (.emptyTag name attributes) (by simp [hevents])
  obtain ⟨first, rest, hhead, hfirst⟩ := exists_toList_head htag
  have hchars : ∃ rest', (render pretty tree.events).toList = '<' :: first :: rest' := by
    rcases hevents with hevents | hevents
    · simp [hevents, render, Spacing.text, Spacing.spacedAll, Spacing.spaced, Event.render, hhead]
    · simp [hevents, render, Spacing.text, Spacing.spacedAll, Spacing.spaced, Event.render, hhead]
  obtain ⟨rest', hchars⟩ := hchars
  rw [hchars]
  exact behindDeclaration?_of_ne hfirst rest'

/-- A fragment that consists of a tree is read as the node of the tree. -/
theorem read?_fragment (pretty : Bool) {tree : Tree} (h : ∀ e ∈ tree.events, IsSound e) :
    read? (render pretty tree.events) = some [tree.node (margin pretty)] := by
  have hrun := Place.run_renderAll {} (Spacing.isSound_spacedAll { pretty } h)
  rw [Place.readAll_tree _ rfl] at hrun
  have hchars : (render pretty tree.events).toList =
      (({ pretty } : Spacing).spacedAll tree.events).flatMap fun e => e.render.toList := by
    simp [render, Spacing.text]
  rw [read?, behindDeclaration?_fragment pretty h, hchars]
  simp only [Option.bind_eq_bind, Option.bind_some]
  rw [show ({} : State) = Place.state {} from rfl, hrun]
  rfl

end Markup

end Cartouche
