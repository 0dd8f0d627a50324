import Cartouche.Proofs.Markup.Text

/-!
# The two layouts of markup

Compact markup is the characters of the events and nothing else. In indented markup a line break
with blanks stands in front of every event but the first, unless it is a text or follows a text: its
blanks count the elements that are open around the event (`gap`). `isLaidOut_text` says so of what a
writer writes behind any other events, and `isLaidOut_render` of what it writes first. From both
layouts a tree is read as the same tree (`isFragment_render`, `isDocument_render`).
-/

namespace Cartouche.Markup

/-- The number of open elements behind an event; where nothing is open an end tag closes nothing. -/
def openAfter (depth : Nat) : Event → Nat
  | .startTag _ _ => depth + 1
  | .endTag _ => depth - 1
  | _ => depth

/-- The number of open elements behind events. -/
def openElements (events : List Event) : Nat := events.foldl openAfter 0

/-- One more event opens or closes one element at most. -/
theorem openElements_concat (front : List Event) (event : Event) :
    openElements (front ++ [event]) = openAfter (openElements front) event := by
  simp [openElements]

/-- The line break between events and the one that follows them. There is one when neither of the
neighbours is a text, with blanks for each element that is open on both sides of what follows. -/
def gap (front : List Event) (event : Event) : String :=
  match front.getLast? with
  | none => ""
  | some previous =>
    if previous.isText || event.isText then ""
    else lineBreak (indentStep * min (openElements front) (openElements (front ++ [event])))

/-- The characters of events that follow others, with the line breaks in front of them. -/
def layout (front : List Event) : List Event → String
  | [] => ""
  | event :: rest => gap front event ++ event.render ++ layout (front ++ [event]) rest

/-- Markup in both layouts, the compact one first: the same events behind the same others, and only
the gaps between them differ. -/
structure IsLaidOut (front events : List Event) (markup : Bool → String) : Prop where
  compact : markup false = String.join (events.map Event.render)
  verbose : markup true = layout front events

namespace Spacing

/-- The indentation follows the number of open elements, also where that number is cut off at
zero. -/
theorem indent_after (sp : Spacing) (event : Event) {depth : Nat}
    (h : sp.indent = indentStep * depth) :
    (sp.after event).indent = indentStep * openAfter depth event := by
  cases event with
  | startTag name attributes => simp [after, openAfter, h, Nat.mul_add]
  | endTag name => simp [after, openAfter, h, Nat.mul_sub]
  | _ => exact h

/-- The indentation follows the number of open elements through any events. -/
theorem indent_afterAll (sp : Spacing) (events : List Event) {depth : Nat}
    (h : sp.indent = indentStep * depth) :
    (sp.afterAll events).indent = indentStep * events.foldl openAfter depth := by
  induction events generalizing sp depth with
  | nil => exact h
  | cons event rest ih => exact ih (sp.after event) (indent_after sp event h)

/-- The layout is chosen once, and events do not change it. -/
theorem pretty_afterAll (sp : Spacing) (events : List Event) :
    (sp.afterAll events).pretty = sp.pretty := by
  induction events generalizing sp with
  | nil => rfl
  | cons event rest ih =>
    show ((sp.after event).afterAll rest).pretty = sp.pretty
    rw [ih]
    cases event <;> rfl

/-- The next tag begins a line when it does not follow a text. -/
theorem breakPending_afterAll (pretty : Bool) (front : List Event) :
    (({ pretty } : Spacing).afterAll front).breakPending =
      front.getLast?.any fun event => !event.isText := by
  rcases List.eq_nil_or_concat front with rfl | ⟨init, last, rfl⟩
  · rfl
  · rw [List.concat_eq_append, afterAll_append, List.getLast?_concat]
    cases last <;> rfl

/-- The line break that a writer puts in front of an event is the gap in front of it. -/
theorem breakBefore_afterAll (front : List Event) (event : Event) :
    (({ pretty := true } : Spacing).afterAll front).breakBefore event = gap front event := by
  have hindent : (({ pretty := true } : Spacing).afterAll front).indentFor event =
      indentStep * min (openElements front) (openElements (front ++ [event])) := by
    have h : (({ pretty := true } : Spacing).afterAll front).indent =
        indentStep * openElements front := indent_afterAll _ front (by rfl)
    rw [openElements_concat]
    cases event with
    | endTag name => simp [indentFor, h, openAfter, Nat.mul_sub]
    | _ => simp [indentFor, h, openAfter]
  unfold breakBefore gap
  rw [breakPending_afterAll, pretty_afterAll, hindent]
  cases front.getLast? with
  | none => rfl
  | some previous =>
    cases hprevious : previous.isText with
    | false => cases hevent : event.isText <;> simp [hprevious]
    | true => simp [hprevious]

/-- The text of events that follow others in indented markup. -/
theorem text_afterAll (front events : List Event) :
    (({ pretty := true } : Spacing).afterAll front).text events = layout front events := by
  induction events generalizing front with
  | nil => rfl
  | cons event rest ih =>
    have hrest := ih (front ++ [event])
    rw [afterAll_append] at hrest
    rw [layout, ← hrest, ← breakBefore_afterAll, text_cons]
    rfl

end Spacing

/-- What is written behind other events is laid out behind them. -/
theorem isLaidOut_text (front events : List Event) :
    IsLaidOut front events fun verbose =>
      (({ pretty := verbose } : Spacing).afterAll front).text events where
  compact := by
    have hcompact : (({ pretty := false } : Spacing).afterAll front).pretty = false :=
      Spacing.pretty_afterAll _ front
    rw [← String.toList_inj, Spacing.toList_text, Spacing.chars,
      Spacing.spacedAll_compact hcompact]
    simp [String.toList_join, List.flatMap_map]
  verbose := Spacing.text_afterAll front events

/-- What is written first is laid out behind nothing. -/
theorem isLaidOut_render (events : List Event) :
    IsLaidOut [] events fun verbose => render verbose events :=
  isLaidOut_text [] events

/-! ## Reading -/

/-- A tree by itself in both layouts, read as the tree from each of them. -/
structure IsFragment (tree : Tree) (markup : Bool → String) : Prop where
  laidOut : IsLaidOut [] tree.events markup
  reads : ∀ verbose, read? (markup verbose) = some [tree.node (margin verbose)]

/-- A tree as a document in both layouts, read as the tree from each of them. -/
structure IsDocument (tree : Tree) (markup : Bool → String) : Prop where
  laidOut : IsLaidOut [] (.declaration :: tree.events) markup
  reads : ∀ verbose,
    read? (markup verbose) = some (breaks (margin verbose) ++ [tree.node (margin verbose)])

/-- What is written for a tree by itself is the tree in both layouts. -/
theorem isFragment_render {tree : Tree} (h : ∀ e ∈ tree.events, IsSound e) :
    IsFragment tree fun verbose => render verbose tree.events where
  laidOut := isLaidOut_render tree.events
  reads verbose := read?_fragment verbose h

/-- What is written for a tree behind the declaration is the tree as a document in both layouts. -/
theorem isDocument_render {tree : Tree} (h : ∀ e ∈ tree.events, IsSound e) :
    IsDocument tree fun verbose => render verbose (.declaration :: tree.events) where
  laidOut := isLaidOut_render (.declaration :: tree.events)
  reads verbose := read?_document verbose h

end Cartouche.Markup
