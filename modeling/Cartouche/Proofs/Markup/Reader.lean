import Cartouche.Markup.Event

/-!
# Reading markup

A reader of markup that knows nothing of how it was written. `Markup.step` reads one character;
around the tag or text that is being read stands the stack of open elements. A name is a run of
characters other than blanks, slashes, brackets, equality signs and quotes, the five entities are
decoded in texts and in attribute values, and blanks are text like any other. `Markup.read?` gives
the nodes of a whole text, if every element was closed by an end tag of its name and no element has
two attributes of one name.

A reader that stands between tags reads the characters of an event as a whole: `run_render` reduces
reading characters to reading events.
-/

namespace Cartouche.Markup

/-- What markup consists of: texts, and elements with their attributes around other nodes. -/
inductive Node where
  | element (name : String) (attributes : Attributes) (content : List Node)
  | text (content : String)

/-- The name of an element, and its attributes. -/
structure Head where
  name : String
  attributes : Attributes

namespace Node

mutual

/-- All elements of a node in the order in which they begin, each with its content. -/
def elements : Node → List (Head × List Node)
  | .text _ => []
  | .element name attributes content => (⟨name, attributes⟩, content) :: elementsIn content

/-- All elements in nodes. -/
def elementsIn : List Node → List (Head × List Node)
  | [] => []
  | node :: rest => elements node ++ elementsIn rest

end

/-- The elements of nodes are found node by node. -/
theorem elementsIn_eq_flatMap (nodes : List Node) : elementsIn nodes = nodes.flatMap elements := by
  induction nodes with
  | nil => simp [elementsIn]
  | cons node rest ih => simp [elementsIn, ih]

/-- What the elements of a name contain, in the order in which they begin. -/
def contentsOf (name : String) (node : Node) : List (List Node) :=
  (node.elements.filter fun element => element.1.name == name).map Prod.snd

/-- The contents of the elements of a name are found in the order in which the elements begin: the
element itself comes before those in it. -/
theorem contentsOf_element (name other : String) (attributes : Attributes) (content : List Node) :
    contentsOf name (.element other attributes content) =
      (if other = name then [content] else []) ++ content.flatMap (contentsOf name) := by
  have hcontent : ((elementsIn content).filter fun element => element.1.name == name).map Prod.snd =
      content.flatMap (contentsOf name) := by
    rw [elementsIn_eq_flatMap, List.filter_flatMap, List.map_flatMap]
    rfl
  rw [contentsOf, elements, List.filter_cons]
  by_cases h : other = name
  · simp [h, hcontent]
  · simp [h, hcontent]

end Node

/-! ## Characters -/

/-- The character separates attributes. -/
def isBlank (c : Char) : Bool := c == ' ' || c == '\t' || c == '\n' || c == '\r'

/-- The character may stand in a name. -/
def isNameChar (c : Char) : Bool := !isBlank c && !"/><=\"'".toList.contains c

/-- The character may begin a name; two others begin comments and instructions. -/
def isNameFirst (c : Char) : Bool := isNameChar c && c != '!' && c != '?'

/-- The characters are a name. -/
def isName : List Char → Bool
  | [] => false
  | first :: rest => isNameFirst first && rest.all isNameChar

/-- The character that an entity stands for. -/
def entity? (name : List Char) : Option Char :=
  if name = "lt".toList then some '<'
  else if name = "gt".toList then some '>'
  else if name = "amp".toList then some '&'
  else if name = "apos".toList then some '\''
  else if name = "quot".toList then some '"'
  else none

/-- A text that is being decoded. -/
structure Decoding where
  chars : List Char := []
  /-- The name of an entity that is being read. -/
  reference : Option (List Char) := none

/-- Decodes one more character. -/
def Decoding.push (text : Decoding) (c : Char) : Option Decoding :=
  match text.reference with
  | none => some (if c = '&' then { text with reference := some [] } else ⟨text.chars ++ [c], none⟩)
  | some name =>
    if c = ';' then (entity? name).map fun e => ⟨text.chars ++ [e], none⟩
    else some { text with reference := some (name ++ [c]) }

/-! ## States -/

/-- What is being read. -/
inductive Mode where
  /-- Between tags. -/
  | content (text : Decoding)
  /-- Behind the bracket of a tag. -/
  | tag
  /-- The name of an element. -/
  | name (name : List Char)
  /-- Blanks in a tag. -/
  | inside (head : Head)
  /-- The name of an attribute. -/
  | key (head : Head) (key : List Char)
  /-- Behind an equality sign. -/
  | equals (head : Head) (key : String)
  /-- The value of an attribute. -/
  | value (head : Head) (key : String) (quote : Char) (text : Decoding)
  /-- Behind the value of an attribute. -/
  | closed (head : Head)
  /-- Behind the slash that ends a tag. -/
  | slash (head : Head)
  /-- The name in an end tag. -/
  | endName (name : List Char)

/-- An open element, with the nodes in front of it. -/
structure Frame where
  head : Head
  before : List Node

/-- The state of the reader. -/
structure State where
  /-- The open elements, from the innermost one. -/
  stack : List Frame := []
  /-- What was read of the content of the innermost one. -/
  nodes : List Node := []
  mode : Mode := .content {}

/-- A text as content: no text is no node. -/
def textNodes (text : List Char) : List Node :=
  if text = [] then [] else [.text (String.ofList text)]

namespace State

/-- An element begins. -/
def openElement (s : State) (head : Head) : State where
  stack := ⟨head, s.nodes⟩ :: s.stack
  nodes := []

/-- An element without content. -/
def emptyElement (s : State) (head : Head) : State where
  stack := s.stack
  nodes := s.nodes ++ [.element head.name head.attributes []]

/-- The innermost element ends, if it has the name. -/
def closeElement (s : State) (name : String) : Option State :=
  match s.stack with
  | [] => none
  | frame :: outer =>
    if frame.head.name = name then
      some {
        stack := outer
        nodes := frame.before ++ [.element frame.head.name frame.head.attributes s.nodes] }
    else
      none

/-- What may follow the name or an attribute in a tag. -/
def afterHead (s : State) (head : Head) (c : Char) : Option State :=
  if c = '>' then some (s.openElement head)
  else if c = '/' then some { s with mode := .slash head }
  else if isBlank c then some { s with mode := .inside head }
  else none

end State

/-- Reads one character. -/
def step (s : State) (c : Char) : Option State :=
  match s.mode with
  | .content text =>
    if c = '<' then
      if text.reference.isNone then
        some { s with nodes := s.nodes ++ textNodes text.chars, mode := .tag }
      else none
    else (text.push c).map fun text => { s with mode := .content text }
  | .tag =>
    if c = '/' then some { s with mode := .endName [] }
    else if isNameFirst c then some { s with mode := .name [c] }
    else none
  | .name name =>
    if isNameChar c then some { s with mode := .name (name ++ [c]) }
    else s.afterHead ⟨String.ofList name, []⟩ c
  | .inside head =>
    if isNameFirst c then some { s with mode := .key head [c] } else s.afterHead head c
  | .key head key =>
    if isNameChar c then some { s with mode := .key head (key ++ [c]) }
    else if c = '=' then some { s with mode := .equals head (String.ofList key) }
    else none
  | .equals head key =>
    if c = '"' ∨ c = '\'' then some { s with mode := .value head key c {} } else none
  | .value head key quote text =>
    if c = quote then
      if text.reference.isNone ∧ key ∉ head.attributes.map Prod.fst then
        let attributes := head.attributes ++ [(key, String.ofList text.chars)]
        some { s with mode := .closed { head with attributes } }
      else none
    else if c = '<' then none
    else (text.push c).map fun text => { s with mode := .value head key quote text }
  | .closed head => s.afterHead head c
  | .slash head => if c = '>' then some (s.emptyElement head) else none
  | .endName name =>
    if c = '>' then s.closeElement (String.ofList name)
    else if isNameChar c then some { s with mode := .endName (name ++ [c]) }
    else none

/-- Reads characters one after the other. -/
def run (s : State) (chars : List Char) : Option State := chars.foldlM step s

/-- What stands behind the end of an instruction. -/
def behindInstruction? : List Char → Option (List Char)
  | [] => none
  | '?' :: '>' :: rest => some rest
  | _ :: rest => behindInstruction? rest

/-- The characters behind the declaration, if there is one in front. -/
def behindDeclaration? : List Char → Option (List Char)
  | '<' :: '?' :: 'x' :: 'm' :: 'l' :: ' ' :: rest => behindInstruction? rest
  | chars => some chars

/-- The nodes that were read, if no element is open and no tag or entity begun. -/
def State.nodes? (s : State) : Option (List Node) :=
  match s.stack, s.mode with
  | [], .content ⟨text, none⟩ => some (s.nodes ++ textNodes text)
  | _, _ => none

/-- The nodes of a text. -/
def read? (text : String) : Option (List Node) := do
  let chars ← behindDeclaration? text.toList
  let s ← run {} chars
  s.nodes?

/-! ## Words and escaped texts -/

@[simp] theorem run_nil (s : State) : run s [] = some s := rfl

/-- Reading stops at the first character that cannot be read. -/
@[simp] theorem run_cons (s : State) (c : Char) (chars : List Char) :
    run s (c :: chars) = (step s c).bind (run · chars) := by
  simp [run, List.foldlM_cons]

/-- Characters can be read in two runs, so what an event is read as can be found event by event. -/
theorem run_append (s : State) (first second : List Char) :
    run s (first ++ second) = (run s first).bind (run · second) := by
  simp [run, List.foldlM_append]

/-- What may begin a name may go on with it. -/
theorem isNameChar_of_isNameFirst {c : Char} (h : isNameFirst c) : isNameChar c := by
  simp only [isNameFirst, Bool.and_eq_true] at h
  exact h.1.1

/-- A name has a first character. -/
theorem exists_of_isName {name : List Char} (h : isName name) :
    ∃ first rest, name = first :: rest ∧ isNameFirst first ∧ ∀ c ∈ rest, isNameChar c := by
  cases name with
  | nil => simp [isName] at h
  | cons first rest =>
    simp only [isName, Bool.and_eq_true, List.all_eq_true] at h
    exact ⟨first, rest, rfl, h.1, h.2⟩

/-- A character of a name is none of those that end a name. -/
theorem ne_of_isNameChar {c d : Char} (h : isNameChar c) (hd : isNameChar d = false) : c ≠ d := by
  rintro rfl
  simp [h] at hd

/-- A mode that collects the characters of names collects those of a word. -/
theorem run_word {s : State} {mode : List Char → Mode}
    (hmode : ∀ word c, isNameChar c →
      step { s with mode := mode word } c = some { s with mode := mode (word ++ [c]) })
    {chars : List Char} (h : ∀ c ∈ chars, isNameChar c) (word : List Char) :
    run { s with mode := mode word } chars = some { s with mode := mode (word ++ chars) } := by
  induction chars generalizing word with
  | nil => simp
  | cons c rest ih =>
    rw [run_cons, hmode word c (h c (by simp)), Option.bind_some,
      ih (fun d hd => h d (by simp [hd])), List.append_assoc, List.singleton_append]

/-- An escaped character has no bracket and no quote in it. -/
theorem ne_of_mem_escapeMarkupChar {c d : Char} (h : d ∈ escapeMarkupChar c) :
    d ≠ '<' ∧ d ≠ '"' := by
  unfold escapeMarkupChar at h
  split at h
  · exact ⟨by rintro rfl; simp at h, by rintro rfl; simp at h⟩
  · exact ⟨by rintro rfl; simp at h, by rintro rfl; simp at h⟩
  · exact ⟨by rintro rfl; simp at h, by rintro rfl; simp at h⟩
  · exact ⟨by rintro rfl; simp at h, by rintro rfl; simp at h⟩
  · exact ⟨by rintro rfl; simp at h, by rintro rfl; simp at h⟩
  · next hlt _ _ _ hquot =>
    obtain rfl : d = c := by simpa using h
    exact ⟨hlt, hquot⟩

/-- Decoding an escaped character gives the character. -/
theorem foldlM_push_escapeMarkupChar (chars : List Char) (c : Char) :
    (escapeMarkupChar c).foldlM Decoding.push ⟨chars, none⟩ = some ⟨chars ++ [c], none⟩ := by
  unfold escapeMarkupChar
  split
  · rfl
  · rfl
  · rfl
  · rfl
  · rfl
  · next hamp _ _ =>
    have hne : c ≠ '&' := hamp
    simp [Decoding.push, hne]

section

variable {s : State} {mode : Decoding → Mode}
  (hmode : ∀ text c, c ≠ '<' → c ≠ '"' →
    step { s with mode := mode text } c =
      (text.push c).map fun text => { s with mode := mode text })

include hmode

/-- A mode that decodes texts decodes all characters that do not end it. -/
theorem run_decoding {piece : List Char} (h : ∀ c ∈ piece, c ≠ '<' ∧ c ≠ '"') (text : Decoding) :
    run { s with mode := mode text } piece =
      (piece.foldlM Decoding.push text).map fun text => { s with mode := mode text } := by
  induction piece generalizing text with
  | nil => simp
  | cons c rest ih =>
    obtain ⟨hlt, hquot⟩ := h c (by simp)
    rw [run_cons, hmode text c hlt hquot, List.foldlM_cons]
    cases text.push c with
    | none => rfl
    | some text => exact ih (fun d hd => h d (by simp [hd])) text

/-- A mode that decodes texts decodes an escaped one. -/
theorem run_escaped (content chars : List Char) :
    run { s with mode := mode ⟨chars, none⟩ } (content.flatMap escapeMarkupChar) =
      some { s with mode := mode ⟨chars ++ content, none⟩ } := by
  induction content generalizing chars with
  | nil => simp
  | cons c rest ih =>
    rw [List.flatMap_cons, run_append,
      run_decoding hmode fun d hd => ne_of_mem_escapeMarkupChar hd, foldlM_push_escapeMarkupChar]
    simp only [Option.map_some, Option.bind_some]
    rw [ih, List.append_assoc, List.singleton_append]

end

/-! ## Tags -/

/-- The name of an element and the names of its attributes are names, and the latter are distinct.
-/
structure IsTag (name : String) (attributes : Attributes) : Prop where
  name : isName name.toList
  keys : ∀ a ∈ attributes, isName a.1.toList
  nodup : (attributes.map Prod.fst).Nodup

/-- An attribute as it stands in a tag. -/
def attributeChars (a : String × String) : List Char :=
  ' ' :: a.1.toList ++ '=' :: '"' :: a.2.toList.flatMap escapeMarkupChar ++ ['"']

/-- What stands in a tag is the name and the attributes. -/
theorem toList_head (name : String) (attributes : Attributes) :
    (Event.head name attributes).toList = name.toList ++ attributes.flatMap attributeChars := by
  unfold Event.head
  induction attributes generalizing name with
  | nil => simp
  | cons a rest ih =>
    rw [List.foldl_cons, ih]
    simp [attributeChars, escapeMarkup]

/-- A head was read: it ends with the next character that cannot stand in a name. -/
def State.IsSettled (s : State) (head : Head) : Prop :=
  ∀ c, isNameChar c = false → step s c = s.afterHead head c

/-- Reading an attribute adds it to the head. -/
theorem run_attribute {s : State} {name : String} {attributes : Attributes} {a : String × String}
    (hs : s.IsSettled ⟨name, attributes⟩) (hkey : isName a.1.toList)
    (hfresh : a.1 ∉ attributes.map Prod.fst) :
    run s (attributeChars a) = some { s with mode := .closed ⟨name, attributes ++ [a]⟩ } := by
  obtain ⟨first, rest, hlist, hfirst, hrest⟩ := exists_of_isName hkey
  have hblank : step s ' ' = some { s with mode := .inside ⟨name, attributes⟩ } := by
    rw [hs ' ' (by decide)]
    rfl
  have hkeyMode : ∀ word c, isNameChar c →
      step { s with mode := .key ⟨name, attributes⟩ word } c =
        some { s with mode := .key ⟨name, attributes⟩ (word ++ [c]) } := by
    intro word c hc
    simp [step, hc]
  have hvalueMode : ∀ text c, c ≠ '<' → c ≠ '"' →
      step { s with mode := .value ⟨name, attributes⟩ a.1 '"' text } c =
        (text.push c).map fun text =>
          { s with mode := .value ⟨name, attributes⟩ a.1 '"' text } := by
    intro text c hlt hquot
    simp [step, hlt, hquot]
  have hchars : attributeChars a = ' ' :: first ::
      (rest ++ '=' :: '"' :: (a.2.toList.flatMap escapeMarkupChar ++ ['"'])) := by
    simp [attributeChars, hlist]
  have hof : String.ofList (first :: rest) = a.1 := by rw [← hlist, String.ofList_toList]
  have hinside : step { s with mode := .inside ⟨name, attributes⟩ } first =
      some { s with mode := .key ⟨name, attributes⟩ [first] } := by
    simp [step, hfirst]
  have hequals : step { s with mode := .key ⟨name, attributes⟩ (first :: rest) } '=' =
      some { s with mode := .equals ⟨name, attributes⟩ a.1 } := by
    have heq : isNameChar '=' = false := by decide
    simp [step, heq, hof]
  have hquote : step { s with mode := .equals ⟨name, attributes⟩ a.1 } '"' =
      some { s with mode := .value ⟨name, attributes⟩ a.1 '"' {} } := by
    simp [step]
  rw [hchars, run_cons, hblank, Option.bind_some, run_cons, hinside, Option.bind_some, run_append,
    run_word hkeyMode hrest, Option.bind_some, List.singleton_append, run_cons, hequals,
    Option.bind_some, run_cons, hquote, Option.bind_some, run_append, run_escaped hvalueMode]
  simp [step, hfresh, String.ofList_toList]

/-- Reading attributes adds them to the head. -/
theorem run_attributes {s : State} {name : String} {done attributes : Attributes}
    (hs : s.IsSettled ⟨name, done⟩) (hkeys : ∀ a ∈ attributes, isName a.1.toList)
    (hnodup : ((done ++ attributes).map Prod.fst).Nodup) :
    ∃ mode, run s (attributes.flatMap attributeChars) = some { s with mode } ∧
      State.IsSettled { s with mode } ⟨name, done ++ attributes⟩ := by
  induction attributes generalizing s done with
  | nil => exact ⟨s.mode, rfl, by simpa using hs⟩
  | cons a rest ih =>
    have hfresh : a.1 ∉ done.map Prod.fst := by
      intro hmem
      rw [List.map_append, List.nodup_append] at hnodup
      exact hnodup.2.2 a.1 hmem a.1 (by simp) rfl
    have hclosed : State.IsSettled { s with mode := .closed ⟨name, done ++ [a]⟩ }
        ⟨name, done ++ [a]⟩ := fun c _ => rfl
    obtain ⟨mode, hrun, hsettled⟩ :=
      ih hclosed (fun b hb => hkeys b (by simp [hb])) (by simpa using hnodup)
    refine ⟨mode, ?_, by simpa using hsettled⟩
    rw [List.flatMap_cons, run_append, run_attribute hs (hkeys a (by simp)) hfresh,
      Option.bind_some]
    exact hrun

/-- Behind a bracket, the name and the attributes of an element are read as its head. -/
theorem run_head {s : State} (hs : s.mode = .tag) {name : String} {attributes : Attributes}
    (h : IsTag name attributes) :
    ∃ mode, run s (Event.head name attributes).toList = some { s with mode } ∧
      State.IsSettled { s with mode } ⟨name, attributes⟩ := by
  obtain ⟨first, rest, hlist, hfirst, hrest⟩ := exists_of_isName h.name
  have hnameMode : ∀ word c, isNameChar c →
      step { s with mode := .name word } c = some { s with mode := .name (word ++ [c]) } := by
    intro word c hc
    simp [step, hc]
  have hslash : first ≠ '/' := ne_of_isNameChar (isNameChar_of_isNameFirst hfirst) (by decide)
  have htag : step s first = some { s with mode := .name [first] } := by
    simp [step, hs, hslash, hfirst]
  have hof : String.ofList (first :: rest) = name := by rw [← hlist, String.ofList_toList]
  have hnamed : State.IsSettled { s with mode := .name name.toList } ⟨name, []⟩ := by
    intro c hc
    simp [step, hc, State.afterHead, State.openElement, String.ofList_toList]
  obtain ⟨mode, hrun, hsettled⟩ := run_attributes hnamed h.keys (by simpa using h.nodup)
  refine ⟨mode, ?_, hsettled⟩
  rw [toList_head, run_append, hlist, run_cons, htag, Option.bind_some, run_word hnameMode hrest]
  simp only [List.cons_append, List.nil_append, Option.bind_some]
  rw [← hlist]
  exact hrun

/-! ## Events -/

/-- The event can be read anywhere: its names are names, and it is no declaration. -/
def IsSound : Event → Prop
  | .declaration => False
  | .startTag name attributes => IsTag name attributes
  | .endTag name => isName name.toList
  | .emptyTag name attributes => IsTag name attributes
  | .text _ => True

/-- A place between tags, behind nodes and a text that has not ended yet. -/
structure Place where
  stack : List Frame := []
  nodes : List Node := []
  pending : List Char := []

namespace Place

/-- The state of the reader at the place. -/
def state (p : Place) : State := ⟨p.stack, p.nodes, .content ⟨p.pending, none⟩⟩

/-- The nodes up to the place. -/
def settled (p : Place) : List Node := p.nodes ++ textNodes p.pending

/-- Reads an event as a whole. -/
def read (p : Place) : Event → Option Place
  | .declaration => none
  | .startTag name attributes => some { stack := ⟨⟨name, attributes⟩, p.settled⟩ :: p.stack }
  | .endTag name =>
    match p.stack with
    | [] => none
    | frame :: outer =>
      if frame.head.name = name then
        some {
          stack := outer
          nodes := frame.before ++ [.element frame.head.name frame.head.attributes p.settled] }
      else
        none
  | .emptyTag name attributes =>
    some { stack := p.stack, nodes := p.settled ++ [.element name attributes []] }
  | .text content => some { p with pending := p.pending ++ content.toList }

/-- Reads events one after the other. -/
def readAll (p : Place) (events : List Event) : Option Place := events.foldlM read p

@[simp] theorem readAll_nil (p : Place) : p.readAll [] = some p := rfl

/-- Events are read one by one, up to the first that cannot be read. -/
@[simp] theorem readAll_cons (p : Place) (event : Event) (events : List Event) :
    p.readAll (event :: events) = (p.read event).bind (·.readAll events) := by
  simp [readAll, List.foldlM_cons]

/-- Events can be read in two runs. -/
theorem readAll_append (p : Place) (first second : List Event) :
    p.readAll (first ++ second) = (p.readAll first).bind (·.readAll second) := by
  simp [readAll, List.foldlM_append]

/-- A tag ends the text in front of it. -/
theorem step_bracket (p : Place) : step p.state '<' = some ⟨p.stack, p.settled, .tag⟩ := by
  simp [step, state, settled]

/-- Up to a character that cannot stand in a name, a tag is read as its head. -/
theorem run_tag (p : Place) {name : String} {attributes : Attributes} (h : IsTag name attributes)
    {c : Char} (hc : isNameChar c = false) (rest : List Char) :
    ∃ mode, run p.state ('<' :: (Event.head name attributes).toList ++ c :: rest) =
      (State.afterHead ⟨p.stack, p.settled, mode⟩ ⟨name, attributes⟩ c).bind (run · rest) := by
  obtain ⟨mode, hrun, hsettled⟩ := run_head (s := ⟨p.stack, p.settled, .tag⟩) rfl h
  refine ⟨mode, ?_⟩
  rw [List.cons_append, run_cons, step_bracket, Option.bind_some, run_append, hrun,
    Option.bind_some, run_cons, hsettled c hc]

/-- Reading the characters of an end tag is closing the innermost element. -/
theorem run_endTag (p : Place) {name : String} (h : isName name.toList) :
    run p.state (Event.endTag name).render.toList = (p.read (.endTag name)).map state := by
  obtain ⟨first, rest, hlist, hfirst, hrest⟩ := exists_of_isName h
  have hall : ∀ c ∈ name.toList, isNameChar c := by
    intro c hc
    rw [hlist] at hc
    rcases List.mem_cons.1 hc with rfl | hc
    · exact isNameChar_of_isNameFirst hfirst
    · exact hrest c hc
  have hendMode : ∀ word c, isNameChar c →
      step ⟨p.stack, p.settled, .endName word⟩ c =
        some ⟨p.stack, p.settled, .endName (word ++ [c])⟩ := by
    intro word c hc
    have hne : c ≠ '>' := ne_of_isNameChar hc (by decide)
    simp [step, hc, hne]
  have hchars : (Event.endTag name).render.toList = '<' :: '/' :: name.toList ++ ['>'] := by
    simp [Event.render]
  have hslash : step ⟨p.stack, p.settled, .tag⟩ '/' =
      some ⟨p.stack, p.settled, .endName []⟩ := by
    simp [step]
  rw [hchars, List.cons_append, List.cons_append, run_cons, step_bracket, Option.bind_some,
    run_cons, hslash, Option.bind_some, run_append,
    run_word (s := ⟨p.stack, p.settled, .tag⟩) hendMode hall]
  simp only [List.nil_append, Option.bind_some, run_cons, run_nil, Option.bind_fun_some]
  simp only [step, if_true, State.closeElement, String.ofList_toList, read]
  cases p.stack with
  | nil => rfl
  | cons frame outer =>
    simp only
    split
    · rfl
    · rfl

/-- Reading the characters of an event is reading the event. -/
theorem run_render (p : Place) {event : Event} (h : IsSound event) :
    run p.state event.render.toList = (p.read event).map state := by
  cases event with
  | declaration => exact h.elim
  | startTag name attributes =>
    obtain ⟨mode, hrun⟩ := p.run_tag h (c := '>') (by decide) []
    have hchars : (Event.startTag name attributes).render.toList =
        '<' :: (Event.head name attributes).toList ++ ['>'] := by
      simp [Event.render]
    rw [hchars, hrun]
    rfl
  | emptyTag name attributes =>
    obtain ⟨mode, hrun⟩ := p.run_tag h (c := '/') (by decide) ['>']
    have hchars : (Event.emptyTag name attributes).render.toList =
        '<' :: (Event.head name attributes).toList ++ ['/', '>'] := by
      simp [Event.render]
    rw [hchars, hrun]
    rfl
  | endTag name => exact p.run_endTag h
  | text content =>
    have htextMode : ∀ text c, c ≠ '<' → c ≠ '"' →
        step ⟨p.stack, p.nodes, .content text⟩ c =
          (text.push c).map fun text => ⟨p.stack, p.nodes, .content text⟩ := by
      intro text c hlt _
      simp [step, hlt]
    have hchars : (Event.text content).render.toList =
        content.toList.flatMap escapeMarkupChar := by
      simp [Event.render, escapeMarkup]
    rw [hchars]
    exact run_escaped (s := p.state) htextMode content.toList p.pending

/-- Reading the characters of events is reading the events. -/
theorem run_renderAll (p : Place) {events : List Event} (h : ∀ e ∈ events, IsSound e) :
    run p.state (events.flatMap fun e => e.render.toList) = (p.readAll events).map state := by
  induction events generalizing p with
  | nil => rfl
  | cons event rest ih =>
    rw [List.flatMap_cons, run_append, p.run_render (h event (by simp)), readAll_cons]
    cases p.read event with
    | none => rfl
    | some q => exact ih q fun e he => h e (by simp [he])

end Place

/-- The characters of events, with the declaration in front. -/
theorem behindDeclaration?_render (rest : List Char) :
    behindDeclaration? (Event.declaration.render.toList ++ rest) = some rest := by
  rfl

end Cartouche.Markup
