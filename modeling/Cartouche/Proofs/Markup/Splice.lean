import Cartouche.Proofs.Markup.Reindent

/-!
# Trees that are put in place later

A tree that is put into indented markup as a fragment is the same as one that is written there, with
one difference: the line feeds in its own texts are taken for ends of lines as well, and get blanks
behind them (`reindent_tree`, `inserted_render`). So it is exactly the same when there are no line
feeds in its texts, and only then: the blanks can be counted (`chars_mapTexts_eq_iff`).
-/

namespace Cartouche

/-! ## Texts -/

namespace Event

/-- The texts in an event: the values of its attributes, and what stands between tags. -/
def texts : Event → List String
  | .startTag _ attributes => attributes.map Prod.snd
  | .emptyTag _ attributes => attributes.map Prod.snd
  | .text content => [content]
  | _ => []

/-- The event with other texts in it. -/
def mapTexts (f : String → String) : Event → Event
  | .startTag name attributes => .startTag name (attributes.map (Prod.map id f))
  | .emptyTag name attributes => .emptyTag name (attributes.map (Prod.map id f))
  | .text content => .text (f content)
  | event => event

/-- An event with the same texts is the same. -/
theorem mapTexts_eq_self {f : String → String} {event : Event}
    (h : ∀ text ∈ event.texts, f text = text) : event.mapTexts f = event := by
  have hattributes : ∀ attributes : Attributes, (∀ text ∈ attributes.map Prod.snd, f text = text) →
      attributes.map (Prod.map id f) = attributes := by
    intro attributes hsame
    have hself : ∀ a ∈ attributes, Prod.map id f a = a := fun a ha =>
      Prod.ext rfl (hsame a.2 (List.mem_map_of_mem ha))
    rw [List.map_congr_left hself, List.map_id']
  cases event with
  | declaration => rfl
  | startTag name attributes => rw [mapTexts, hattributes attributes h]
  | endTag name => rfl
  | emptyTag name attributes => rw [mapTexts, hattributes attributes h]
  | text content => rw [mapTexts, h content (by simp [texts])]

/-- Changing the texts of an element changes them in its attributes and in its content. -/
theorem map_mapTexts_element (f : String → String) (name : String) (attributes : Attributes)
    (content : List Event) :
    (element name attributes content).map (mapTexts f) =
      element name (attributes.map (Prod.map id f)) (content.map (mapTexts f)) := by
  simp [element, mapTexts]

/-- Changing the texts of an element that holds a text changes this text. -/
theorem map_mapTexts_textElement (f : String → String) (name : String) (attributes : Attributes)
    (content : String) :
    (textElement name attributes content).map (mapTexts f) =
      textElement name (attributes.map (Prod.map id f)) (f content) :=
  rfl

end Event

namespace Markup

namespace Tree

mutual

/-- The tree with other texts in it. -/
def mapTexts (f : String → String) : Tree → Tree
  | .empty name attributes => .empty name (attributes.map (Prod.map id f))
  | .text name attributes content => .text name (attributes.map (Prod.map id f)) (f content)
  | .element name attributes members =>
    .element name (attributes.map (Prod.map id f)) (mapAllTexts f members)

/-- The trees with other texts in them. -/
def mapAllTexts (f : String → String) : List Tree → List Tree
  | [] => []
  | tree :: rest => mapTexts f tree :: mapAllTexts f rest

end

mutual

/-- Changing the texts of a tree changes them in its events, and nothing else about these. -/
theorem events_mapTexts (f : String → String) :
    (tree : Tree) → (tree.mapTexts f).events = tree.events.map (Event.mapTexts f)
  | .empty name attributes => rfl
  | .text name attributes content => rfl
  | .element name attributes members => by
    rw [mapTexts, events_element, events_element, Event.map_mapTexts_element,
      allEvents_mapAllTexts f members]

/-- The same for several trees, one by one. -/
theorem allEvents_mapAllTexts (f : String → String) :
    (trees : List Tree) →
      allEvents (mapAllTexts f trees) = (allEvents trees).map (Event.mapTexts f)
  | [] => rfl
  | tree :: rest => by
    rw [mapAllTexts, allEvents_cons, allEvents_cons, List.map_append, events_mapTexts f tree,
      allEvents_mapAllTexts f rest]

end

end Tree

/-- Whether an event can be read does not depend on its texts. -/
theorem IsSound.mapTexts {event : Event} (h : IsSound event) (f : String → String) :
    IsSound (event.mapTexts f) := by
  have htag : ∀ {name : String} {attributes : Attributes}, IsTag name attributes →
      IsTag name (attributes.map (Prod.map id f)) := by
    intro name attributes htag
    have hkeys : (attributes.map (Prod.map id f)).map Prod.fst = attributes.map Prod.fst := by
      simp [Function.comp_def]
    refine ⟨htag.name, fun a ha => ?_, by rw [hkeys]; exact htag.nodup⟩
    obtain ⟨b, hb, rfl⟩ := List.mem_map.1 ha
    exact htag.keys b hb
  cases event with
  | declaration => exact h
  | startTag name attributes => exact htag h
  | endTag name => exact h
  | emptyTag name attributes => exact htag h
  | text content => trivial

/-- A text with blanks behind every line feed. -/
def reindentText (blanks : Nat) (text : String) : String :=
  String.ofList (reindent blanks text.toList)

/-- A text without line feeds stays as it is. -/
theorem reindentText_eq_self {blanks : Nat} {text : String} (h : '\n' ∉ text.toList) :
    reindentText blanks text = text := by
  rw [reindentText, reindent_eq_self h, String.ofList_toList]

section

variable {blanks : Nat}

/-- An escaped text in front of a character that is no line feed is indented by itself. -/
theorem reindent_escaped (text : String) {c : Char} (hc : c ≠ '\n') (rest : List Char) :
    reindent blanks (text.toList.flatMap escapeMarkupChar ++ c :: rest) =
      (reindentText blanks text).toList.flatMap escapeMarkupChar ++
        reindent blanks (c :: rest) := by
  rw [reindent_append fun _ => by simpa using hc, reindent_escape, reindentText,
    String.toList_ofList]

/-- Attributes are indented value by value. -/
theorem reindent_attributes {attributes : Attributes}
    (h : ∀ a ∈ attributes, isName a.1.toList) (rest : List Char) :
    reindent blanks (attributes.flatMap attributeChars ++ rest) =
      (attributes.map (Prod.map id (reindentText blanks))).flatMap attributeChars ++
        reindent blanks rest := by
  induction attributes with
  | nil => rfl
  | cons a attributes ih =>
    have hkey := h a (by simp)
    simp only [List.flatMap_cons, List.map_cons, attributeChars, Prod.map_fst, Prod.map_snd, id_eq,
      List.cons_append, List.append_assoc, List.nil_append]
    rw [reindent_cons_of_ne (by decide) (by decide), reindent_name hkey,
      reindent_cons_of_ne (by decide) (by decide), reindent_cons_of_ne (by decide) (by decide),
      reindent_escaped _ (by decide), reindent_cons_of_ne (by decide) (by decide),
      ih fun b hb => h b (by simp [hb])]

/-- What stands in a tag is indented value by value. -/
theorem reindent_head {name : String} {attributes : Attributes} (h : IsTag name attributes)
    (rest : List Char) :
    reindent blanks ((Event.head name attributes).toList ++ rest) =
      (Event.head name (attributes.map (Prod.map id (reindentText blanks)))).toList ++
        reindent blanks rest := by
  rw [toList_head, toList_head, List.append_assoc, reindent_name h.name,
    reindent_attributes h.keys, List.append_assoc]

/-- A tag is indented value by value. -/
theorem reindent_tag {event : Event} (hsound : IsSound event) (htag : event.isText = false)
    (rest : List Char) :
    reindent blanks (event.render.toList ++ rest) =
      (event.mapTexts (reindentText blanks)).render.toList ++ reindent blanks rest := by
  have hplain : ∀ c ∈ ['<', '/', '>'], c ≠ '\n' ∧ c ≠ '\r' := by simp
  have hcons : ∀ c ∈ ['<', '/', '>'], ∀ rest : List Char,
      reindent blanks (c :: rest) = c :: reindent blanks rest :=
    fun c hc rest => reindent_cons_of_ne (hplain c hc).1 (hplain c hc).2 rest
  cases event with
  | declaration => exact hsound.elim
  | startTag name attributes =>
    simp [Event.render, Event.mapTexts, hcons, reindent_head hsound]
  | endTag name =>
    simp [Event.render, Event.mapTexts, hcons, reindent_name hsound]
  | emptyTag name attributes =>
    simp [Event.render, Event.mapTexts, hcons, reindent_head hsound]
  | text content => cases htag

/-- A text in front of an end tag is indented by itself. -/
theorem reindent_escaped_endTag (text : String) {name : String} (h : isName name.toList)
    (rest : List Char) :
    reindent blanks (text.toList.flatMap escapeMarkupChar ++
        ((Event.endTag name).render.toList ++ rest)) =
      (reindentText blanks text).toList.flatMap escapeMarkupChar ++
        ((Event.endTag name).render.toList ++ reindent blanks rest) := by
  have hbracket : (Event.endTag name).render.toList = '<' :: '/' :: name.toList ++ ['>'] := by
    simp [Event.render]
  have htail : reindent blanks ((Event.endTag name).render.toList ++ rest) =
      (Event.endTag name).render.toList ++ reindent blanks rest :=
    @reindent_tag blanks (.endTag name) h rfl rest
  rw [← htail, hbracket, List.cons_append, List.cons_append, reindent_escaped _ (by decide)]

end

/-! ## Trees -/

namespace Spacing

/-- The same line breaks with more blanks. -/
def shift (sp : Spacing) (blanks : Nat) : Spacing := { sp with indent := blanks + sp.indent }

/-- The line breaks do not depend on the texts. -/
@[simp] theorem after_mapTexts (sp : Spacing) (f : String → String) (event : Event) :
    sp.after (event.mapTexts f) = sp.after event := by
  cases event <;> rfl

/-- The layout behind events does not depend on their texts. -/
@[simp] theorem afterAll_mapTexts (sp : Spacing) (f : String → String) (events : List Event) :
    sp.afterAll (events.map (Event.mapTexts f)) = sp.afterAll events := by
  rw [afterAll, List.foldl_map]
  simp only [after_mapTexts]
  rfl

/-- The line break in front of an event does not depend on its texts. -/
@[simp] theorem breakBefore_mapTexts (sp : Spacing) (f : String → String) (event : Event) :
    sp.breakBefore (event.mapTexts f) = sp.breakBefore event := by
  cases event <;> rfl

end Spacing

section

variable {blanks : Nat}

/-- A tag and the line break in front of it are indented together. -/
theorem reindent_breakBefore (sp : Spacing) {event : Event} (hsound : IsSound event)
    (htag : event.isText = false)
    (hindent : (sp.shift blanks).indentFor event = blanks + sp.indentFor event)
    (rest : List Char) :
    reindent blanks ((sp.breakBefore event).toList ++ (event.render.toList ++ rest)) =
      ((sp.shift blanks).breakBefore event).toList ++
        ((event.mapTexts (reindentText blanks)).render.toList ++ reindent blanks rest) := by
  have hbreak : (sp.shift blanks).breakBefore event =
      if sp.pretty && sp.breakPending && !event.isText then
        lineBreak (blanks + sp.indentFor event) else "" := by
    rw [← hindent]
    rfl
  rw [hbreak, Spacing.breakBefore]
  split
  · simp [reindent_lineBreak, reindent_tag hsound htag]
  · simp [reindent_tag hsound htag]

mutual

/-- Indenting the text of a tree again is writing the tree further to the right, with all texts in
it indented. -/
theorem reindent_tree (sp : Spacing) (rest : List Char) :
    (tree : Tree) → (∀ e ∈ tree.events, IsSound e) →
      reindent blanks (sp.chars tree.events ++ rest) =
        (sp.shift blanks).chars (tree.events.map (Event.mapTexts (reindentText blanks))) ++
          reindent blanks rest
  | .empty name attributes, hsound => by
    have htag := hsound (.emptyTag name attributes) (by simp)
    simp [reindent_breakBefore sp htag rfl rfl]
  | .text name attributes content, hsound => by
    have hstart := hsound (.startTag name attributes) (by simp [Event.textElement, Event.element])
    have hend := hsound (.endTag name) (by simp [Event.textElement, Event.element])
    rw [Tree.events_text, Event.map_mapTexts_textElement, Spacing.chars_textElement,
      Spacing.chars_textElement]
    simp only [List.append_assoc]
    rw [reindent_breakBefore sp hstart rfl rfl, reindent_escaped_endTag content hend]
    rfl
  | .element name attributes members, hsound => by
    have hstart := hsound (.startTag name attributes) (by simp [Event.element])
    have hend := hsound (.endTag name) (by simp [Event.element])
    have hmembers : ∀ e ∈ Tree.allEvents members, IsSound e :=
      fun e he => hsound e (by simp [Event.element, he])
    have hafter := Spacing.afterAll_trees (sp.after (.startTag name attributes)) rfl members
    have hafter' : ((sp.shift blanks).after (.startTag name
        (attributes.map (Prod.map id (reindentText blanks))))).afterAll
          ((Tree.allEvents members).map (Event.mapTexts (reindentText blanks))) =
            (sp.shift blanks).after (.startTag name attributes) := by
      rw [Spacing.afterAll_mapTexts]
      exact Spacing.afterAll_trees _ rfl members
    -- The end tag stands further to the right as well, since its line has blanks to lose.
    have hindent : ((sp.after (.startTag name attributes)).shift blanks).indentFor (.endTag name) =
        blanks + (sp.after (.startTag name attributes)).indentFor (.endTag name) := by
      simp [Spacing.shift, Spacing.after, Spacing.indentFor, ← Nat.add_assoc]
    rw [Tree.events_element, Event.map_mapTexts_element, Spacing.chars_element _ _ _ hafter,
      Spacing.chars_element _ _ _ hafter']
    simp only [List.append_assoc]
    rw [reindent_breakBefore sp hstart rfl rfl, reindent_trees _ rfl _ members hmembers,
      reindent_breakBefore _ hend rfl hindent]
    rfl

/-- Indenting the text of trees again is indenting them one after the other. -/
theorem reindent_trees (sp : Spacing) (h : sp.breakPending = true) (rest : List Char) :
    (trees : List Tree) → (∀ e ∈ Tree.allEvents trees, IsSound e) →
      reindent blanks (sp.chars (Tree.allEvents trees) ++ rest) =
        (sp.shift blanks).chars
            ((Tree.allEvents trees).map (Event.mapTexts (reindentText blanks))) ++
          reindent blanks rest
  | [], hsound => by
    simp
  | tree :: trees, hsound => by
    have hsame : ({ sp with breakPending := true } : Spacing) = sp := by rw [← h]
    have hafter : (sp.shift blanks).afterAll tree.events = sp.shift blanks := by
      rw [Spacing.afterAll_tree, Spacing.shift, h]
    rw [Tree.allEvents_cons, List.forall_mem_append] at hsound
    rw [Tree.allEvents_cons, Spacing.chars_append, Spacing.afterAll_tree, hsame, List.append_assoc,
      reindent_tree sp _ tree hsound.1, reindent_trees sp h rest trees hsound.2, List.map_append,
      Spacing.chars_append, Spacing.afterAll_mapTexts, hafter, List.append_assoc]

end

/-- A line break stands in front of the first tag, if there is to be one. -/
theorem chars_tree_of_breakPending {sp : Spacing} (hpretty : sp.pretty)
    (h : sp.breakPending = false) (tree : Tree) :
    ({ sp with breakPending := true } : Spacing).chars tree.events =
      (lineBreak sp.indent).toList ++ sp.chars tree.events := by
  obtain ⟨name, attributes, events, hevents | hevents⟩ := tree.exists_events
  · simp [hevents, Spacing.breakBefore, Spacing.after, Spacing.indentFor, Event.isText, hpretty, h]
  · simp [hevents, Spacing.breakBefore, Spacing.after, Spacing.indentFor, Event.isText, hpretty, h]

/-- The text of a tree ends with a bracket. -/
theorem getLast?_chars_tree (sp : Spacing) (tree : Tree) :
    (sp.chars tree.events).getLast? = some '>' := by
  have hend : ∀ (front : List Char) (name : String),
      (front ++ (Event.endTag name).render.toList).getLast? = some '>' := by
    intro front name
    have hrender : (Event.endTag name).render.toList = ('<' :: '/' :: name.toList) ++ ['>'] := by
      simp [Event.render]
    rw [hrender, ← List.append_assoc, List.getLast?_concat]
  cases tree with
  | empty name attributes =>
    have hrender : (Event.emptyTag name attributes).render.toList =
        ('<' :: (Event.head name attributes).toList ++ ['/']) ++ ['>'] := by
      simp [Event.render]
    rw [Tree.events_empty, Spacing.chars_cons, Spacing.chars_nil, List.append_nil, hrender,
      ← List.append_assoc, List.getLast?_concat]
  | text name attributes content =>
    rw [Tree.events_text, Spacing.chars_textElement]
    simp only [← List.append_assoc]
    exact hend _ name
  | element name attributes members =>
    rw [Tree.events_element, Spacing.chars_element _ _ _ (Spacing.afterAll_trees _ rfl members)]
    simp only [← List.append_assoc]
    exact hend _ name

end

/-- A tree that is put into indented markup is written there with all texts in it indented. -/
theorem inserted_render {w : Writer} (hw : w.pretty) (depth : Nat) {tree : Tree}
    (hsound : ∀ e ∈ tree.events, IsSound e) :
    w.inserted depth (render true tree.events) =
      ({ pretty := true, indent := indentStep * depth, breakPending := true } : Spacing).text
        (tree.events.map (Event.mapTexts (reindentText (indentStep * depth)))) := by
  have hrender : (render true tree.events).toList =
      ({ pretty := true } : Spacing).chars tree.events := by
    simp [render, Spacing.toList_text]
  have hlast : (render true tree.events).toList.getLast? = some '>' := by
    rw [hrender, getLast?_chars_tree]
  have hmargin := @chars_tree_of_breakPending { pretty := true } rfl rfl tree
  have hreindent := @reindent_tree (indentStep * depth)
    { pretty := true, breakPending := true } [] tree hsound
  rw [List.append_nil, reindent_nil, List.append_nil, hmargin, reindent_lineBreak] at hreindent
  rw [← String.toList_inj, toList_inserted hw depth hlast (by decide), hrender,
    Spacing.toList_text]
  exact hreindent

/-! ## Line feeds in texts -/

/-- Attributes have a blank more for each blank that their values are indented by. -/
theorem count_attributes (blanks : Nat) (attributes : Attributes) :
    ((attributes.map (Prod.map id (reindentText blanks))).flatMap attributeChars).count ' ' =
      (attributes.flatMap attributeChars).count ' ' +
        blanks * ((attributes.map Prod.snd).flatMap String.toList).count '\n' := by
  induction attributes with
  | nil => rfl
  | cons a rest ih =>
    simp only [List.map_cons, List.flatMap_cons, List.count_append, ih, attributeChars,
      Prod.map_fst, Prod.map_snd, id_eq, reindentText, String.toList_ofList, List.count_cons,
      count_escape, count_reindent, Nat.mul_add]
    omega

/-- What stands in a tag has a blank more for each blank that the values are indented by. -/
theorem count_head (blanks : Nat) (name : String) (attributes : Attributes) :
    (Event.head name (attributes.map (Prod.map id (reindentText blanks)))).toList.count ' ' =
      (Event.head name attributes).toList.count ' ' +
        blanks * ((attributes.map Prod.snd).flatMap String.toList).count '\n' := by
  rw [toList_head, toList_head, List.count_append, List.count_append, count_attributes,
    Nat.add_assoc]

/-- An event has a blank more for each blank that its texts are indented by. -/
theorem count_render_mapTexts (blanks : Nat) (event : Event) :
    (event.mapTexts (reindentText blanks)).render.toList.count ' ' =
      event.render.toList.count ' ' +
        blanks * (event.texts.flatMap String.toList).count '\n' := by
  cases event with
  | declaration => simp [Event.mapTexts, Event.texts]
  | endTag name => simp [Event.mapTexts, Event.texts]
  | startTag name attributes =>
    simp only [Event.render, Event.mapTexts, Event.texts, String.toList_append, List.count_append,
      count_head]
    omega
  | emptyTag name attributes =>
    simp only [Event.render, Event.mapTexts, Event.texts, String.toList_append, List.count_append,
      count_head]
    omega
  | text content =>
    simp [Event.render, Event.mapTexts, Event.texts, escapeMarkup, reindentText, count_escape,
      count_reindent]

/-- Markup has a blank more for each blank that its texts are indented by. -/
theorem count_chars_mapTexts (sp : Spacing) (blanks : Nat) (events : List Event) :
    (sp.chars (events.map (Event.mapTexts (reindentText blanks)))).count ' ' =
      (sp.chars events).count ' ' +
        blanks * ((events.flatMap Event.texts).flatMap String.toList).count '\n' := by
  induction events generalizing sp with
  | nil => rfl
  | cons event rest ih =>
    simp only [List.map_cons, Spacing.chars_cons, Spacing.breakBefore_mapTexts,
      Spacing.after_mapTexts, List.count_append, List.flatMap_cons, List.flatMap_append, ih,
      count_render_mapTexts, Nat.mul_add]
    omega

/-- Markup is the same with indented texts when there are no line feeds in the texts, and only then.
-/
theorem chars_mapTexts_eq_iff (sp : Spacing) {blanks : Nat} (h : 0 < blanks)
    (events : List Event) :
    sp.chars (events.map (Event.mapTexts (reindentText blanks))) = sp.chars events ↔
      ∀ text ∈ events.flatMap Event.texts, '\n' ∉ text.toList := by
  constructor
  · intro heq text htext hfeed
    have hcount := count_chars_mapTexts sp blanks events
    have hpos : 0 < ((events.flatMap Event.texts).flatMap String.toList).count '\n' :=
      List.count_pos_iff.2 (List.mem_flatMap.2 ⟨text, htext, hfeed⟩)
    have := Nat.mul_pos h hpos
    rw [heq] at hcount
    omega
  · intro hplain
    have hself : ∀ e ∈ events, e.mapTexts (reindentText blanks) = e := fun e he =>
      Event.mapTexts_eq_self fun text htext =>
        reindentText_eq_self (hplain text (List.mem_flatMap.2 ⟨e, he, htext⟩))
    rw [List.map_congr_left hself, List.map_id']

end Markup

end Cartouche
