import Cartouche.Proofs.Gml.Collection
import Cartouche.Proofs.Gml.Header
import Cartouche.Proofs.Markup.Splice

/-!
# Headers written in place

With two passes over the features no place has to be reserved: `Encoder.encodeInPlace` finds the
bounding box first and then writes every event where it stands. The document that is written in one
pass is the same (`markup_document_eq_iff`), with one exception. In an indented document the header
is indented again when it is put into its place, line by line, and a line feed inside one of its
texts is taken for the end of a line: the name of the reference system, the decimal point and the
separators are then not what the context says they are (`markup_document`).
-/

namespace Cartouche.Gml.Encoder

open Markup (reindentText)

variable (encoder : Encoder)

/-- The document of features whose bounding box is found in a first pass over them: every event is
written where it stands. -/
def encodeInPlace (features : List Feature) : Except EncodeError Document := do
  let bounds := features.foldl widen .empty
  let writer := ((Writer.new encoder.context.verbose).writeAll encoder.opening).writeAll
    (encoder.boundedBy bounds)
  let progress := features.foldl encoder.add { writer, envelope := .empty, diagnostics := [] }
  let writer := progress.writer.write (.endTag collectionTag)
  return { markup := ← writer.finish.mapError .write, diagnostics := progress.diagnostics }

/-- Everything a document with the given header consists of. -/
def documentEvents (header : List Event) (features : List Feature) : List Event :=
  encoder.opening ++ header ++ encoder.body features

/-- A document that is written in two passes is the text of its events. -/
theorem encodeInPlace_eq (features : List Feature) :
    encoder.encodeInPlace features =
      .ok {
        markup := Markup.render encoder.context.verbose
          (encoder.documentEvents (encoder.boundedBy (envelope features)) features)
        diagnostics := (encoder.document features).diagnostics } := by
  have hfinish := Writer.finish_writeAll encoder.context.verbose
    (encoder.documentEvents (encoder.boundedBy (envelope features)) features)
  simp only [documentEvents, body, Writer.writeAll_append, Writer.writeAll_cons,
    Writer.writeAll_nil] at hfinish
  simp only [encodeInPlace, foldl_add, bind, Except.bind, pure, Except.pure]
  rw [← envelope, hfinish]
  simp [documentEvents, body, document, Except.mapError]

/-! ## The header -/

/-- The header as it is put into its place: in indented documents its texts are indented as well. -/
def splicedHeader (envelope : Envelope Float) : List Event :=
  if encoder.context.verbose then
    (encoder.boundedBy envelope).map (Event.mapTexts (reindentText indentStep))
  else
    encoder.boundedBy envelope

/-- The bounds in a header that is put into its place. -/
def splicedBounds (envelope : Envelope Float) : Markup.Tree :=
  if encoder.context.verbose then
    (encoder.boundsTree envelope).mapTexts (reindentText indentStep)
  else
    encoder.boundsTree envelope

/-- The bounds as a tree are the header that is put into its place. -/
theorem events_splicedBounds (envelope : Envelope Float) :
    Event.element "gml:boundedBy" [] (encoder.splicedBounds envelope).events =
      encoder.splicedHeader envelope := by
  unfold splicedBounds splicedHeader
  rw [← events_boundsTree]
  split
  · rw [Markup.Tree.events_mapTexts, Event.map_mapTexts_element, List.map_nil]
  · rfl

/-- The bounds can be read, whatever their texts are. -/
theorem isForest_splicedBounds (envelope : Envelope Float) :
    Markup.IsForest (encoder.splicedBounds envelope).events := by
  have hbounds : Markup.IsForest (encoder.boundsTree envelope).events :=
    isForest_boundsTree envelope
  unfold splicedBounds
  split
  · refine .ofTree fun e he => ?_
    rw [Markup.Tree.events_mapTexts] at he
    obtain ⟨event, hevent, rfl⟩ := List.mem_map.1 he
    exact (hbounds.2 event hevent).mapTexts _
  · exact hbounds

/-- The header is a tree. -/
theorem exists_tree_boundedBy (envelope : Envelope Float) : ∃ tree : Markup.Tree,
    tree.events = encoder.boundedBy envelope ∧ ∀ e ∈ tree.events, Markup.IsSound e := by
  refine ⟨.element "gml:boundedBy" [] [encoder.boundsTree envelope], ?_, ?_⟩
  · rw [← events_boundsTree]
    simp
  · have h : Markup.IsForest (encoder.boundsTree envelope).events := isForest_boundsTree envelope
    have htag : Markup.IsTag "gml:boundedBy" [] := Markup.isTag_nil.2 (by decide)
    simpa using (Markup.IsForest.element htag h).2

/-- Behind the opening, the next tag begins a line and is in the outermost element. -/
theorem openingSpacing_eq : encoder.openingSpacing =
    { pretty := encoder.context.verbose, indent := indentStep, breakPending := true } := rfl

/-- The header is put into its place as if its events were written there, with the texts indented.
-/
theorem header_eq (envelope : Envelope Float) :
    encoder.header envelope = encoder.openingSpacing.text (encoder.splicedHeader envelope) := by
  obtain ⟨tree, htree, hsound⟩ := encoder.exists_tree_boundedBy envelope
  rw [header, splicedHeader, openingSpacing_eq, ← htree]
  cases hverbose : encoder.context.verbose with
  | false =>
    rw [Markup.Spacing.text_compact rfl]
    rfl
  | true => exact Markup.inserted_render rfl 1 hsound

/-- Behind a header that is written in place, the line breaks go on as in front of it. -/
theorem afterAll_boundedBy (envelope : Envelope Float) :
    encoder.openingSpacing.afterAll (encoder.boundedBy envelope) = encoder.openingSpacing := by
  obtain ⟨tree, htree, -⟩ := encoder.exists_tree_boundedBy envelope
  rw [← htree, Markup.Spacing.afterAll_tree, openingSpacing_eq]

/-- Behind a header that is put into its place, the line breaks go on as in front of it. -/
theorem afterAll_splicedHeader (envelope : Envelope Float) :
    encoder.openingSpacing.afterAll (encoder.splicedHeader envelope) = encoder.openingSpacing := by
  unfold splicedHeader
  split
  · rw [Markup.Spacing.afterAll_mapTexts, afterAll_boundedBy]
  · exact encoder.afterAll_boundedBy envelope

/-- The text of a document in three parts. -/
theorem render_documentEvents {header : List Event}
    (h : encoder.openingSpacing.afterAll header = encoder.openingSpacing)
    (features : List Feature) :
    Markup.render encoder.context.verbose (encoder.documentEvents header features) =
      Markup.render encoder.context.verbose encoder.opening ++ encoder.openingSpacing.text header ++
        encoder.openingSpacing.text (encoder.body features) := by
  rw [documentEvents, Markup.render, Markup.Spacing.text_append, Markup.Spacing.text_append,
    Markup.Spacing.afterAll_append, ← openingSpacing, h]
  rfl

/-- A document is the text of its events, with the header as it is put into its place. -/
theorem markup_document (features : List Feature) :
    (encoder.document features).markup =
      Markup.render encoder.context.verbose
        (encoder.documentEvents (encoder.splicedHeader (envelope features)) features) := by
  rw [encoder.render_documentEvents (encoder.afterAll_splicedHeader _), document, header_eq]

/-! ## Line feeds -/

/-- The texts in the header that the encoder was given: the name of the reference system, the
decimal point and the separators. -/
def headerTexts : List String :=
  encoder.featureType.srsName.toList ++
    [String.singleton encoder.context.decimal, encoder.context.coordinateSeparator,
      encoder.context.tupleSeparator]

/-- There are no line feeds in the header unless one was given; the bounds of nothing have none. -/
theorem feed_notMem_boundedBy_iff (envelope : Envelope Float) :
    (∀ text ∈ (encoder.boundedBy envelope).flatMap Event.texts, '\n' ∉ text.toList) ↔
      envelope.isEmpty ∨ ∀ text ∈ encoder.headerTexts, '\n' ∉ text.toList := by
  unfold boundedBy Envelope.isEmpty
  cases envelope.rect with
  | none => simp [Event.element, Event.textElement, Event.texts]
  | some rect =>
    -- The corners have no line feed of their own, only those of the point and the separators.
    have hcorners : ∀ points, (∀ text ∈ encoder.headerTexts, '\n' ∉ text.toList) →
        '\n' ∉ (encoder.context.formatCoordinates points).toList := by
      intro points hplain hfeed
      have hnumber : isNumberChar '\n' = false := by
        simp [isNumberChar]
      rcases RenderContext.isNumberChar_or_of_mem_formatCoordinates hfeed with h | h | h | h
      · rw [hnumber] at h
        cases h
      · exact hplain (String.singleton encoder.context.decimal) (by simp [headerTexts])
          (by simpa using h)
      · exact hplain encoder.context.coordinateSeparator (by simp [headerTexts]) h
      · exact hplain encoder.context.tupleSeparator (by simp [headerTexts]) h
    have htexts : ∀ points : List (Point Float), (Event.element "gml:boundedBy" []
        (Event.element "gml:Box" (srsAttributes encoder.featureType.srsName)
          (Event.textElement "gml:coordinates" encoder.context.coordinateAttributes
            (encoder.context.formatCoordinates points)))).flatMap Event.texts =
              encoder.headerTexts ++ [encoder.context.formatCoordinates points] := by
      intro points
      simp [Event.element, Event.textElement, Event.texts, headerTexts, srsAttributes,
        RenderContext.coordinateAttributes, Function.comp_def]
    rw [htexts, List.forall_mem_append, List.forall_mem_singleton]
    simpa using hcorners _

/-- The header is the same as if it had been written in place when the document is compact or there
are no line feeds in its texts, and only then. -/
theorem text_splicedHeader_eq_iff (envelope : Envelope Float) :
    encoder.openingSpacing.text (encoder.splicedHeader envelope) =
        encoder.openingSpacing.text (encoder.boundedBy envelope) ↔
      encoder.context.verbose = false ∨
        ∀ text ∈ (encoder.boundedBy envelope).flatMap Event.texts, '\n' ∉ text.toList := by
  unfold splicedHeader
  cases encoder.context.verbose with
  | false => simp
  | true =>
    rw [if_pos rfl, ← String.toList_inj, Markup.Spacing.toList_text, Markup.Spacing.toList_text,
      Markup.chars_mapTexts_eq_iff _ (by decide)]
    simp

/-- A document is the same as if its header had been written in place when the document is compact,
when the bounds are those of nothing, or when no line feed was given for the header, and in no other
case. -/
theorem markup_document_eq_iff (features : List Feature) :
    (encoder.document features).markup =
        Markup.render encoder.context.verbose
          (encoder.documentEvents (encoder.boundedBy (envelope features)) features) ↔
      encoder.context.verbose = false ∨ finitePoints features = [] ∨
        ∀ text ∈ encoder.headerTexts, '\n' ∉ text.toList := by
  rw [markup_document, encoder.render_documentEvents (encoder.afterAll_splicedHeader _),
    encoder.render_documentEvents (encoder.afterAll_boundedBy _), String.append_left_inj,
    String.append_right_inj, text_splicedHeader_eq_iff, feed_notMem_boundedBy_iff,
    (isTight_envelope features).isEmpty_iff]

/-- Writing a document in one pass, with a place reserved for its header, always succeeds and gives
the same diagnostics as writing it in two passes. The markup is the same as well, with one
exception: in an indented document with bounds, a line feed in the name of the reference system, in
the decimal point or in a separator makes a difference. -/
theorem encode_eq_encodeInPlace_iff (context : RenderContext) (featureType : FeatureType)
    (features : List Feature) :
    let encoder : Encoder := { context, featureType }
    ∃ document inPlace,
      (encoder.encode (.ofFeatures features)).result = .ok document ∧
      encoder.encodeInPlace features = .ok inPlace ∧
      document.diagnostics = inPlace.diagnostics ∧
      (document.markup = inPlace.markup ↔
        context.verbose = false ∨ finitePoints features = [] ∨
          ∀ text ∈ encoder.headerTexts, '\n' ∉ text.toList) := by
  intro encoder
  exact ⟨_, _, encoder.encode_ofFeatures rfl features, encoder.encodeInPlace_eq features, rfl,
    encoder.markup_document_eq_iff features⟩

/-- A point. -/
def single : Feature where
  id := "a"
  geometry := .point { x := 1.0, y := 2.0 }

/-- The two documents are not always the same: when a line feed stands between points, the header of
an indented document has blanks behind it. -/
theorem encode_ne_encodeInPlace_single : ∃ document inPlace,
    (encode { context := { verbose := true, tupleSeparator := "\n" }, featureType := {} }
      (.ofFeatures [single])).result = .ok document ∧
    encodeInPlace { context := { verbose := true, tupleSeparator := "\n" }, featureType := {} }
      [single] = .ok inPlace ∧
    document.markup ≠ inPlace.markup := by
  let encoder : Encoder :=
    { context := { verbose := true, tupleSeparator := "\n" }, featureType := {} }
  refine ⟨_, _, encoder.encode_ofFeatures rfl [single], encoder.encodeInPlace_eq [single], ?_⟩
  intro heq
  rcases (encoder.markup_document_eq_iff [single]).1 heq with h | h | h
  · cases h
  · have hpoint : finitePoints [single] ≠ [] := by decide +kernel
    exact hpoint h
  · exact h "\n" (by simp [encoder, headerTexts]) (by simp)

end Cartouche.Gml.Encoder
