import Cartouche.Gml.Encoder
import Cartouche.Proofs.Feature.Harvest
import Cartouche.Proofs.Markup.Geometry

/-!
# Tabular documents as a whole

The document of features from memory, in closed form (`encode_ofFeatures`): the opening, the header
with the bounding box, and the members in the order of the features, each as it was written when its
feature was read. The envelope in the header is that of all features (`Encoder.envelope`).
-/

namespace Cartouche.Gml.Encoder

variable (encoder : Encoder)

/-- The envelope of features. -/
def envelope (features : List Feature) : Envelope Float := features.foldl widen .empty

/-- The header of a document as it is put into it. -/
def header (envelope : Envelope Float) : String :=
  (Writer.new encoder.context.verbose).inserted 1
    (Markup.render encoder.context.verbose (encoder.boundedBy envelope))

/-- The events behind the header. -/
def body (features : List Feature) : List Event :=
  (features.flatMap fun feature => (encoder.member feature).1) ++ [.endTag collectionTag]

/-- What the line breaks behind the opening depend on. -/
def openingSpacing : Markup.Spacing :=
  ({ pretty := encoder.context.verbose } : Markup.Spacing).afterAll encoder.opening

/-- The document of features. -/
def document (features : List Feature) : Document where
  markup := Markup.render encoder.context.verbose encoder.opening ++
    encoder.header (envelope features) ++ encoder.openingSpacing.text (encoder.body features)
  diagnostics := features.flatMap fun feature => (encoder.member feature).2

/-- Adding features writes their members one after the other. -/
theorem foldl_add (progress : Progress) (features : List Feature) :
    features.foldl encoder.add progress =
      { writer := progress.writer.writeAll
          (features.flatMap fun feature => (encoder.member feature).1)
        envelope := features.foldl widen progress.envelope
        diagnostics :=
          progress.diagnostics ++ features.flatMap fun feature => (encoder.member feature).2 } := by
  induction features generalizing progress with
  | nil => simp
  | cons feature rest ih =>
    rw [List.foldl_cons, ih]
    simp [add, Writer.writeAll_append]

/-- The header is written by a writer of its own, which succeeds and begins with no line break. -/
theorem envelopeMarkup_eq (envelope : Envelope Float) :
    encoder.envelopeMarkup envelope =
      .ok (Markup.render encoder.context.verbose (encoder.boundedBy envelope)) := by
  rw [envelopeMarkup, Writer.finish_writeAll]
  rfl

/-- The document with its opening and the place for its header. -/
def opened : Writer := ((Writer.new encoder.context.verbose).writeAll encoder.opening).reserve.2

/-- A document begins with the text of its opening. The place for the header takes no room. -/
theorem bytes_opened :
    encoder.opened.bytes = (Markup.render encoder.context.verbose encoder.opening).toByteArray := by
  have hnew : (Writer.new encoder.context.verbose).bytes = "".toByteArray := rfl
  show ((Writer.new encoder.context.verbose).writeAll encoder.opening).bytes = _
  rw [Writer.bytes_writeAll hnew, String.empty_append]
  rfl

/-- What follows the place is laid out as behind the opening, since a place is not seen in the
layout. -/
theorem spacing_opened : encoder.opened.spacing = encoder.openingSpacing := by
  show ((Writer.new encoder.context.verbose).writeAll encoder.opening).spacing = _
  rw [Writer.spacing_writeAll, Writer.spacing_new]
  rfl

/-- The layout of a document is the one that the context asks for. -/
theorem pretty_opened : encoder.opened.pretty = encoder.context.verbose := rfl

/-- The reserved place is behind the opening, inside the outermost element. -/
theorem reserve_opening : ((Writer.new encoder.context.verbose).writeAll encoder.opening).reserve =
    (some {
        offset := (Markup.render encoder.context.verbose encoder.opening).utf8ByteSize
        depth := 1 },
      encoder.opened) := by
  rw [← String.size_toByteArray, ← bytes_opened]
  rfl

/-- A document without its header is completed with the header at the reserved place. -/
theorem complete_eq {writer : Writer} (hpretty : writer.pretty = encoder.context.verbose)
    {before behind : String}
    (hbytes : (writer.write (.endTag collectionTag)).bytes = (before ++ behind).toByteArray)
    (envelope : Envelope Float) (diagnostics : List Diagnostic) :
    encoder.complete (some { offset := before.utf8ByteSize, depth := 1 })
        { writer, envelope, diagnostics } =
      .ok { markup := before ++ encoder.header envelope ++ behind, diagnostics } := by
  have hinserted : ∀ fragment, (writer.write (.endTag collectionTag)).inserted 1 fragment =
      (Writer.new encoder.context.verbose).inserted 1 fragment := by
    intro fragment
    rw [Writer.inserted, Writer.inserted, ← hpretty]
    rfl
  have hoffset : ({ offset := before.utf8ByteSize, depth := 1 } : Reservation).offset =
      before.utf8ByteSize := rfl
  have hfinish := fun fragment =>
    Writer.finish_of_bytes (Writer.bytes_splice hbytes hoffset fragment)
  simp only [complete, envelopeMarkup_eq, bind, Except.bind, pure, Except.pure, hfinish, hinserted]
  rfl

/-- What features are folded to is completed to their document. -/
theorem complete_foldl_add (features : List Feature) :
    encoder.complete
        (some {
          offset := (Markup.render encoder.context.verbose encoder.opening).utf8ByteSize
          depth := 1 })
        (features.foldl encoder.add
          { writer := encoder.opened, envelope := .empty, diagnostics := [] }) =
      .ok (encoder.document features) := by
  have hbytes : (encoder.opened.writeAll (encoder.body features)).bytes =
      (Markup.render encoder.context.verbose encoder.opening ++
        encoder.openingSpacing.text (encoder.body features)).toByteArray := by
    rw [Writer.bytes_writeAll encoder.bytes_opened, spacing_opened]
  rw [body, Writer.writeAll_append] at hbytes
  rw [foldl_add, List.nil_append, encoder.complete_eq
    ((Writer.pretty_writeAll _ _).trans encoder.pretty_opened) hbytes]
  rfl

/-- Features from memory are always encoded. -/
theorem encode_ofFeatures (habort : encoder.abort = none) (features : List Feature) :
    (encoder.encode (.ofFeatures features)).result = .ok (encoder.document features) := by
  simp only [encode, reserve_opening, habort, Run.andThen]
  rw [Source.harvest_ofFeatures]
  simp only [complete_foldl_add]
  rfl

/-- A document that was encoded is that of the features of the source. -/
theorem eq_of_encode {source : Source} {document : Document}
    (h : (encoder.encode source).result = .ok document) :
    document = encoder.document source.features := by
  simp only [encode, reserve_opening] at h
  cases hrun : (source.harvest encoder.abort encoder.add
      { writer := encoder.opened, envelope := .empty, diagnostics := [] }).result with
  | error error =>
    simp only [Run.andThen, hrun] at h
    cases h
  | ok progress =>
    obtain rfl := Source.eq_of_harvest hrun
    simp only [Run.andThen, hrun, complete_foldl_add] at h
    cases h
    rfl

end Cartouche.Gml.Encoder
