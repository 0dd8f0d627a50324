import Cartouche.Proofs.Feature.Session
import Cartouche.Proofs.Gml.Document
import Cartouche.Proofs.Kml.Document

/-!
# Documents and the sources of their features

Tabular documents and placemark documents are made in sessions of one kind: a rendering keeps to the
protocol of sources whatever the source delivers and whatever is answered to the question whether to
abort (`keepsProtocol_encode`).
-/

namespace Cartouche

/-- A tabular document is a harvest that is completed. -/
theorem Gml.Encoder.keepsProtocol (encoder : Encoder) :
    KeepsProtocol (fun abort source => Encoder.encode { encoder with abort } source)
      encoder.document := by
  have hencode : ∀ abort source, Encoder.encode { encoder with abort } source =
      (source.harvest abort encoder.add
          { writer := encoder.opened, envelope := .empty, diagnostics := [] }).andThen
        fun progress =>
          (encoder.complete
            (some {
              offset := (Markup.render encoder.context.verbose encoder.opening).utf8ByteSize
              depth := 1 }) progress).mapError .encode := by
    intro abort source
    have hreserve := reserve_opening { encoder with abort }
    simp only [encode, hreserve]
    rfl
  simp only [hencode]
  refine keepsProtocol_harvest fun features => ?_
  rw [complete_foldl_add]
  rfl

/-- A placemark document is a harvest that is completed. -/
theorem Kml.Encoder.keepsProtocol (encoder : Encoder) :
    KeepsProtocol (fun abort source => Encoder.encode { encoder with abort } source)
      encoder.document := by
  have hencode : ∀ abort source, Encoder.encode { encoder with abort } source =
      (source.harvest abort encoder.add
          { writer := (Writer.new encoder.context.verbose).writeAll encoder.opening
            diagnostics := [] }).andThen
        fun progress => do
          let writer := progress.writer.writeAll closing
          return {
            markup := ← writer.finish.mapError (.encode ∘ .write)
            diagnostics := progress.diagnostics } :=
    fun _ _ => rfl
  simp only [hencode]
  refine keepsProtocol_harvest fun features => ?_
  simp only [finish_foldl_add, bind, Except.bind, pure, Except.pure]
  rw [foldl_add]
  rfl

/-- Both kinds of documents are made by the protocol of sources. -/
theorem keepsProtocol_encode (gml : Gml.Encoder) (kml : Kml.Encoder) :
    KeepsProtocol (fun abort source => Gml.Encoder.encode { gml with abort } source)
        gml.document ∧
      KeepsProtocol (fun abort source => Kml.Encoder.encode { kml with abort } source)
        kml.document :=
  ⟨gml.keepsProtocol, kml.keepsProtocol⟩

end Cartouche
