import Cartouche.Feature.Source
import Cartouche.Markup.Geometry
import Cartouche.Text.Letter

/-!
# Tabular documents

All features of a source as one feature collection. `Gml.Encoder.member` is the markup of a feature
as events, and what is skipped of it. The bounding box stands in front of the features but is known
only behind them, so its place is reserved and filled at the end.
-/

namespace Cartouche.Gml

/-- The namespace of feature collections. -/
def wfsNamespace : String := "http://www.opengis.net/wfs"

/-- The namespace of geometries. -/
def gmlNamespace : String := "http://www.opengis.net/gml"

/-- The element around a document. -/
def collectionTag : String := "wfs:FeatureCollection"

/-- The element around a feature. -/
def memberTag : String := "gml:featureMember"

/-- The character may start the name of an attribute that becomes an element. -/
def isNameStart (c : Char) : Bool := Text.isLetter c || c == '_'

/-- The character may follow in the name of an attribute that becomes an element. -/
def isNamePart (c : Char) : Bool :=
  Text.isLetterOrNumber c || c == '_' || c == '-' || c == '.' || c == '\u00B7'

/-- The text can be the name of an element. -/
def isLocalName (name : String) : Bool :=
  match name.toList with
  | [] => false
  | first :: rest => isNameStart first && rest.all isNamePart

/-- How tabular documents are written. -/
structure Encoder where
  context : RenderContext
  featureType : FeatureType
  abort : Option AbortCheck := none

namespace Encoder

/-- How the geometries of the features are written. -/
def geometryEncoder (encoder : Encoder) : GeometryEncoder where
  context := encoder.context
  dialect := .gml
  srsName := encoder.featureType.srsName

/-- An attribute as an element; no value is no element, and a name that cannot be one is skipped. -/
def attributeElement (encoder : Encoder) (featureId name : String) (value : AttributeValue) :
    List Event × List Diagnostic :=
  if value.isNull then
    ([], [])
  else if isLocalName name then
    (Event.textElement (encoder.featureType.qualified name) [] value.display, [])
  else
    ([], [{ featureId, skipped := .attribute (.invalidName name) }])

/-- The geometry of a feature as a property of it; one that is not finite is skipped. -/
def geometryProperty (encoder : Encoder) (feature : Feature) : List Event × List Diagnostic :=
  match GeometryEncoder.validate feature.geometry with
  | .ok _ =>
    (Event.element (encoder.featureType.qualified encoder.featureType.geometryName) []
      (encoder.geometryEncoder.events feature.geometry), [])
  | .error error => ([], [{ featureId := feature.id, skipped := .geometry error }])

/-- A feature as a member of a collection, and what is skipped of it. -/
def member (encoder : Encoder) (feature : Feature) : List Event × List Diagnostic :=
  let attributes := feature.attributes.entries.map fun (name, value) =>
    encoder.attributeElement feature.id name value
  let geometry := encoder.geometryProperty feature
  let tag := encoder.featureType.qualified encoder.featureType.typeName
  (Event.element memberTag []
      (Event.element tag [("fid", feature.id)] (attributes.flatMap (·.1) ++ geometry.1)),
    attributes.flatMap (·.2) ++ geometry.2)

/-- The envelope widened to what is written of a feature. -/
def widen (envelope : Envelope Float) (feature : Feature) : Envelope Float :=
  match GeometryEncoder.validate feature.geometry with
  | .ok _ => envelope.expand feature.geometry
  | .error _ => envelope

/-- The bounding box of a document as events. -/
def boundedBy (encoder : Encoder) (envelope : Envelope Float) : List Event :=
  Event.element "gml:boundedBy" []
    (match envelope.rect with
    | some rect =>
      Event.element "gml:Box" (srsAttributes encoder.featureType.srsName)
        (Event.textElement "gml:coordinates" encoder.context.coordinateAttributes
          (encoder.context.formatCoordinates
            [{ x := rect.xMin, y := rect.yMin }, { x := rect.xMax, y := rect.yMax }]))
    | none => Event.textElement "gml:null" [] "unknown")

/-- The bounding box as a fragment by itself. -/
def envelopeMarkup (encoder : Encoder) (envelope : Envelope Float) : Except EncodeError String :=
  ((Writer.new encoder.context.verbose).writeAll (encoder.boundedBy envelope)).finish.mapError
    .write

/-- What a document begins with. -/
def opening (encoder : Encoder) : List Event :=
  [.declaration,
    .startTag collectionTag [
      ("xmlns:wfs", wfsNamespace),
      ("xmlns:gml", gmlNamespace),
      ("xmlns:" ++ encoder.featureType.abbreviation, encoder.featureType.namespaceUri)]]

/-- A document being written. -/
structure Progress where
  writer : Writer
  envelope : Envelope Float
  diagnostics : List Diagnostic

/-- The document with one more feature. -/
def add (encoder : Encoder) (progress : Progress) (feature : Feature) : Progress :=
  let (events, diagnostics) := encoder.member feature
  { writer := progress.writer.writeAll events
    envelope := widen progress.envelope feature
    diagnostics := progress.diagnostics ++ diagnostics }

/-- Ends a document and puts its bounding box at the reserved place. -/
def complete (encoder : Encoder) (reservation : Option Reservation) (progress : Progress) :
    Except EncodeError Document := do
  let writer := progress.writer.write (.endTag collectionTag)
  let writer ←
    match reservation with
    | some reservation =>
      pure (writer.splice reservation (← encoder.envelopeMarkup progress.envelope))
    | none => pure writer
  return { markup := ← writer.finish.mapError .write, diagnostics := progress.diagnostics }

/-- The document of all features of a source. -/
def encode (encoder : Encoder) (source : Source) : Run Document :=
  let (reservation, writer) :=
    ((Writer.new encoder.context.verbose).writeAll encoder.opening).reserve
  let start : Progress := { writer, envelope := .empty, diagnostics := [] }
  (source.harvest encoder.abort encoder.add start).andThen fun progress =>
    (encoder.complete reservation progress).mapError .encode

end Encoder

end Cartouche.Gml
