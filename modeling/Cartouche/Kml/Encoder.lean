import Cartouche.Feature.Source
import Cartouche.Kml.Labeller
import Cartouche.Markup.Geometry
import Cartouche.Plane.Centroid

/-!
# Placemark documents

Every feature of a source as a placemark of its own, with the style its rules give it, a view at its
center and its geometry. Geometries other than a point are shown together with a marker at the
center. `Kml.Encoder.placemark` is the markup of a feature as events. A center that is not finite,
which large finite coordinates may have, breaks a placemark off; what was written of it stays.
-/

namespace Cartouche.Kml

/-- The namespace of placemark documents. -/
def kmlNamespace : String := "http://www.opengis.net/kml/2.2"

/-- How placemarks are written. -/
structure Encoder where
  context : RenderContext
  style : Style := {}
  labeller : Labeller := .templates
  abort : Option AbortCheck := none

/-- What is written of a feature, what is skipped of it, and why it breaks off, if it does. -/
structure Placemark where
  events : List Event := []
  diagnostics : List Diagnostic := []
  failure : Option EncodeError := none

namespace Encoder

/-- How the geometries of the features are written. -/
def geometryEncoder (encoder : Encoder) : GeometryEncoder where
  context := encoder.context
  dialect := .kml

/-- The icon of features whose rules give them none. -/
def defaultIcon (g : Geometry Float) : IconStyle :=
  if g.isPuntal then .defaultPoint else .centroidMarker

/-- The rules that draw a feature. -/
def rules (encoder : Encoder) (feature : Feature) : List Rule :=
  (resolve feature encoder.style.rules encoder.context.scaleDenominator).rules

/-- The style that rules give a feature; it always has an icon. -/
def placemarkStyle (rules : List Rule) (feature : Feature) : PlacemarkStyle :=
  let instructions := (rules.flatMap Rule.symbolizers).map (·.instruction feature)
  let style := PlacemarkStyle.ofInstructions instructions
  { style with icon := style.icon.or (some (defaultIcon feature.geometry)) }

/-- An element that holds a text. -/
def textElement (name content : String) : List Event := Event.textElement name [] content

/-- An element that holds a text, if there is a text. -/
def optionalElement (name : String) (content : Option String) : List Event :=
  content.toList.flatMap (textElement name)

/-- The view at a point. -/
def lookAt (encoder : Encoder) (center : Point Float) : List Event :=
  Event.element "LookAt" []
    (textElement "longitude" (encoder.context.formatNumber center.x) ++
      textElement "latitude" (encoder.context.formatNumber center.y))

/-- The style of an icon. -/
def iconStyle (encoder : Encoder) (icon : IconStyle) : List Event :=
  Event.element "IconStyle" []
    (textElement "color" icon.color.toKml ++
      textElement "scale" (encoder.context.formatNumber icon.scale) ++
      Event.element "Icon" [] (textElement "href" icon.href))

/-- The style of a label. -/
def labelStyle (label : LabelStyle) : List Event :=
  Event.element "LabelStyle" [] (textElement "color" label.color.toKml)

/-- The style of a line. -/
def lineStyle (encoder : Encoder) (line : LineStyle) : List Event :=
  Event.element "LineStyle" []
    (textElement "color" line.color.toKml ++
      textElement "width" (encoder.context.formatNumber line.width))

/-- The style of an area. -/
def polyStyle (poly : PolyStyle) : List Event :=
  Event.element "PolyStyle" []
    (textElement "color" poly.color.toKml ++
      textElement "outline" (if poly.outline then "1" else "0"))

/-- The styles of a placemark, icon, label, line and area in this order. -/
def styleElement (encoder : Encoder) (style : PlacemarkStyle) : List Event :=
  Event.element "Style" []
    (style.icon.toList.flatMap encoder.iconStyle ++ style.label.toList.flatMap labelStyle ++
      style.line.toList.flatMap encoder.lineStyle ++ style.poly.toList.flatMap polyStyle)

/-- The geometry of a placemark: a point by itself, all else behind a marker at the center. A center
that cannot be written leaves the element around both open. -/
def shape (encoder : Encoder) (center : Option (Point Float)) (g : Geometry Float) :
    List Event × Option EncodeError :=
  match g with
  | .point _ => (encoder.geometryEncoder.events g, none)
  | _ =>
    let markers := center.toList.map Geometry.point
    let tag := encoder.geometryEncoder.dialect.collection
    if markers.all Geometry.isFinite then
      (Event.element tag []
        (markers.flatMap encoder.geometryEncoder.events ++ encoder.geometryEncoder.events g), none)
    else
      ([.startTag tag []], some .nonFiniteCoordinate)

/-- A label, and a diagnostic in its place when it fails. -/
def settleLabel (featureId : String) (skipped : LabelError → Skipped)
    (label : Except LabelError (Option String)) : Option String × List Diagnostic :=
  match label with
  | .ok text => (text, [])
  | .error error => (none, [{ featureId, skipped := skipped error }])

/-- A feature as a placemark. Nothing is written of one whose geometry is not finite. -/
def placemark (encoder : Encoder) (feature : Feature) : Placemark :=
  match GeometryEncoder.validate feature.geometry with
  | .error error => { failure := some error }
  | .ok _ =>
    let rules := encoder.rules feature
    let (name, nameTrouble) :=
      settleLabel feature.id .name (encoder.labeller.name feature rules)
    let (description, descriptionTrouble) :=
      settleLabel feature.id .description (encoder.labeller.description feature)
    let center := feature.geometry.centroid?
    let (shape, failure) := encoder.shape center feature.geometry
    { events :=
        .startTag "Placemark" [("id", feature.id)] ::
          optionalElement "name" name ++
          optionalElement "description" description ++
          center.toList.flatMap encoder.lookAt ++
          encoder.styleElement (placemarkStyle rules feature) ++
          shape ++
          (if failure.isNone then [.endTag "Placemark"] else [])
      diagnostics := nameTrouble ++ descriptionTrouble
      failure }

/-- A placemark by itself. -/
def encodeFeature (encoder : Encoder) (feature : Feature) : Except RenderError Document := do
  let placemark := encoder.placemark feature
  if let some error := placemark.failure then throw (.encode error)
  let writer := (Writer.new encoder.context.verbose).writeAll placemark.events
  return {
    markup := ← writer.finish.mapError (.encode ∘ .write)
    diagnostics := placemark.diagnostics }

/-- What a document begins with; a style without name gives it none. -/
def opening (encoder : Encoder) : List Event :=
  [.declaration, .startTag "kml" [("xmlns", kmlNamespace)], .startTag "Document" []] ++
    (if encoder.style.name.isEmpty then [] else textElement "name" encoder.style.name)

/-- What a document ends with. -/
def closing : List Event := [.endTag "Document", .endTag "kml"]

/-- A document being written. -/
structure Progress where
  writer : Writer
  diagnostics : List Diagnostic

/-- The document with one more feature. One that breaks off is reported as a geometry that was
skipped. -/
def add (encoder : Encoder) (progress : Progress) (feature : Feature) : Progress :=
  let placemark := encoder.placemark feature
  let trouble := placemark.failure.toList.map fun error =>
    { featureId := feature.id, skipped := .geometry error }
  { writer := progress.writer.writeAll placemark.events
    diagnostics := progress.diagnostics ++ placemark.diagnostics ++ trouble }

/-- The document of all features of a source. -/
def encode (encoder : Encoder) (source : Source) : Run Document :=
  let start : Progress :=
    { writer := (Writer.new encoder.context.verbose).writeAll encoder.opening, diagnostics := [] }
  (source.harvest encoder.abort encoder.add start).andThen fun progress => do
    let writer := progress.writer.writeAll closing
    return {
      markup := ← writer.finish.mapError (.encode ∘ .write)
      diagnostics := progress.diagnostics }

end Encoder

end Cartouche.Kml
