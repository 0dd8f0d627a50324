import Cartouche.Diagnostic
import Cartouche.Feature.Basic
import Cartouche.Style.Symbolizer

/-!
# Drawing instructions

`Symbolizer.instruction` settles everything a symbolizer leaves open and gives a drawing
instruction. A placemark has room for one style of each sort, so `PlacemarkStyle.ofInstructions`
keeps the last instruction that sets each of them.
-/

namespace Cartouche

/-- The picture of points without a picture of their own. -/
def defaultIconHref : String := "http://maps.google.com/mapfiles/kml/pal4/icon57.png"

/-- The picture that marks the middle of lines and areas. -/
def centroidIconHref : String := "http://maps.google.com/mapfiles/kml/pal4/icon25.png"

/-- The size at which a picture is not scaled. -/
def defaultIconSize : Float := 16.0

/-- The width of lines that leave it open. -/
def defaultStrokeWidth : Float := 1.0

/-- The fill of areas and marks that leave it open. -/
def defaultFill : Fill := { color := .mediumGray }

/-- The stroke of lines that leave it open. -/
def defaultStroke : Stroke := { color := .black, width := some defaultStrokeWidth }

/-- A line as it is drawn. -/
structure LineStyle where
  color : Color
  width : Float
deriving BEq, Repr

/-- An icon as it is drawn. -/
structure IconStyle where
  href : String
  color : Color
  scale : Float
deriving BEq, Repr

/-- What a symbolizer comes to for one feature. -/
inductive Instruction where
  | icon (style : IconStyle)
  | line (style : LineStyle)
  | area (fill : Color) (outline : Option LineStyle)
  | label (text : Option String) (color : Color)
deriving BEq, Repr

/-- The line that a stroke draws. -/
def Stroke.toLineStyle (stroke : Stroke) : LineStyle where
  color := stroke.effectiveColor
  width := stroke.width.getD defaultStrokeWidth

/-- The text of a label template for a feature. -/
def renderLabel (template : String) (feature : Feature) : Except LabelError String :=
  (Template.render (fun name => (feature.attribute? name).map AttributeValue.display)
    template).mapError .template

/-- The icon of a point symbolizer. Pictures are white and marks gray unless there is a fill; the
opacity of the symbolizer goes before that of the fill. -/
def PointSymbolizer.toIconStyle (symbolizer : PointSymbolizer) : IconStyle :=
  let (href, ownColor) :=
    match symbolizer.graphic with
    | .externalIcon href => (href, Color.white)
    | .mark _ => (defaultIconHref, defaultFill.color)
  let base := (symbolizer.fill.map Fill.effectiveColor).getD ownColor
  { href
    color := (symbolizer.opacity.map base.withOpacity).getD base
    scale := symbolizer.size.getD defaultIconSize / defaultIconSize }

/-- What a symbolizer draws for a feature. A label whose template fails has no text. -/
def Symbolizer.instruction (symbolizer : Symbolizer) (feature : Feature) : Instruction :=
  match symbolizer with
  | .point symbolizer => .icon symbolizer.toIconStyle
  | .line symbolizer => .line (symbolizer.stroke.getD defaultStroke).toLineStyle
  | .polygon symbolizer =>
    .area (symbolizer.fill.getD defaultFill).effectiveColor
      (symbolizer.stroke.map Stroke.toLineStyle)
  | .text symbolizer =>
    .label (renderLabel symbolizer.label feature).toOption
      ((symbolizer.fill.map Fill.effectiveColor).getD .black)

/-- The filling of an area as it is drawn. -/
structure PolyStyle where
  color : Color
  outline : Bool
deriving DecidableEq, Repr

/-- A label as it is drawn. -/
structure LabelStyle where
  color : Color
deriving DecidableEq, Repr

/-- The styles of a placemark, at most one of each sort. -/
structure PlacemarkStyle where
  icon : Option IconStyle := none
  line : Option LineStyle := none
  poly : Option PolyStyle := none
  label : Option LabelStyle := none
deriving BEq, Repr

namespace PlacemarkStyle

/-- The style with an instruction carried out. An area with an outline sets the line style too. -/
def follow (style : PlacemarkStyle) : Instruction → PlacemarkStyle
  | .icon icon => { style with icon := some icon }
  | .line line => { style with line := some line }
  | .area fill outline =>
    { style with
      poly := some { color := fill, outline := outline.isSome }
      line := outline.or style.line }
  | .label _ color => { style with label := some { color } }

/-- The style after instructions, later ones overriding earlier ones. -/
def ofInstructions (instructions : List Instruction) : PlacemarkStyle :=
  instructions.foldl follow {}

/-- No style is set. -/
def isEmpty (style : PlacemarkStyle) : Bool :=
  style.icon.isNone && style.line.isNone && style.poly.isNone && style.label.isNone

end PlacemarkStyle

/-- The icon of points that no instruction gives one. -/
def IconStyle.defaultPoint : IconStyle := ⟨defaultIconHref, .white, 1.0⟩

/-- The icon at the middle of a line or an area that no instruction gives one. -/
def IconStyle.centroidMarker : IconStyle := ⟨centroidIconHref, .white, 0.4⟩

end Cartouche
