import Cartouche.Kml.Labeller
import Cartouche.Proofs.Style.Instruction

/-!
# What of a style has an effect

Some of what a style says is never looked at: the opacity that the color of a fill or of a stroke
has itself, the name of a rule and the name of a mark. `Style.effective` puts these parts aside, so
two styles differ in them only when they have the same effective style. Instructions do not depend
on them (`Symbolizer.instruction_effective`), nor does the choice of rules (`resolve_effective`),
nor do the labels by templates (`Labeller.isIndifferent_templates`).

The opacity that something is drawn with is a property of its own. `drawnOpacities` finds it from
the opacities in the symbolizers alone, and every part of the style that instructions come to has
the one of its sort (`PlacemarkStyle.map_a_part`).
-/

namespace Cartouche

/-! ## Parts without effect -/

/-- The color with full opacity. -/
def Color.solid (color : Color) : Color := { color with a := 255 }

/-- The fill with an opaque color. Its opacity is kept, because it is what the fill is drawn
with. -/
def Fill.effective (fill : Fill) : Fill := { fill with color := fill.color.solid }

/-- The stroke with an opaque color; opacity and width are kept. -/
def Stroke.effective (stroke : Stroke) : Stroke := { stroke with color := stroke.color.solid }

/-- A mark without its name. -/
def Graphic.effective : Graphic → Graphic
  | .externalIcon href => .externalIcon href
  | .mark _ => .mark ""

/-- The symbolizer without the name of its mark and with an effective fill. -/
def PointSymbolizer.effective (symbolizer : PointSymbolizer) : PointSymbolizer :=
  { symbolizer with
    graphic := symbolizer.graphic.effective
    fill := symbolizer.fill.map Fill.effective }

/-- The symbolizer with an effective stroke. -/
def LineSymbolizer.effective (symbolizer : LineSymbolizer) : LineSymbolizer where
  stroke := symbolizer.stroke.map Stroke.effective

/-- The symbolizer with an effective fill and an effective stroke. -/
def PolygonSymbolizer.effective (symbolizer : PolygonSymbolizer) : PolygonSymbolizer where
  fill := symbolizer.fill.map Fill.effective
  stroke := symbolizer.stroke.map Stroke.effective

/-- The symbolizer with an effective fill. Its template is kept, because labels are made of it. -/
def TextSymbolizer.effective (symbolizer : TextSymbolizer) : TextSymbolizer :=
  { symbolizer with fill := symbolizer.fill.map Fill.effective }

/-- The symbolizer without the opacities of its colors and without the name of its mark. -/
def Symbolizer.effective : Symbolizer → Symbolizer
  | .point symbolizer => .point symbolizer.effective
  | .line symbolizer => .line symbolizer.effective
  | .polygon symbolizer => .polygon symbolizer.effective
  | .text symbolizer => .text symbolizer.effective

/-- The rule without its name and with effective symbolizers. -/
def Rule.effective (rule : Rule) : Rule :=
  { rule with name := "", symbolizers := rule.symbolizers.map Symbolizer.effective }

/-- The style with effective rules. -/
def Style.effective (style : Style) : Style :=
  { style with rules := style.rules.map Rule.effective }

/-! ## Instructions -/

/-- An icon has the opacity of the symbolizer or of the fill, never that of the color. -/
theorem PointSymbolizer.toIconStyle_effective (symbolizer : PointSymbolizer) :
    symbolizer.effective.toIconStyle = symbolizer.toIconStyle := by
  obtain ⟨graphic, fill, opacity, size⟩ := symbolizer
  cases graphic <;> cases fill <;> rfl

/-- What a symbolizer draws does not depend on the parts without effect. -/
theorem Symbolizer.instruction_effective (symbolizer : Symbolizer) (feature : Feature) :
    symbolizer.effective.instruction feature = symbolizer.instruction feature := by
  cases symbolizer with
  | point symbolizer => exact congrArg Instruction.icon symbolizer.toIconStyle_effective
  | line symbolizer =>
    obtain ⟨stroke⟩ := symbolizer
    cases stroke <;> rfl
  | polygon symbolizer =>
    obtain ⟨fill, stroke⟩ := symbolizer
    cases fill <;> cases stroke <;> rfl
  | text symbolizer =>
    obtain ⟨label, fill⟩ := symbolizer
    cases fill <;> rfl

/-- The template of a label is no part without effect. -/
theorem Symbolizer.label?_effective (symbolizer : Symbolizer) :
    symbolizer.effective.label? = symbolizer.label? := by
  cases symbolizer <;> rfl

/-- The symbolizers of effective rules are the effective ones, in the same order. -/
theorem flatMap_symbolizers_effective (rules : List Rule) :
    (rules.map Rule.effective).flatMap Rule.symbolizers =
      (rules.flatMap Rule.symbolizers).map Symbolizer.effective := by
  simp [List.flatMap_map, List.map_flatMap, Rule.effective]

/-! ## The choice of rules -/

/-- What was found, with effective rules. -/
def Resolution.Progress.effective (found : Resolution.Progress) : Resolution.Progress where
  matched := found.matched.map Rule.effective
  elseRules := found.elseRules.map Rule.effective
  asked := found.asked.map Rule.effective

/-- Whether a rule is taken does not depend on the parts without effect. -/
theorem Resolution.Progress.visit_effective (feature : Feature) (scaleDenominator : Float)
    (found : Resolution.Progress) (rule : Rule) :
    visit feature scaleDenominator found.effective rule.effective =
      (visit feature scaleDenominator found rule).effective := by
  have helse : rule.effective.isElse = rule.isElse := rfl
  have hscale : rule.effective.inScale scaleDenominator = rule.inScale scaleDenominator := rfl
  have haccepts : rule.effective.accepts feature = rule.accepts feature := rfl
  have hasks : rule.effective.asksFilter feature = rule.asksFilter feature := rfl
  unfold visit
  rw [helse, hscale, haccepts, hasks]
  split
  · simp [effective]
  · split
    · split <;> split <;> simp [effective]
    · rfl

/-- Of the effective rules the same ones are taken, at the same places. -/
theorem resolve_effective (feature : Feature) (rules : List Rule) (scaleDenominator : Float) :
    (resolve feature (rules.map Rule.effective) scaleDenominator).rules =
      (resolve feature rules scaleDenominator).rules.map Rule.effective := by
  have hfound : (rules.map Rule.effective).foldl
      (Resolution.Progress.visit feature scaleDenominator) {} =
        (rules.foldl (Resolution.Progress.visit feature scaleDenominator) {}).effective := by
    rw [List.foldl_map]
    show rules.foldl _ (Resolution.Progress.effective {}) = _
    exact List.foldl_hom Resolution.Progress.effective
      (Resolution.Progress.visit_effective feature scaleDenominator)
  simp only [resolve, hfound, Resolution.Progress.effective, List.isEmpty_map]
  split <;> rfl

/-! ## Labels -/

/-- The names by a labeller do not depend on the parts of a style without effect. -/
def Labeller.IsIndifferent (labeller : Labeller) : Prop :=
  ∀ feature (rules rules' : List Rule), rules.map Rule.effective = rules'.map Rule.effective →
    labeller.name feature rules = labeller.name feature rules'

/-- A template is a part with an effect. -/
theorem Labeller.templateName_effective (feature : Feature) (rules : List Rule) :
    templateName feature (rules.map Rule.effective) = templateName feature rules := by
  have hlabel : (Symbolizer.label? ∘ Symbolizer.effective) = Symbolizer.label? :=
    funext Symbolizer.label?_effective
  rw [templateName, flatMap_symbolizers_effective, List.findSome?_map, hlabel]
  rfl

/-- Labels by templates do not depend on the parts without effect: of rules they read the templates
only. -/
theorem Labeller.isIndifferent_templates : templates.IsIndifferent := by
  intro feature rules rules' h
  show templateName feature rules = templateName feature rules'
  rw [← templateName_effective, h, templateName_effective]

/-- Neither do labels without descriptions, which are made from the same templates. -/
theorem Labeller.isIndifferent_namesOnly : namesOnly.IsIndifferent :=
  isIndifferent_templates

/-! ## Opacities -/

namespace Symbolizer

/-- The opacity of the icon that a symbolizer draws: its own, or else that of its fill. -/
def iconOpacity? : Symbolizer → Option Float
  | .point symbolizer =>
    some ((symbolizer.opacity.or (symbolizer.fill.bind Fill.opacity)).getD 1.0)
  | _ => none

/-- The opacity of the line that a symbolizer draws; areas are outlined if they have a stroke. -/
def lineOpacity? : Symbolizer → Option Float
  | .line symbolizer => some ((symbolizer.stroke.bind Stroke.opacity).getD 1.0)
  | .polygon symbolizer => symbolizer.stroke.map fun stroke => stroke.opacity.getD 1.0
  | _ => none

/-- The opacity of the area that a symbolizer fills. -/
def areaOpacity? : Symbolizer → Option Float
  | .polygon symbolizer => some ((symbolizer.fill.bind Fill.opacity).getD 1.0)
  | _ => none

/-- The opacity of the label that a symbolizer writes. -/
def labelOpacity? : Symbolizer → Option Float
  | .text symbolizer => some ((symbolizer.fill.bind Fill.opacity).getD 1.0)
  | _ => none

end Symbolizer

/-- The opacities with which an icon, a label, a line and an area are drawn by symbolizers, as far
as there are any: those that the last symbolizers of their sort say. An icon is always drawn. -/
def drawnOpacities (symbolizers : List Symbolizer) : List Float :=
  let last? (opacity? : Symbolizer → Option Float) := symbolizers.reverse.findSome? opacity?
  (last? Symbolizer.iconOpacity?).getD 1.0 :: (last? Symbolizer.labelOpacity?).toList ++
    (last? Symbolizer.lineOpacity?).toList ++ (last? Symbolizer.areaOpacity?).toList

/-! ## The opacities of the style -/

namespace Color

/-- The last channel is that of the given opacity; the one that the color had is gone. -/
theorem a_withOpacity (color : Color) (opacity : Float) :
    (color.withOpacity opacity).a = opacityChannel opacity := by
  rw [withOpacity, ofOpacity]

/-- What has no opacity of its own is drawn fully. -/
theorem opacityChannel_one : opacityChannel 1.0 = 255 := by
  decide +kernel

/-- Leaving an opacity out is to ask for a full one. -/
theorem opacityChannel_getD (opacity? : Option Float) :
    opacityChannel (opacity?.getD 1.0) = (opacity?.map opacityChannel).getD 255 := by
  cases opacity? with
  | none => exact opacityChannel_one
  | some opacity => rfl

end Color

namespace Symbolizer

variable (symbolizer : Symbolizer) (feature : Feature)

/-- The opacity of an icon comes from the opacities in the symbolizer; other symbolizers draw no
icon. -/
theorem icon_a_instruction :
    (symbolizer.instruction feature).icon?.map (·.color.a) =
      symbolizer.iconOpacity?.map Color.opacityChannel := by
  cases symbolizer with
  | point symbolizer =>
    obtain ⟨graphic, fill, opacity, size⟩ := symbolizer
    cases graphic <;> cases fill <;> cases opacity <;>
      simp [instruction, Instruction.icon?, PointSymbolizer.toIconStyle, iconOpacity?,
        Color.a_withOpacity, Fill.effectiveColor, Color.opacityChannel_one, Color.white,
        defaultFill, Color.mediumGray]
  | line symbolizer => rfl
  | polygon symbolizer => rfl
  | text symbolizer => rfl

/-- The opacity of a label comes from that of the fill of its symbolizer. -/
theorem label_a_instruction :
    (symbolizer.instruction feature).label?.map (·.color.a) =
      symbolizer.labelOpacity?.map Color.opacityChannel := by
  cases symbolizer with
  | point symbolizer => rfl
  | line symbolizer => rfl
  | polygon symbolizer => rfl
  | text symbolizer =>
    obtain ⟨label, fill⟩ := symbolizer
    cases fill <;>
      simp [instruction, Instruction.label?, labelOpacity?, Fill.effectiveColor,
        Color.a_withOpacity, Color.opacityChannel_one, Color.black]

/-- The opacity of a line comes from that of the stroke, of a line or around an area. -/
theorem line_a_instruction :
    (symbolizer.instruction feature).line?.map (·.color.a) =
      symbolizer.lineOpacity?.map Color.opacityChannel := by
  cases symbolizer with
  | point symbolizer => rfl
  | line symbolizer =>
    obtain ⟨stroke⟩ := symbolizer
    cases stroke <;> rfl
  | polygon symbolizer =>
    obtain ⟨fill, stroke⟩ := symbolizer
    cases stroke <;> rfl
  | text symbolizer => rfl

/-- The opacity of an area comes from that of its fill. -/
theorem poly_a_instruction :
    (symbolizer.instruction feature).poly?.map (·.color.a) =
      symbolizer.areaOpacity?.map Color.opacityChannel := by
  cases symbolizer with
  | point symbolizer => rfl
  | line symbolizer => rfl
  | polygon symbolizer =>
    obtain ⟨fill, stroke⟩ := symbolizer
    cases fill <;> rfl
  | text symbolizer => rfl

end Symbolizer

namespace PlacemarkStyle

/-- The colors of the icon, the label, the line and the area, as far as there are any. -/
def colors (style : PlacemarkStyle) : List Color :=
  (style.icon.map IconStyle.color).toList ++ (style.label.map LabelStyle.color).toList ++
    (style.line.map LineStyle.color).toList ++ (style.poly.map PolyStyle.color).toList

/-- The opacities in a style are those of its parts, in the order of the colors. -/
theorem map_a_colors (style : PlacemarkStyle) :
    style.colors.map Color.a =
      (style.icon.map (·.color.a)).toList ++ (style.label.map (·.color.a)).toList ++
        (style.line.map (·.color.a)).toList ++ (style.poly.map (·.color.a)).toList := by
  simp [colors, ← Option.toList_map, Function.comp_def]

/-- A part that the last instruction sets has the opacity that the last symbolizer says. -/
theorem map_a_part {α : Type} {part : PlacemarkStyle → Option α} {set? : Instruction → Option α}
    {a : α → UInt8} {opacity? : Symbolizer → Option Float}
    (hpart : ∀ instructions, part (ofInstructions instructions) =
      instructions.reverse.findSome? set?)
    (feature : Feature)
    (hset : ∀ symbolizer : Symbolizer, (set? (symbolizer.instruction feature)).map a =
      (opacity? symbolizer).map Color.opacityChannel) (symbolizers : List Symbolizer) :
    (part (ofInstructions (symbolizers.map (·.instruction feature)))).map a =
      (symbolizers.reverse.findSome? opacity?).map Color.opacityChannel := by
  rw [hpart, ← List.map_reverse, List.findSome?_map, List.map_findSome?, List.map_findSome?]
  exact congrArg (List.findSome? · symbolizers.reverse) (funext hset)

end PlacemarkStyle

end Cartouche
