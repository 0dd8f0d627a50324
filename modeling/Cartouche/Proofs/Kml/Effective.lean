import Cartouche.Proofs.Kml.Document
import Cartouche.Proofs.Kml.Parts
import Cartouche.Proofs.Style.Effective

/-!
# What of a style can be seen in a document

The parts of a style without effect cannot be seen: styles with the same effective parts give the
same placemarks (`placemark_withStyle`) and so the same documents. The opacity of a color in a
document comes from the opacities in the symbolizers that draw the feature, in the order of the
parts of its style (`map_a_colors_placemarkStyle`); other colors than those of styles are not
written (`textsBehind_placemark`).
-/

namespace Cartouche.Kml.Encoder

open Markup (Tree textsBehind)

variable (encoder : Encoder)

/-- The encoder with another style. -/
def withStyle (style : Style) : Encoder := { encoder with style }

/-! ## Styles with the same effective parts -/

/-- Effective rules come to the same style of a placemark. -/
theorem placemarkStyle_effective (rules : List Rule) (feature : Feature) :
    placemarkStyle (rules.map Rule.effective) feature = placemarkStyle rules feature := by
  have hinstruction : (fun symbolizer : Symbolizer => symbolizer.effective.instruction feature) =
      fun symbolizer => symbolizer.instruction feature :=
    funext fun symbolizer => symbolizer.instruction_effective feature
  unfold placemarkStyle
  rw [flatMap_symbolizers_effective, List.map_map]
  simp only [Function.comp_def, hinstruction]

section

variable {encoder} {style : Style} (h : style.effective = encoder.style.effective)

include h

/-- The rules that draw a feature have the same effective parts. -/
theorem map_effective_rules (feature : Feature) :
    ((encoder.withStyle style).rules feature).map Rule.effective =
      (encoder.rules feature).map Rule.effective := by
  have hrules : style.rules.map Rule.effective = encoder.style.rules.map Rule.effective :=
    congrArg Style.rules h
  rw [rules, rules, ← resolve_effective, ← resolve_effective]
  show (resolve feature (style.rules.map Rule.effective) _).rules = _
  rw [hrules]
  rfl

/-- With an indifferent labeller a feature has the same placemark under every style with the same
effective parts. -/
theorem placemark_withStyle (hlabeller : encoder.labeller.IsIndifferent) (feature : Feature) :
    (encoder.withStyle style).placemark feature = encoder.placemark feature := by
  by_cases hfin : feature.geometry.isFinite
  · -- The rules themselves may differ. The labeller and the instructions agree on them, and
    -- nothing else of a placemark looks at rules.
    have hrules := map_effective_rules h feature
    have hname : (encoder.withStyle style).nameOf feature = encoder.nameOf feature :=
      congrArg (settleLabel feature.id .name) (hlabeller feature _ _ hrules)
    have hstyle : placemarkStyle ((encoder.withStyle style).rules feature) feature =
        placemarkStyle (encoder.rules feature) feature := by
      rw [← placemarkStyle_effective, hrules, placemarkStyle_effective]
    have hfront : (encoder.withStyle style).front feature = encoder.front feature := by
      unfold front
      rw [hname, hstyle]
      rfl
    rw [placemark_of_isFinite _ hfin, placemark_of_isFinite _ hfin, hfront, hname]
    rfl
  · rw [placemark_of_not_isFinite _ hfin, placemark_of_not_isFinite _ hfin]

/-- So has a whole document, diagnostics and calls of the source included. -/
theorem encode_withStyle (hlabeller : encoder.labeller.IsIndifferent) (source : Source) :
    (encoder.withStyle style).encode source = encoder.encode source := by
  have hadd : (encoder.withStyle style).add = encoder.add := by
    funext progress feature
    simp only [add, placemark_withStyle h hlabeller]
  have hname : style.name = encoder.style.name :=
    show style.effective.name = encoder.style.effective.name by rw [h]
  have hopening : (encoder.withStyle style).opening = encoder.opening := by
    simp only [opening, withStyle, hname]
  unfold encode
  rw [hadd, hopening]
  rfl

end

/-! ## Colors -/

/-- An icon that no symbolizer draws is drawn fully. -/
theorem a_color_defaultIcon (g : Geometry Float) : (defaultIcon g).color.a = 255 := by
  unfold defaultIcon
  split <;> rfl

/-- The opacities of the colors of a placemark are those that its symbolizers say. -/
theorem map_a_colors_placemarkStyle (rules : List Rule) (feature : Feature) :
    (placemarkStyle rules feature).colors.map Color.a =
      (drawnOpacities (rules.flatMap Rule.symbolizers)).map Color.opacityChannel := by
  let symbolizers := rules.flatMap Rule.symbolizers
  have hicon : (placemarkStyle rules feature).icon.map (·.color.a) =
      some (Color.opacityChannel
        ((symbolizers.reverse.findSome? Symbolizer.iconOpacity?).getD 1.0)) := by
    rw [Color.opacityChannel_getD, ← PlacemarkStyle.map_a_part PlacemarkStyle.icon_ofInstructions
      feature (·.icon_a_instruction feature)]
    unfold placemarkStyle
    extract_lets instructions style
    show _ = some ((style.icon.map _).getD 255)
    cases style.icon with
    | none => exact congrArg some (a_color_defaultIcon feature.geometry)
    | some icon => rfl
  have hlabel : (placemarkStyle rules feature).label.map (·.color.a) = _ :=
    PlacemarkStyle.map_a_part PlacemarkStyle.label_ofInstructions feature
      (·.label_a_instruction feature) symbolizers
  have hline : (placemarkStyle rules feature).line.map (·.color.a) = _ :=
    PlacemarkStyle.map_a_part PlacemarkStyle.line_ofInstructions feature
      (·.line_a_instruction feature) symbolizers
  have hpoly : (placemarkStyle rules feature).poly.map (·.color.a) = _ :=
    PlacemarkStyle.map_a_part PlacemarkStyle.poly_ofInstructions feature
      (·.poly_a_instruction feature) symbolizers
  rw [PlacemarkStyle.map_a_colors, hicon, hlabel, hline, hpoly]
  simp only [drawnOpacities, Option.toList_map, Option.toList_some, List.map_append, List.map_cons,
    List.cons_append, List.nil_append]
  rfl

/-- The style of an icon has one color. -/
theorem textsIn_iconTrees (icon : IconStyle) :
    Tree.textsIn "color" (encoder.iconTrees icon) = [icon.color.toKml] := by
  simp [iconTrees]

/-- The style of a label has one color. -/
theorem textsIn_labelTrees (label : LabelStyle) :
    Tree.textsIn "color" (labelTrees label) = [label.color.toKml] := by
  simp [labelTrees]

/-- The style of a line has one color. -/
theorem textsIn_lineTrees (line : LineStyle) :
    Tree.textsIn "color" (encoder.lineTrees line) = [line.color.toKml] := by
  simp [lineTrees]

/-- The style of an area has one color. -/
theorem textsIn_areaTrees (poly : PolyStyle) :
    Tree.textsIn "color" (areaTrees poly) = [poly.color.toKml] := by
  simp [areaTrees]

/-- A style of a sort has its color, if there is one. -/
theorem textsIn_styleTrees {α : Type} {members : α → List Tree} {color : α → Color}
    (h : ∀ a, Tree.textsIn "color" (members a) = [(color a).toKml]) (name : String)
    (style : Option α) :
    Tree.textsIn "color" (Parts.styleTrees name (style.map members)) =
      (style.map color).toList.map Color.toKml := by
  cases style with
  | none => rfl
  | some a => simp [Parts.styleTrees, h]

/-- The colors in the styles of a placemark are those of its style, in the order of the parts. -/
theorem textsIn_styleTree (feature : Feature) :
    Tree.textsIn "color" [(encoder.parts feature).styleTree] =
      (placemarkStyle (encoder.rules feature) feature).colors.map Color.toKml := by
  have hlabel := textsIn_styleTrees textsIn_labelTrees "LabelStyle"
    (placemarkStyle (encoder.rules feature) feature).label
  have hline := textsIn_styleTrees encoder.textsIn_lineTrees "LineStyle"
    (placemarkStyle (encoder.rules feature) feature).line
  have hpoly := textsIn_styleTrees textsIn_areaTrees "PolyStyle"
    (placemarkStyle (encoder.rules feature) feature).poly
  rw [Parts.styleTree, Tree.textsIn_element, Tree.textsIn_append, Tree.textsIn_append,
    Tree.textsIn_cons, Tree.textsIn_element, PlacemarkStyle.colors, icon_placemarkStyle]
  simp [parts, hlabel, hline, hpoly, textsIn_iconTrees]

/-- The colors in a placemark are those of its style. -/
theorem textsIn_front (feature : Feature) :
    Tree.textsIn "color" (encoder.parts feature).front =
      (placemarkStyle (encoder.rules feature) feature).colors.map Color.toKml := by
  have hlabel : ∀ name content, name ≠ "color" →
      Tree.textsIn "color" (Parts.optionalTrees name content) = [] := by
    intro name content hname
    cases content <;> simp [Parts.optionalTrees, hname]
  have hview : Tree.textsIn "color" ((encoder.parts feature).view.toList.map View.tree) = [] := by
    cases (encoder.parts feature).view with
    | none => rfl
    | some view => simp [View.tree]
  rw [Parts.front, Tree.textsIn_append, Tree.textsIn_append, Tree.textsIn_append,
    hlabel _ _ (by decide), hlabel _ _ (by decide), hview, textsIn_styleTree]
  rfl

/-- There are no colors in shapes. -/
theorem textsIn_shapeTree (g : Geometry Float) :
    Tree.textsIn "color" [encoder.shapeTree g] = [] := by
  have htree : ∀ other, Tree.textsIn "color" [encoder.geometryEncoder.tree other] = [] :=
    encoder.geometryEncoder.textsIn_treeWith (show "coordinates" ≠ "color" by decide) _
  rcases eq_point_or_ne_point g with ⟨p, rfl⟩ | hne
  · exact htree (.point p)
  · rw [encoder.shapeTree_of_ne_point hne, Tree.textsIn_element]
    refine Tree.textsIn_eq_nil fun member hmember => ?_
    obtain ⟨other, -, rfl⟩ := List.mem_map.1 hmember
    exact htree other

/-- A placemark adds the colors of its style and no others, also when it breaks off, and nothing
when it is left out. -/
theorem textsBehind_placemark (feature : Feature) (rest : List Event) :
    textsBehind "color" ((encoder.placemark feature).events ++ rest) =
      (if feature.geometry.isFinite then
        (placemarkStyle (encoder.rules feature) feature).colors.map Color.toKml else []) ++
        textsBehind "color" rest := by
  by_cases hfin : feature.geometry.isFinite
  · rw [if_pos hfin]
    by_cases hbreak : BreaksOff feature
    · -- Two elements stay open, so this is no tree; what stands in front of the shape is trees.
      rw [(encoder.placemark_of_breaksOff hbreak).2, ← allEvents_front, List.cons_append,
        List.cons_append, Markup.textsBehind_startTag_of_ne (by decide), List.append_assoc,
        Markup.textsBehind_allEvents, textsIn_front, List.singleton_append,
        Markup.textsBehind_startTag_of_ne (by decide)]
    · have hnone := (encoder.failure_eq_none_iff feature).2 ⟨hfin, hbreak⟩
      rw [encoder.events_parts hnone, Markup.textsBehind_tree, Parts.tree, Tree.textsIn_element,
        Tree.textsIn_append, textsIn_front]
      show _ ++ Tree.textsIn "color" [encoder.shapeTree feature.geometry] ++ _ = _
      rw [textsIn_shapeTree, List.append_nil]
  · rw [if_neg hfin, encoder.placemark_of_not_isFinite hfin]
    rfl

/-- A color begins with the two digits of its opacity. -/
theorem take_toKml (color : Color) : color.toKml.toList.take 2 = Color.hexPair false color.a := by
  simp [Color.toKml, Color.hexPair]

/-- The two digits with which the colors of a placemark begin. -/
def drawnAlphas (feature : Feature) : List (List Char) :=
  (drawnOpacities ((encoder.rules feature).flatMap Rule.symbolizers)).map fun opacity =>
    Color.hexPair false (Color.opacityChannel opacity)

/-- The colors begin with the two digits of the opacities that the symbolizers draw with. -/
theorem map_take_colors (feature : Feature) :
    ((placemarkStyle (encoder.rules feature) feature).colors.map Color.toKml).map
      (·.toList.take 2) = encoder.drawnAlphas feature := by
  let colors := (placemarkStyle (encoder.rules feature) feature).colors
  have halphas := map_a_colors_placemarkStyle (encoder.rules feature) feature
  calc (colors.map Color.toKml).map (·.toList.take 2)
    _ = (colors.map Color.a).map (Color.hexPair false) := by simp [take_toKml]
    _ = encoder.drawnAlphas feature := by
      rw [halphas, List.map_map]
      rfl

/-- The colors in placemarks begin with the opacities of what is drawn, feature by feature. -/
theorem map_take_textsBehind_features (features : List Feature) :
    (textsBehind "color" ((features.flatMap fun feature => (encoder.placemark feature).events) ++
      closing)).map (·.toList.take 2) =
      (features.filter (·.geometry.isFinite)).flatMap encoder.drawnAlphas := by
  induction features with
  | nil => rfl
  | cons feature rest ih =>
    rw [List.flatMap_cons, List.append_assoc, textsBehind_placemark, List.map_append, ih,
      List.filter_cons]
    split
    · rw [map_take_colors, List.flatMap_cons]
    · rfl

/-- Outside of placemarks there are no colors in a document. -/
theorem map_take_textsBehind_content (features : List Feature) :
    (textsBehind "color" (encoder.content features)).map (·.toList.take 2) =
      (features.filter (·.geometry.isFinite)).flatMap encoder.drawnAlphas := by
  have hname : Tree.textsIn "color" encoder.nameTrees = [] := by
    unfold nameTrees
    split <;> simp
  unfold content
  rw [List.cons_append, List.cons_append, List.append_assoc,
    Markup.textsBehind_startTag_of_ne (by decide), List.cons_append,
    Markup.textsBehind_startTag_of_ne (by decide), Markup.textsBehind_allEvents, hname,
    List.nil_append, map_take_textsBehind_features]

/-! ## Documents -/

/-- Styles with the same effective parts give the same document, also when the rendering fails, if
the labeller does not look at other parts; labellers by templates do not. And of every color in a
document the first two digits, its opacity, are those of the opacities in the symbolizers. -/
theorem encode_eq_of_effective_eq (style : Style) (hlabeller : encoder.labeller.IsIndifferent)
    (hstyle : style.effective = encoder.style.effective) :
    (∀ source, (encoder.withStyle style).encode source = encoder.encode source) ∧
      Labeller.templates.IsIndifferent ∧ Labeller.namesOnly.IsIndifferent ∧
      ∀ source document, (encoder.encode source).result = .ok document →
        document.markup = Markup.render encoder.context.verbose
          (.declaration :: encoder.content source.features) ∧
        (textsBehind "color" (encoder.content source.features)).map (·.toList.take 2) =
          (source.features.filter (·.geometry.isFinite)).flatMap encoder.drawnAlphas := by
  refine ⟨encode_withStyle hstyle hlabeller, Labeller.isIndifferent_templates,
    Labeller.isIndifferent_namesOnly, fun source document h => ?_⟩
  rw [encoder.eq_of_encode h]
  exact ⟨encoder.markup_document source.features, encoder.map_take_textsBehind_content _⟩

/-- A style of red marks, with an opacity for its color that has no effect. -/
def marksWith (ruleName mark : String) (a : UInt8) : Style where
  rules := [{
    name := ruleName
    symbolizers := [.point {
      graphic := .mark mark
      fill := some { color := { Color.red with a }, opacity := some 0.5 } }] }]

/-- Two styles with other names of rules, other names of marks and other opacities of colors give
the same document, in which the opacity is that of the fill. -/
theorem encode_eq_of_effective_eq_marks :
    let encoder : Encoder := { context := {}, style := marksWith "near" "circle" 0 }
    let source := Source.ofFeatures [{ id := "a", geometry := .point { x := 1.0, y := 2.0 } }]
    (encoder.withStyle (marksWith "far" "star" 255)).encode source = encoder.encode source ∧
      ∃ document, (encoder.encode source).result = .ok document ∧
        (textsBehind "color" (encoder.content source.features)).map (·.toList.take 2) =
          [['8', '0']] := by
  intro encoder source
  obtain ⟨hsame, -, -, hcolors⟩ := encode_eq_of_effective_eq encoder
    (marksWith "far" "star" 255) Labeller.isIndifferent_templates rfl
  have hok := encoder.encode_ofFeatures rfl source.features
  refine ⟨hsame source, _, hok, ?_⟩
  rw [(hcolors source _ hok).2]
  decide +kernel

end Cartouche.Kml.Encoder
