import Cartouche.Context
import Cartouche.Plane.Form
import Cartouche.Proofs.Json.ReadBack
import Cartouche.Style.Rule

/-!
# Everything that has a JSON form reads back

Features, geometries, styles, feature types, rendering options and envelopes are read as what was
written, as long as their doubles are finite. The filter of a rule is a function and has no JSON
form, so a style is read without filters (`Style.withoutFilters`).
-/

namespace Cartouche

/-! ## Colors -/

/-- The digits of a channel are read as their values; none of them is a plus sign. -/
theorem Color.digitValue?_hexDigit : ∀ digit < 16,
    Color.digitValue? (Color.hexDigit true digit) = some digit ∧
      Color.hexDigit true digit ≠ '+' := by
  decide +kernel

/-- A channel is read from its two digits. -/
theorem Color.channel?_hexPair (channel : UInt8) :
    Color.channel? (Color.hexDigit true (channel.toNat / 16))
      (Color.hexDigit true (channel.toNat % 16)) = some channel := by
  have hlt : channel.toNat < 256 := channel.toNat_lt
  obtain ⟨hhigh, hplus⟩ := Color.digitValue?_hexDigit (channel.toNat / 16) (by omega)
  obtain ⟨hlow, -⟩ := Color.digitValue?_hexDigit (channel.toNat % 16) (by omega)
  have hsplit : 16 * (channel.toNat / 16) + channel.toNat % 16 = channel.toNat := by omega
  simp only [Color.channel?, if_neg hplus, hhigh, hlow, bind, Option.bind, pure, hsplit,
    UInt8.ofNat_toNat]

/-- A color is read from the digits it is written with, its opacity included. -/
theorem Color.ofHex?_toHex (color : Color) : Color.ofHex? color.toHex = some color := by
  unfold Color.ofHex? Color.toHex
  rw [String.toList_ofList]
  simp only [List.flatMap_cons, List.flatMap_nil, Color.hexPair, List.cons_append, List.nil_append,
    Color.channel?_hexPair, bind, Option.bind, pure]

/-- The text of a color is read as the color. -/
theorem readsBack_color (color : Color) : ReadsBack color := by
  refine readsBack_of_arranged (by rintro (_ | _) <;> rfl) fun origin => ?_
  show some (Color.ofText color.toHex) = some color
  rw [Color.ofText, Color.ofHex?_toHex]
  rfl

/-! ## Optional fields -/

/-- An optional number is read back if it is finite. One that is not would be written as `null`,
which is read as none. -/
theorem readsBack_optionFloat {o : Option Float} (h : o.all Float.isFinite) : ReadsBack o := by
  refine readsBack_option fun x hx => ?_
  rw [hx] at h
  refine ⟨readsBack_float h, fun sorted hnull => ?_⟩
  rw [toJson_float h] at hnull
  cases sorted <;> cases hnull

/-- An optional text is read back: no text is written as `null`. -/
theorem readsBack_optionString (o : Option String) : ReadsBack o := by
  refine readsBack_option fun s _ => ⟨readsBack_string s, fun sorted hnull => ?_⟩
  cases sorted <;> cases hnull

/-- An optional record is read back if the record is. -/
theorem readsBack_optionRecord {α : Type} [JsonForm α] {o : Option α}
    (hform : ∀ a : α, ∃ entries, JsonForm.toJson a = .object entries)
    (h : ∀ a, o = some a → ReadsBack a) : ReadsBack o := by
  refine readsBack_option fun a ha => ⟨h a ha, fun sorted hnull => ?_⟩
  obtain ⟨entries, hentries⟩ := hform a
  rw [hentries] at hnull
  cases sorted <;> cases hnull

/-! ## Symbolizers -/

/-- The opacity is finite. -/
def Fill.isFinite (fill : Fill) : Bool := fill.opacity.all Float.isFinite

/-- The opacity and the width are finite. -/
def Stroke.isFinite (stroke : Stroke) : Bool :=
  stroke.opacity.all Float.isFinite && stroke.width.all Float.isFinite

/-- All numbers of the symbolizer are finite. -/
def Symbolizer.isFinite : Symbolizer → Bool
  | .point symbolizer =>
    symbolizer.fill.all Fill.isFinite && symbolizer.opacity.all Float.isFinite &&
      symbolizer.size.all Float.isFinite
  | .line symbolizer => symbolizer.stroke.all Stroke.isFinite
  | .polygon symbolizer =>
    symbolizer.fill.all Fill.isFinite && symbolizer.stroke.all Stroke.isFinite
  | .text symbolizer => symbolizer.fill.all Fill.isFinite

/-- A fill with a finite opacity or none is read back. -/
theorem readsBack_fill {fill : Fill} (h : fill.isFinite) : ReadsBack fill := by
  refine readsBack_record (fun _ _ => rfl) rfl (by simp) rfl fun fields hholds _ => ?_
  have hcolor := hholds "color" fill.color (by simp) (readsBack_color _)
  have hopacity := hholds "opacity" fill.opacity (by simp) (readsBack_optionFloat h)
  simp only [hcolor.required, hopacity.withDefault, bind, Option.bind, pure]

/-- A stroke is read back if its opacity and its width are finite or absent. -/
theorem readsBack_stroke {stroke : Stroke} (h : stroke.isFinite) : ReadsBack stroke := by
  obtain ⟨hopacity, hwidth⟩ := Bool.and_eq_true_iff.1 h
  refine readsBack_record (fun _ _ => rfl) rfl (by simp) rfl fun fields hholds _ => ?_
  have hcolor := hholds "color" stroke.color (by simp) (readsBack_color _)
  have hopacity := hholds "opacity" stroke.opacity (by simp) (readsBack_optionFloat hopacity)
  have hwidth := hholds "width" stroke.width (by simp) (readsBack_optionFloat hwidth)
  simp only [hcolor.required, hopacity.withDefault, hwidth.withDefault, bind, Option.bind, pure]

/-- An optional fill is read back, since `null` is not the form of a fill. -/
theorem readsBack_optionFill {o : Option Fill} (h : o.all Fill.isFinite) : ReadsBack o :=
  readsBack_optionRecord (fun _ => ⟨_, rfl⟩) fun fill hfill =>
    readsBack_fill (by rw [hfill] at h; exact h)

/-- An optional stroke is read back, since `null` is not the form of a stroke. -/
theorem readsBack_optionStroke {o : Option Stroke} (h : o.all Stroke.isFinite) : ReadsBack o :=
  readsBack_optionRecord (fun _ => ⟨_, rfl⟩) fun stroke hstroke =>
    readsBack_stroke (by rw [hstroke] at h; exact h)

/-- The picture of an icon is read back: its two sorts are variants with different names. -/
theorem readsBack_graphic (graphic : Graphic) : ReadsBack graphic := by
  intro origin sorted
  cases graphic with
  | externalIcon href =>
    have hcontent := contentField?_ofField origin sorted "href" (readsBack_string href)
    have hform : (JsonForm.toJson (Graphic.externalIcon href)).arranged sorted =
        .ofVariant "ExternalIcon" ((Json.ofField "href" href).arranged sorted) :=
      Json.arranged_ofVariant sorted _ _
    rw [hform]
    exact congrArg (Option.map Graphic.externalIcon) hcontent
  | mark name =>
    have hcontent := contentField?_ofField origin sorted "well_known_name" (readsBack_string name)
    have hform : (JsonForm.toJson (Graphic.mark name)).arranged sorted =
        .ofVariant "Mark" ((Json.ofField "well_known_name" name).arranged sorted) :=
      Json.arranged_ofVariant sorted _ _
    rw [hform]
    exact congrArg (Option.map Graphic.mark) hcontent

/-- A symbolizer of points is read back if its numbers are finite. -/
theorem readsBack_pointSymbolizer {symbolizer : PointSymbolizer}
    (h : (Symbolizer.point symbolizer).isFinite) : ReadsBack symbolizer := by
  simp only [Symbolizer.isFinite, Bool.and_eq_true] at h
  obtain ⟨⟨hfill, hopacity⟩, hsize⟩ := h
  refine readsBack_record (fun _ _ => rfl) rfl (by simp) rfl fun fields hholds _ => ?_
  have hgraphic := hholds "graphic" symbolizer.graphic (by simp) (readsBack_graphic _)
  have hfill := hholds "fill" symbolizer.fill (by simp) (readsBack_optionFill hfill)
  have hopacity := hholds "opacity" symbolizer.opacity (by simp) (readsBack_optionFloat hopacity)
  have hsize := hholds "size" symbolizer.size (by simp) (readsBack_optionFloat hsize)
  simp only [hgraphic.withDefault, hfill.withDefault, hopacity.withDefault, hsize.withDefault,
    bind, Option.bind, pure]

/-- A symbolizer of lines is read back if its numbers are finite. -/
theorem readsBack_lineSymbolizer {symbolizer : LineSymbolizer}
    (h : (Symbolizer.line symbolizer).isFinite) : ReadsBack symbolizer := by
  refine readsBack_record (fun _ _ => rfl) rfl (by simp) rfl fun fields hholds _ => ?_
  have hstroke := hholds "stroke" symbolizer.stroke (by simp) (readsBack_optionStroke h)
  simp only [hstroke.withDefault, bind, Option.bind, pure]

/-- A symbolizer of areas is read back if its numbers are finite. -/
theorem readsBack_polygonSymbolizer {symbolizer : PolygonSymbolizer}
    (h : (Symbolizer.polygon symbolizer).isFinite) : ReadsBack symbolizer := by
  obtain ⟨hfill, hstroke⟩ := Bool.and_eq_true_iff.1 h
  refine readsBack_record (fun _ _ => rfl) rfl (by simp) rfl fun fields hholds _ => ?_
  have hfill := hholds "fill" symbolizer.fill (by simp) (readsBack_optionFill hfill)
  have hstroke := hholds "stroke" symbolizer.stroke (by simp) (readsBack_optionStroke hstroke)
  simp only [hfill.withDefault, hstroke.withDefault, bind, Option.bind, pure]

/-- A symbolizer of labels is read back if its numbers are finite. Its template is any text. -/
theorem readsBack_textSymbolizer {symbolizer : TextSymbolizer}
    (h : (Symbolizer.text symbolizer).isFinite) : ReadsBack symbolizer := by
  refine readsBack_record (fun _ _ => rfl) rfl (by simp) rfl fun fields hholds _ => ?_
  have hlabel := hholds "label" symbolizer.label (by simp) (readsBack_string _)
  have hfill := hholds "fill" symbolizer.fill (by simp) (readsBack_optionFill h)
  simp only [hlabel.required, hfill.withDefault, bind, Option.bind, pure]

/-- A variant is read through its content. -/
theorem readsBack_symbolizer {symbolizer : Symbolizer} (h : symbolizer.isFinite) :
    ReadsBack symbolizer := by
  intro origin sorted
  cases symbolizer with
  | point symbolizer =>
    have hform : (JsonForm.toJson (Symbolizer.point symbolizer)).arranged sorted =
        .ofVariant "Point" ((JsonForm.toJson symbolizer).arranged sorted) :=
      Json.arranged_ofVariant sorted _ _
    rw [hform]
    exact congrArg (Option.map Symbolizer.point) (readsBack_pointSymbolizer h origin sorted)
  | line symbolizer =>
    have hform : (JsonForm.toJson (Symbolizer.line symbolizer)).arranged sorted =
        .ofVariant "Line" ((JsonForm.toJson symbolizer).arranged sorted) :=
      Json.arranged_ofVariant sorted _ _
    rw [hform]
    exact congrArg (Option.map Symbolizer.line) (readsBack_lineSymbolizer h origin sorted)
  | polygon symbolizer =>
    have hform : (JsonForm.toJson (Symbolizer.polygon symbolizer)).arranged sorted =
        .ofVariant "Polygon" ((JsonForm.toJson symbolizer).arranged sorted) :=
      Json.arranged_ofVariant sorted _ _
    rw [hform]
    exact congrArg (Option.map Symbolizer.polygon) (readsBack_polygonSymbolizer h origin sorted)
  | text symbolizer =>
    have hform : (JsonForm.toJson (Symbolizer.text symbolizer)).arranged sorted =
        .ofVariant "Text" ((JsonForm.toJson symbolizer).arranged sorted) :=
      Json.arranged_ofVariant sorted _ _
    rw [hform]
    exact congrArg (Option.map Symbolizer.text) (readsBack_textSymbolizer h origin sorted)

/-! ## Styles -/

/-- The scale bounds and the symbolizers of the rule are finite. -/
def Rule.isFinite (rule : Rule) : Bool :=
  rule.minScaleDenominator.all Float.isFinite && rule.maxScaleDenominator.all Float.isFinite &&
    rule.symbolizers.all Symbolizer.isFinite

/-- The rule without its filter. -/
def Rule.withoutFilter (rule : Rule) : Rule := { rule with filter := none }

/-- All rules of the style are finite. -/
def Style.isFinite (style : Style) : Bool := style.rules.all Rule.isFinite

/-- The style with no filter in any rule. -/
def Style.withoutFilters (style : Style) : Style :=
  { style with rules := style.rules.map Rule.withoutFilter }

/-- A rule without filter is read back. -/
theorem readsBack_rule {rule : Rule} (h : rule.isFinite) : ReadsBack rule.withoutFilter := by
  simp only [Rule.isFinite, Bool.and_eq_true] at h
  obtain ⟨⟨hmin, hmax⟩, hsymbolizers⟩ := h
  refine readsBack_record (fun _ _ => rfl) rfl (by simp [Rule.fieldNames]) rfl
    fun fields hholds _ => ?_
  have hname := hholds "name" rule.name (by simp [Rule.withoutFilter]) (readsBack_string _)
  have hproperties := hholds "properties" rule.properties (by simp [Rule.withoutFilter])
    (readsBack_dict fun e _ => readsBack_string e.2)
  have hmin := hholds "min_scale_denominator" rule.minScaleDenominator
    (by simp [Rule.withoutFilter]) (readsBack_optionFloat hmin)
  have hmax := hholds "max_scale_denominator" rule.maxScaleDenominator
    (by simp [Rule.withoutFilter]) (readsBack_optionFloat hmax)
  have helse := hholds "is_else" rule.isElse (by simp [Rule.withoutFilter]) (readsBack_bool _)
  have hsymbolizers := hholds "symbolizers" rule.symbolizers (by simp [Rule.withoutFilter])
    (readsBack_list fun symbolizer hmem =>
      readsBack_symbolizer (List.all_eq_true.1 hsymbolizers symbolizer hmem))
  simp only [hname.withDefault, hproperties.withDefault, hmin.withDefault, hmax.withDefault,
    helse.withDefault, hsymbolizers.withDefault, bind, Option.bind, pure, Rule.withoutFilter]

/-- The form of a style does not tell its filters. -/
theorem toJson_withoutFilters (style : Style) :
    JsonForm.toJson style.withoutFilters = JsonForm.toJson style := by
  have hrules : style.withoutFilters.rules.map JsonForm.toJson =
      style.rules.map JsonForm.toJson := by
    rw [Style.withoutFilters, List.map_map]
    rfl
  show Json.object [("name", JsonForm.toJson style.name),
    ("rules", .array (style.withoutFilters.rules.map JsonForm.toJson))] = _
  rw [hrules]
  rfl

/-- A style without filters is read back. -/
theorem readsBack_style {style : Style} (h : style.isFinite) :
    ReadsBack style.withoutFilters := by
  refine readsBack_record (fun _ _ => rfl) rfl (by simp) rfl fun fields hholds _ => ?_
  have hname := hholds "name" style.name (by simp [Style.withoutFilters]) (readsBack_string _)
  have hrules := hholds "rules" style.withoutFilters.rules (by simp)
    (readsBack_list fun rule hmem => by
      obtain ⟨rule, hrule, rfl⟩ := List.mem_map.1 hmem
      exact readsBack_rule (List.all_eq_true.1 h rule hrule))
  simp only [hname.withDefault, hrules.withDefault, bind, Option.bind, pure]
  rfl

/-! ## Geometries -/

/-- A finite point is read back. Without an elevation its field is left out, and the default stands
for it. -/
theorem readsBack_point {p : Point Float} (h : p.isFinite) : ReadsBack p := by
  obtain ⟨x, y, z⟩ := p
  simp only [Point.isFinite, Bool.and_eq_true] at h
  obtain ⟨⟨hx, hy⟩, hz⟩ := h
  cases z with
  | none =>
    refine readsBack_record (fun _ _ => rfl) rfl (by simp) rfl fun fields hholds habsent => ?_
    have hx := hholds "x" x (by simp) (readsBack_float hx)
    have hy := hholds "y" y (by simp) (readsBack_float hy)
    have hz := habsent "z" (by simp)
    simp only [hx.required, hy.required, Json.Fields.withDefault_of_absent hz, bind, Option.bind,
      pure]
  | some z =>
    refine readsBack_record (fun _ _ => rfl) rfl (by simp) rfl fun fields hholds _ => ?_
    have hz : (some z).all Float.isFinite := hz
    have hx := hholds "x" x (by simp) (readsBack_float hx)
    have hy := hholds "y" y (by simp) (readsBack_float hy)
    have hz := hholds "z" (some z) (by simp; rfl) (readsBack_optionFloat hz)
    simp only [hx.required, hy.required, hz.withDefault, bind, Option.bind, pure]

/-- A list of finite points is read back, in order. -/
theorem readsBack_points {points : List (Point Float)} (h : ∀ p ∈ points, p.isFinite) :
    ReadsBack points :=
  readsBack_list fun p hp => readsBack_point (h p hp)

/-- A line through finite points is read back, however few there are. -/
theorem readsBack_lineString {line : LineString Float} (h : ∀ p ∈ line.points, p.isFinite) :
    ReadsBack line := by
  intro origin sorted
  show ((Json.arranged sorted (.ofField "points" line.points)).field? origin "points").map
    LineString.mk = some line
  rw [field?_ofField origin sorted "points" (readsBack_points h)]
  rfl

/-- A ring through finite points is read back, whether or not it is closed. -/
theorem readsBack_linearRing {ring : LinearRing Float} (h : ∀ p ∈ ring.points, p.isFinite) :
    ReadsBack ring := by
  intro origin sorted
  show ((Json.arranged sorted (.ofField "points" ring.points)).field? origin "points").map
    LinearRing.mk = some ring
  rw [field?_ofField origin sorted "points" (readsBack_points h)]
  rfl

/-- An area with finite points is read back, its exterior and its interiors. -/
theorem readsBack_polygon {area : Polygon Float} (h : ∀ p ∈ area.points, p.isFinite) :
    ReadsBack area := by
  have hexterior : ∀ p ∈ area.exterior.points, p.isFinite :=
    fun p hp => h p (List.mem_append_left _ hp)
  have hinteriors : ∀ ring ∈ area.interiors, ∀ p ∈ ring.points, p.isFinite :=
    fun ring hring p hp => h p (List.mem_append_right _ (List.mem_flatMap.2 ⟨ring, hring, hp⟩))
  refine readsBack_record (fun _ _ => rfl) rfl (by simp) rfl fun fields hholds _ => ?_
  have hexterior := hholds "exterior" area.exterior (by simp) (readsBack_linearRing hexterior)
  have hinteriors := hholds "interiors" area.interiors (by simp)
    (readsBack_list fun ring hring => readsBack_linearRing (hinteriors ring hring))
  simp only [hexterior.required, hinteriors.withDefault, bind, Option.bind, pure]

/-- The name of a kind is that of no other kind. -/
theorem ofName?_name (kind : GeometryKind) : GeometryKind.ofName? kind.name = some kind := by
  cases kind <;> rfl

/-- The form of a geometry is a variant in every arrangement. -/
theorem arranged_ofContent (sorted : Bool) (kind : GeometryKind) (content : Json) :
    (Geometry.ofContent kind content).arranged sorted =
      .object [(kind.name, content.arranged sorted)] :=
  Json.arranged_ofVariant sorted _ _

/-- A geometry is read from the content under the name of its kind. -/
theorem ofJson?_ofContent (origin : Json.Origin) (kind : GeometryKind) (content : Json) :
    Geometry.ofJson? origin (.object [(kind.name, content)]) =
      match kind with
      | .point => (JsonForm.ofJson? origin content).map .point
      | .lineString => (JsonForm.ofJson? origin content).map .lineString
      | .polygon => (JsonForm.ofJson? origin content).map .polygon
      | .multiPoint => (content.field? origin partsName).map .multiPoint
      | .multiLineString => (content.field? origin partsName).map .multiLineString
      | .multiPolygon => (content.field? origin partsName).map .multiPolygon
      | .collection =>
        match content with
        | .array members => (Geometry.membersOfJson? origin members).map .collection
        | _ => none := by
  rw [Geometry.ofJson?.eq_def]
  simp only [ofName?_name]
  cases kind <;> rfl

mutual

/-- A finite geometry is read back. The two lemmas go through geometries and their members together,
because a collection is read member by member. -/
theorem ofJson?_arranged_toJson (origin : Json.Origin) (sorted : Bool) :
    (g : Geometry Float) → (∀ p ∈ g.points, p.isFinite) →
      Geometry.ofJson? origin (g.toJson.arranged sorted) = some g
  | .point p, h => by
    have hp := readsBack_point (h p (by simp)) origin sorted
    rw [Geometry.toJson, arranged_ofContent, ofJson?_ofContent]
    exact congrArg (Option.map Geometry.point) hp
  | .lineString line, h => by
    rw [Geometry.points_lineString] at h
    rw [Geometry.toJson, arranged_ofContent, ofJson?_ofContent]
    exact congrArg (Option.map Geometry.lineString) (readsBack_lineString h origin sorted)
  | .polygon area, h => by
    rw [Geometry.points_polygon] at h
    rw [Geometry.toJson, arranged_ofContent, ofJson?_ofContent]
    exact congrArg (Option.map Geometry.polygon) (readsBack_polygon h origin sorted)
  | .multiPoint parts, h => by
    rw [Geometry.points_multiPoint] at h
    have hparts := field?_ofField origin sorted partsName (readsBack_points h)
    rw [Geometry.toJson, arranged_ofContent, ofJson?_ofContent]
    exact congrArg (Option.map Geometry.multiPoint) hparts
  | .multiLineString parts, h => by
    rw [Geometry.points_multiLineString] at h
    have hparts := field?_ofField origin sorted partsName <| readsBack_list fun line hline =>
      readsBack_lineString fun p hp => h p (List.mem_flatMap.2 ⟨line, hline, hp⟩)
    rw [Geometry.toJson, arranged_ofContent, ofJson?_ofContent]
    exact congrArg (Option.map Geometry.multiLineString) hparts
  | .multiPolygon parts, h => by
    rw [Geometry.points_multiPolygon] at h
    have hparts := field?_ofField origin sorted partsName <| readsBack_list fun area harea =>
      readsBack_polygon fun p hp => h p (List.mem_flatMap.2 ⟨area, harea, hp⟩)
    rw [Geometry.toJson, arranged_ofContent, ofJson?_ofContent]
    exact congrArg (Option.map Geometry.multiPolygon) hparts
  | .collection members, h => by
    rw [Geometry.points_collection] at h
    have hmembers := membersOfJson?_arranged_membersToJson origin sorted members fun g hg p hp =>
      h p (List.mem_flatMap.2 ⟨g, hg, hp⟩)
    rw [Geometry.toJson, arranged_ofContent, Json.arranged_array, ofJson?_ofContent]
    exact congrArg (Option.map Geometry.collection) hmembers

/-- The members of a collection are read back one by one. -/
theorem membersOfJson?_arranged_membersToJson (origin : Json.Origin) (sorted : Bool) :
    (members : List (Geometry Float)) → (∀ g ∈ members, ∀ p ∈ g.points, p.isFinite) →
      Geometry.membersOfJson? origin ((Geometry.membersToJson members).map (Json.arranged sorted)) =
        some members
  | [], _ => by rw [Geometry.membersToJson, List.map_nil, Geometry.membersOfJson?]
  | g :: rest, h => by
    have hg := ofJson?_arranged_toJson origin sorted g (h g List.mem_cons_self)
    have hrest := membersOfJson?_arranged_membersToJson origin sorted rest fun g hg =>
      h g (List.mem_cons_of_mem _ hg)
    rw [Geometry.membersToJson, List.map_cons, Geometry.membersOfJson?, hg, hrest]
    rfl

end

/-- A geometry is read back, however deep its collections are nested. -/
theorem readsBack_geometry {g : Geometry Float} (h : g.isFinite) : ReadsBack g :=
  fun origin sorted => ofJson?_arranged_toJson origin sorted g (Geometry.isFinite_iff.1 h)

/-- The bounds are finite. -/
def Rect.isFinite (r : Rect Float) : Bool :=
  r.xMin.isFinite && r.yMin.isFinite && r.xMax.isFinite && r.yMax.isFinite

/-- The bounds are finite, if there are any. -/
def Envelope.isFinite (e : Envelope Float) : Bool := e.rect.all Rect.isFinite

/-- A rectangle with finite bounds is read back. -/
theorem readsBack_rect {r : Rect Float} (h : r.isFinite) : ReadsBack r := by
  simp only [Rect.isFinite, Bool.and_eq_true] at h
  obtain ⟨⟨⟨hxMin, hyMin⟩, hxMax⟩, hyMax⟩ := h
  refine readsBack_record (fun _ _ => rfl) rfl (by simp) rfl fun fields hholds _ => ?_
  have hxMin := hholds "x_min" r.xMin (by simp) (readsBack_float hxMin)
  have hyMin := hholds "y_min" r.yMin (by simp) (readsBack_float hyMin)
  have hxMax := hholds "x_max" r.xMax (by simp) (readsBack_float hxMax)
  have hyMax := hholds "y_max" r.yMax (by simp) (readsBack_float hyMax)
  simp only [hxMin.required, hyMin.required, hxMax.required, hyMax.required, bind, Option.bind,
    pure]

/-- An envelope is read back, with finite bounds or with none. -/
theorem readsBack_envelope {e : Envelope Float} (h : e.isFinite) : ReadsBack e := by
  have hrect : ReadsBack e.rect := readsBack_optionRecord (fun _ => ⟨_, rfl⟩) fun r hr =>
    readsBack_rect (by rw [Envelope.isFinite, hr] at h; exact h)
  refine readsBack_record (fun _ _ => rfl) rfl (by simp) rfl fun fields hholds _ => ?_
  have hrect := hholds "rect" e.rect (by simp) hrect
  simp only [hrect.optional, bind, Option.bind, pure]

/-! ## Features -/

/-- The value is no double or a finite one. -/
def AttributeValue.isFinite : AttributeValue → Bool
  | .double x => x.isFinite
  | _ => true

/-- The values of the attributes and the coordinates are finite. -/
def Feature.isFinite (feature : Feature) : Bool :=
  feature.attributes.entries.all (fun e => e.2.isFinite) && feature.geometry.isFinite

/-- The kinds of values have different forms, so the kind that is tried first is the right one. -/
theorem readsBack_attributeValue {value : AttributeValue} (h : value.isFinite) :
    ReadsBack value := by
  cases value with
  | bool b => exact readsBack_of_arranged (by rintro (_ | _) <;> rfl) fun _ => rfl
  | int64 n =>
    refine readsBack_of_arranged (by rintro (_ | _) <;> rfl) fun origin => ?_
    have hread := JsonForm.ofJson?_toJson_int64 origin n
    show ((JsonForm.ofJson? origin (JsonForm.toJson n) : Option Int64).map
      AttributeValue.int64).or _ = _
    rw [hread]
    rfl
  | double x =>
    have hform : JsonForm.toJson (AttributeValue.double x) = .number (.float x) := toJson_float h
    refine readsBack_of_arranged (fun sorted => ?_) fun origin => ?_
    · rw [hform]
      cases sorted <;> rfl
    · rw [hform]
      rfl
  | text s => exact readsBack_of_arranged (by rintro (_ | _) <;> rfl) fun _ => rfl
  | null => exact readsBack_of_arranged (by rintro (_ | _) <;> rfl) fun _ => rfl

/-- A feature is read back with its id, its attributes and its geometry. -/
theorem readsBack_feature {feature : Feature} (h : feature.isFinite) : ReadsBack feature := by
  obtain ⟨hvalues, hgeometry⟩ := Bool.and_eq_true_iff.1 h
  refine readsBack_record (fun _ _ => rfl) rfl (by simp) rfl fun fields hholds _ => ?_
  have hid := hholds "id" feature.id (by simp) (readsBack_string _)
  have hattributes := hholds "attributes" feature.attributes (by simp)
    (readsBack_dict fun e he => readsBack_attributeValue (List.all_eq_true.1 hvalues e he))
  have hgeometry := hholds "geometry" feature.geometry (by simp) (readsBack_geometry hgeometry)
  simp only [hid.required, hattributes.withDefault, hgeometry.required, bind, Option.bind, pure]

/-- A feature type is read back, whatever names it gives. -/
theorem readsBack_featureType (type : FeatureType) : ReadsBack type := by
  refine readsBack_record (fun _ _ => rfl) rfl (by simp [FeatureType.fieldNames]) rfl
    fun fields hholds _ => ?_
  have habbreviation := hholds "prefix" type.abbreviation (by simp) (readsBack_string _)
  have huri := hholds "namespace_uri" type.namespaceUri (by simp) (readsBack_string _)
  have htype := hholds "type_name" type.typeName (by simp) (readsBack_string _)
  have hgeometry := hholds "geometry_name" type.geometryName (by simp) (readsBack_string _)
  have hsrs := hholds "srs_name" type.srsName (by simp) (readsBack_optionString _)
  simp only [habbreviation.withDefault, huri.withDefault, htype.withDefault,
    hgeometry.withDefault, hsrs.withDefault, bind, Option.bind, pure]

/-! ## Rendering options -/

/-- The scale is finite. -/
def RenderContext.isFinite (context : RenderContext) : Bool := context.scaleDenominator.isFinite

/-- The rendering options are read back if the scale in them is finite. -/
theorem readsBack_renderContext {context : RenderContext} (h : context.isFinite) :
    ReadsBack context := by
  refine readsBack_record (fun _ _ => rfl) rfl (by simp [RenderContext.fieldNames]) rfl
    fun fields hholds _ => ?_
  have hverbose := hholds "verbose" context.verbose (by simp) (readsBack_bool _)
  have hdecimal := hholds "decimal" context.decimal (by simp) (readsBack_char _)
  have hcoordinate := hholds "coordinate_separator" context.coordinateSeparator (by simp)
    (readsBack_string _)
  have htuple := hholds "tuple_separator" context.tupleSeparator (by simp) (readsBack_string _)
  have hdecimals := hholds "num_decimals" context.numDecimals (by simp) (readsBack_uint64 _)
  have hscale := hholds "scale_denominator" context.scaleDenominator (by simp) (readsBack_float h)
  simp only [hverbose.withDefault, hdecimal.withDefault, hcoordinate.withDefault,
    htuple.withDefault, hdecimals.withDefault, hscale.withDefault, bind, Option.bind, pure]

/-- Whatever has a JSON form is read as what was written if its doubles are finite, except that the
filters of a style are not written and come back as none. Numbers are kept apart in JSON values as
they are in texts: an integer is not a double. -/
theorem forms_readBack (origin : Json.Origin) (sorted : Bool) :
    (∀ feature : Feature, feature.isFinite →
      JsonForm.ofJson? origin ((JsonForm.toJson feature).arranged sorted) = some feature) ∧
    (∀ g : Geometry Float, g.isFinite →
      JsonForm.ofJson? origin ((JsonForm.toJson g).arranged sorted) = some g) ∧
    (∀ style : Style, style.isFinite →
      JsonForm.ofJson? origin ((JsonForm.toJson style).arranged sorted) =
        some style.withoutFilters) ∧
    (∀ type : FeatureType,
      JsonForm.ofJson? origin ((JsonForm.toJson type).arranged sorted) = some type) ∧
    (∀ context : RenderContext, context.isFinite →
      JsonForm.ofJson? origin ((JsonForm.toJson context).arranged sorted) = some context) ∧
    ∀ envelope : Envelope Float, envelope.isFinite →
      JsonForm.ofJson? origin ((JsonForm.toJson envelope).arranged sorted) = some envelope := by
  refine ⟨fun feature h => readsBack_feature h origin sorted,
    fun g h => readsBack_geometry h origin sorted, fun style h => ?_,
    fun type => readsBack_featureType type origin sorted,
    fun context h => readsBack_renderContext h origin sorted,
    fun envelope h => readsBack_envelope h origin sorted⟩
  rw [← toJson_withoutFilters]
  exact readsBack_style h origin sorted

/-- A feature with values of all kinds, points with and without elevation in nested collections,
and a style with a filter. -/
theorem forms_readBack_mixed :
    let feature : Feature := {
      id := "a"
      attributes := .ofList [("whole", .int64 5), ("real", .double 5.0), ("none", .null),
        ("name", .text "x"), ("flag", .bool true)]
      geometry := .collection [.point { x := -0.0, y := 1.5, z := some 2.0 }, .collection []] }
    let style : Style := {
      rules := [{
        filter := some fun _ => true
        properties := .ofList [("name", "x")]
        minScaleDenominator := some 1000.0
        symbolizers := [.line { stroke := some { color := .red, width := some 0.5 } }] }] }
    let envelope : Envelope Float := { rect := some ⟨0.0, 0.0, 1.0, 2.0⟩ }
    feature.isFinite ∧ style.isFinite ∧ envelope.isFinite ∧
      JsonForm.ofJson? .text ((JsonForm.toJson feature).arranged false) = some feature ∧
      JsonForm.ofJson? .memory ((JsonForm.toJson style).arranged true) =
        some style.withoutFilters ∧
      JsonForm.ofJson? .text ((JsonForm.toJson envelope).arranged false) = some envelope := by
  intro feature style envelope
  have hfeature : feature.isFinite := by decide +kernel
  have hstyle : style.isFinite := by decide +kernel
  have henvelope : envelope.isFinite := by decide +kernel
  obtain ⟨hreadFeature, -, -, -, -, hreadEnvelope⟩ := forms_readBack .text false
  obtain ⟨-, -, hreadStyle, -⟩ := forms_readBack .memory true
  exact ⟨hfeature, hstyle, henvelope, hreadFeature feature hfeature, hreadStyle style hstyle,
    hreadEnvelope envelope henvelope⟩

end Cartouche
