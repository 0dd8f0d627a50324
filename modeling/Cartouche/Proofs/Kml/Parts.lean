import Mathlib.Data.List.Forall2
import Cartouche.Proofs.Kml.Placemark
import Cartouche.Proofs.Markup.Elements
import Cartouche.Proofs.Style.Instruction

/-!
# The parts of a placemark

A placemark has up to five children: a name, a description, a view, one block of styles and a shape.
`Parts` holds what they say, and `Parts.tree` puts them into their order. `Encoder.parts` gives the
parts of a feature, also of one that breaks off behind its styles (`allEvents_front`).

What is written of a feature by itself is read as a placemark of parts that belong to the feature
(`exists_parts_of_encodeFeature`). The view and the shape go back to one center on two ways, and
they agree in its coordinates: a point is its own center, and all else stands behind a marker at its
center (`head_points`).
-/

namespace Cartouche.Kml

open Markup (Tree)

/-- A view by the texts of its coordinates. -/
structure View where
  longitude : String
  latitude : String
deriving DecidableEq, Repr

/-- What a placemark consists of. The parts of its style are given by what stands in their elements;
it always has an icon. -/
structure Parts where
  name : Option String
  description : Option String
  view : Option View
  icon : List Tree
  label : Option (List Tree)
  line : Option (List Tree)
  area : Option (List Tree)
  shape : Tree

/-- The element of a view. -/
def View.tree (view : View) : Tree :=
  .element "LookAt" [] [.text "longitude" [] view.longitude, .text "latitude" [] view.latitude]

namespace Parts

/-- The element of a text, if there is a text. -/
def optionalTrees (name : String) (content : Option String) : List Tree :=
  content.toList.map (.text name [])

/-- The element of a style, if there is a style. -/
def styleTrees (name : String) (members : Option (List Tree)) : List Tree :=
  members.toList.map (.element name [])

variable (parts : Parts)

/-- The block of styles: the icon first, then the others, at most one of each sort. -/
def styleTree : Tree :=
  .element "Style" [] (.element "IconStyle" [] parts.icon :: styleTrees "LabelStyle" parts.label ++
    styleTrees "LineStyle" parts.line ++ styleTrees "PolyStyle" parts.area)

/-- What stands in front of the shape. -/
def front : List Tree :=
  optionalTrees "name" parts.name ++ optionalTrees "description" parts.description ++
    parts.view.toList.map View.tree ++ [parts.styleTree]

/-- The placemark of the parts. -/
def tree (id : String) : Tree := .element "Placemark" [("id", id)] (parts.front ++ [parts.shape])

end Parts

namespace Encoder

variable (encoder : Encoder)

/-! ## The parts of a feature -/

/-- The view at a point. -/
def view (center : Point Float) : View where
  longitude := encoder.context.formatNumber center.x
  latitude := encoder.context.formatNumber center.y

/-- What the style of an icon says. -/
def iconTrees (icon : IconStyle) : List Tree :=
  [.text "color" [] icon.color.toKml, .text "scale" [] (encoder.context.formatNumber icon.scale),
    .element "Icon" [] [.text "href" [] icon.href]]

/-- What the style of a label says. -/
def labelTrees (label : LabelStyle) : List Tree := [.text "color" [] label.color.toKml]

/-- What the style of a line says. -/
def lineTrees (line : LineStyle) : List Tree :=
  [.text "color" [] line.color.toKml, .text "width" [] (encoder.context.formatNumber line.width)]

/-- What the style of an area says. -/
def areaTrees (poly : PolyStyle) : List Tree :=
  [.text "color" [] poly.color.toKml, .text "outline" [] (if poly.outline then "1" else "0")]

/-- The shape of a geometry: a point by itself, all else behind the marker at its center. -/
def shapeTree : Geometry Float → Tree
  | .point p => encoder.geometryEncoder.tree (.point p)
  | g => .element "MultiGeometry" [] ((markers g.centroid? ++ [g]).map encoder.geometryEncoder.tree)

/-- The parts of the placemark of a feature. -/
def parts (feature : Feature) : Parts :=
  let style := placemarkStyle (encoder.rules feature) feature
  { name := (encoder.nameOf feature).1
    description := (encoder.descriptionOf feature).1
    view := feature.geometry.centroid?.map encoder.view
    icon := encoder.iconTrees (style.icon.getD (defaultIcon feature.geometry))
    label := style.label.map labelTrees
    line := style.line.map encoder.lineTrees
    area := style.poly.map areaTrees
    shape := encoder.shapeTree feature.geometry }

/-! ## Events -/

/-- An optional text is written as its element, or not at all. -/
theorem allEvents_optionalTrees (name : String) (content : Option String) :
    Tree.allEvents (Parts.optionalTrees name content) = optionalElement name content := by
  cases content <;> simp [Parts.optionalTrees, optionalElement, textElement]

/-- An optional style is written as its element, or not at all. What stands in the element is left
to the sort of style. -/
theorem allEvents_styleTrees {α : Type} {name : String} {members : α → List Tree}
    {events : α → List Event}
    (h : ∀ a, Event.element name [] (Tree.allEvents (members a)) = events a) (style : Option α) :
    Tree.allEvents (Parts.styleTrees name (style.map members)) = style.toList.flatMap events := by
  cases style with
  | none => rfl
  | some a => simp [Parts.styleTrees, h]

/-- The style of an icon is that of its trees. -/
theorem element_iconTrees (icon : IconStyle) :
    Event.element "IconStyle" [] (Tree.allEvents (encoder.iconTrees icon)) =
      encoder.iconStyle icon := by
  simp [iconTrees, iconStyle, textElement]

/-- The style of a label is that of its trees. -/
theorem element_labelTrees (label : LabelStyle) :
    Event.element "LabelStyle" [] (Tree.allEvents (labelTrees label)) = labelStyle label := by
  simp [labelTrees, labelStyle, textElement]

/-- The style of a line is that of its trees. -/
theorem element_lineTrees (line : LineStyle) :
    Event.element "LineStyle" [] (Tree.allEvents (encoder.lineTrees line)) =
      encoder.lineStyle line := by
  simp [lineTrees, lineStyle, textElement]

/-- The style of an area is that of its trees. -/
theorem element_areaTrees (poly : PolyStyle) :
    Event.element "PolyStyle" [] (Tree.allEvents (areaTrees poly)) = polyStyle poly := by
  simp [areaTrees, polyStyle, textElement]

/-- There is an icon in every style. -/
theorem icon_placemarkStyle (rules : List Rule) (feature : Feature) :
    (placemarkStyle rules feature).icon =
      some ((placemarkStyle rules feature).icon.getD (defaultIcon feature.geometry)) := by
  unfold placemarkStyle
  extract_lets instructions style
  cases style.icon <;> rfl

/-- The block of styles is that of its tree, with the icon of the geometry if none is set. -/
theorem events_styleTree (feature : Feature) :
    (encoder.parts feature).styleTree.events =
      encoder.styleElement (placemarkStyle (encoder.rules feature) feature) := by
  unfold styleElement
  rw [icon_placemarkStyle]
  simp [Parts.styleTree, parts, Tree.allEvents_append, allEvents_styleTrees element_labelTrees,
    allEvents_styleTrees encoder.element_lineTrees, allEvents_styleTrees element_areaTrees,
    element_iconTrees]

/-- In front of the shape stand the labels, the view and the styles. -/
theorem allEvents_front (feature : Feature) :
    Tree.allEvents (encoder.parts feature).front = encoder.front feature := by
  have hview : Tree.allEvents ((encoder.parts feature).view.toList.map View.tree) =
      feature.geometry.centroid?.toList.flatMap encoder.lookAt := by
    unfold parts
    cases feature.geometry.centroid? with
    | none => rfl
    | some center => simp [View.tree, view, lookAt, textElement]
  simp only [Parts.front, front, Tree.allEvents_append, allEvents_optionalTrees, hview,
    Tree.allEvents_cons, events_styleTree, Tree.allEvents_nil, List.append_nil]
  rfl

/-- Geometries other than points are written behind their markers. -/
theorem shapeTree_of_ne_point {g : Geometry Float} (hg : ∀ p, g ≠ .point p) :
    encoder.shapeTree g =
      .element "MultiGeometry" []
        ((markers g.centroid? ++ [g]).map encoder.geometryEncoder.tree) := by
  cases g with
  | point p => exact absurd rfl (hg p)
  | _ => rfl

/-- A shape that does not break off is that of its tree. -/
theorem events_shapeTree {g : Geometry Float} (h : (encoder.shape g.centroid? g).2 = none) :
    (encoder.shapeTree g).events = (encoder.shape g.centroid? g).1 := by
  rcases eq_point_or_ne_point g with ⟨p, rfl⟩ | hne
  · exact encoder.geometryEncoder.events_tree _
  · rw [encoder.shape_of_ne_point hne] at h ⊢
    split at h
    · next hmarkers =>
      rw [if_pos hmarkers, encoder.shapeTree_of_ne_point hne]
      simp [Tree.allEvents_eq_flatMap, List.flatMap_map, GeometryEncoder.events_tree]
    · cases h

/-- A placemark that does not fail is that of the parts. -/
theorem events_parts {feature : Feature} (h : (encoder.placemark feature).failure = none) :
    (encoder.placemark feature).events = ((encoder.parts feature).tree feature.id).events := by
  have hfin := ((encoder.failure_eq_none_iff feature).1 h).1
  rw [encoder.placemark_of_isFinite hfin] at h ⊢
  have hnone : (encoder.shape feature.geometry.centroid? feature.geometry).2 = none := h
  have hshape : (encoder.parts feature).shape.events = _ := encoder.events_shapeTree hnone
  simp [Parts.tree, Event.element, Tree.allEvents_append, allEvents_front, hshape, hnone]

/-! ## Reading -/

/-- The tree is the one that the geometry has when it is encoded by itself. -/
structure IsEncoding (g : Geometry Float) (tree : Tree) : Prop where
  events : tree.events = encoder.geometryEncoder.events g
  reads : ∃ text, encoder.geometryEncoder.encodeToString g = .ok text ∧
    Markup.read? text = some [tree.node (Markup.margin encoder.context.verbose)]

/-- The tree is the shape of the geometry: a point as it is encoded by itself, or the marker at the
center, if there is a center, and the geometry, each as it is encoded by itself. -/
inductive IsShape : Geometry Float → Tree → Prop where
  | point {p : Point Float} {tree : Tree} (h : encoder.IsEncoding (.point p) tree) :
    IsShape (.point p) tree
  | marked {g : Geometry Float} {members : List Tree} (hg : ∀ p, g ≠ .point p)
    (h : List.Forall₂ encoder.IsEncoding (markers g.centroid? ++ [g]) members) :
    IsShape g (.element "MultiGeometry" [] members)

/-- The parts belong to the placemark of the feature. -/
structure HasParts (feature : Feature) (parts : Parts) : Prop where
  /-- There is a name exactly when the labeller gives one. -/
  name : ∀ text, parts.name = some text ↔
    encoder.labeller.name feature (encoder.rules feature) = .ok (some text)
  description : ∀ text, parts.description = some text ↔
    encoder.labeller.description feature = .ok (some text)
  /-- There is a view exactly when there is a center. -/
  view : parts.view = feature.geometry.centroid?.map encoder.view
  /-- Areas are outlined by a line. -/
  outlined : ∀ members ∈ parts.area, Tree.text "outline" [] "1" ∈ members → parts.line.isSome
  shape : encoder.IsShape feature.geometry parts.shape
  /-- The first point behind the view lies where the view is. -/
  anchored : ∀ view ∈ parts.view, ∃ rest,
    (Tree.namedIn "Point" [parts.styleTree, parts.shape]).head? =
      some (.element "Point" [] [.text "coordinates" [] (view.longitude ++
        encoder.context.coordinateSeparator ++ view.latitude ++ rest)])

/-- The tree of a finite geometry is what it is encoded to by itself. -/
theorem isEncoding_tree {g : Geometry Float} (h : g.isFinite) :
    encoder.IsEncoding g (encoder.geometryEncoder.tree g) where
  events := encoder.geometryEncoder.events_tree g
  reads := ⟨_, encoder.geometryEncoder.encodeToString_eq h,
    encoder.geometryEncoder.read?_render_tree Dialect.isSound_kml _ g⟩

/-- The shape of a feature that does not break off is that of its tree: finite geometries and a
finite marker. -/
theorem isShape_shapeTree {feature : Feature} (hfin : feature.geometry.isFinite)
    (h : ¬ BreaksOff feature) :
    encoder.IsShape feature.geometry (encoder.shapeTree feature.geometry) := by
  rcases eq_point_or_ne_point feature.geometry with ⟨p, hp⟩ | hne
  · rw [hp] at hfin ⊢
    exact .point (encoder.isEncoding_tree hfin)
  · have hmarkers : ∀ marker ∈ markers feature.geometry.centroid?, marker.isFinite :=
      List.all_eq_true.1 (isFinite_markers_of_not_breaksOff hfin hne h)
    rw [encoder.shapeTree_of_ne_point hne]
    refine .marked hne ?_
    rw [List.forall₂_map_right_iff, List.forall₂_same]
    intro g hg
    rcases List.mem_append.1 hg with hg | hg
    · exact encoder.isEncoding_tree (hmarkers g hg)
    · rw [List.mem_singleton.1 hg]
      exact encoder.isEncoding_tree hfin

/-- A label is written when the labeller gives one. A failure leaves none. -/
theorem settleLabel_eq_some_iff {featureId text : String} {skipped : LabelError → Skipped}
    {label : Except LabelError (Option String)} :
    (settleLabel featureId skipped label).1 = some text ↔ label = .ok (some text) := by
  cases label <;> simp [settleLabel]

/-- The element of a point holds its coordinates. -/
theorem tree_point (p : Point Float) :
    encoder.geometryEncoder.tree (.point p) =
      .element "Point" [] [.text "coordinates" [] (encoder.context.formatPoint p)] := by
  simp [GeometryEncoder.tree, GeometryEncoder.treeWith, GeometryEncoder.pointTree,
    GeometryEncoder.coordinatesTree, GeometryEncoder.listAttributes,
    RenderContext.formatCoordinates, geometryEncoder, srsAttributes, Dialect.kml]

/-- The coordinates of a point begin with those of the view at the point. -/
theorem exists_formatPoint (p : Point Float) : ∃ rest,
    encoder.context.formatPoint p = (encoder.view p).longitude ++
      encoder.context.coordinateSeparator ++ (encoder.view p).latitude ++ rest := by
  cases hz : p.z with
  | none => exact ⟨"", by simp [RenderContext.formatPoint, hz, view]⟩
  | some z =>
    exact ⟨encoder.context.coordinateSeparator ++ encoder.context.formatNumber z,
      by simp [RenderContext.formatPoint, hz, view, String.append_assoc]⟩

/-- Styles have only the elements that stand in them. -/
theorem namedIn_styleTrees {α : Type} {name tag : String} (htag : tag ≠ name)
    {members : α → List Tree} (h : ∀ a, Tree.namedIn name (members a) = []) (style : Option α) :
    Tree.namedIn name (Parts.styleTrees tag (style.map members)) = [] := by
  cases style with
  | none => rfl
  | some a => simp [Parts.styleTrees, Tree.namedIn, Tree.named, htag, h]

/-- There are no points in styles. -/
theorem named_point_styleTree (feature : Feature) :
    Tree.named "Point" (encoder.parts feature).styleTree = [] := by
  have hlabel : ∀ label, Tree.namedIn "Point" (labelTrees label) = [] := fun label => by
    simp [labelTrees, Tree.namedIn, Tree.named]
  have hline : ∀ line, Tree.namedIn "Point" (encoder.lineTrees line) = [] := fun line => by
    simp [lineTrees, Tree.namedIn, Tree.named]
  have harea : ∀ poly, Tree.namedIn "Point" (areaTrees poly) = [] := fun poly => by
    simp [areaTrees, Tree.namedIn, Tree.named]
  simp [Parts.styleTree, parts, iconTrees, Tree.namedIn, Tree.named, namedIn_styleTrees, hlabel,
    hline, harea]

/-- The first point behind the view is at the center. -/
theorem head_points (feature : Feature) {center : Point Float}
    (h : feature.geometry.centroid? = some center) :
    (Tree.namedIn "Point"
      [(encoder.parts feature).styleTree, (encoder.parts feature).shape]).head? =
        some (encoder.geometryEncoder.tree (.point center)) := by
  have hpoint := encoder.tree_point center
  -- The styles have no points, so the first one is the first one in the shape: the shape itself if
  -- the geometry is a point, or else its marker.
  have hshape : ∃ others, Tree.named "Point" (encoder.shapeTree feature.geometry) =
      encoder.geometryEncoder.tree (.point center) :: others := by
    rcases eq_point_or_ne_point feature.geometry with ⟨p, hp⟩ | hne
    · obtain rfl : p = center := by
        rw [hp] at h
        exact Option.some.inj h
      rw [hp, shapeTree, hpoint]
      exact ⟨[], by simp [Tree.named, Tree.namedIn]⟩
    · rw [encoder.shapeTree_of_ne_point hne, h, hpoint]
      exact ⟨Tree.named "Point" (encoder.geometryEncoder.tree feature.geometry),
        by simp [markers, Tree.named, Tree.namedIn, hpoint]⟩
  obtain ⟨others, hothers⟩ := hshape
  rw [Tree.namedIn, named_point_styleTree, List.nil_append, Tree.namedIn]
  show (Tree.named "Point" (encoder.shapeTree feature.geometry) ++ _).head? = _
  rw [hothers]
  rfl

/-- There is a line to outline areas with, if they are outlined. -/
theorem isOutlined_placemarkStyle (rules : List Rule) (feature : Feature) :
    (placemarkStyle rules feature).IsOutlined := by
  have h := PlacemarkStyle.isOutlined_ofInstructions
    ((rules.flatMap Rule.symbolizers).map fun symbolizer => symbolizer.instruction feature)
  exact h

/-- The parts of a feature that does not break off belong to it. -/
theorem hasParts_parts {feature : Feature} (hfin : feature.geometry.isFinite)
    (h : ¬ BreaksOff feature) : encoder.HasParts feature (encoder.parts feature) where
  name _ := settleLabel_eq_some_iff
  description _ := settleLabel_eq_some_iff
  view := rfl
  outlined := by
    intro members hmembers houtline
    obtain ⟨poly, hpoly, rfl⟩ := Option.map_eq_some_iff.1 hmembers
    have hline := isOutlined_placemarkStyle (encoder.rules feature) feature poly hpoly
      (by simpa [areaTrees] using houtline)
    simpa [parts] using hline
  shape := encoder.isShape_shapeTree hfin h
  anchored := by
    intro view hview
    obtain ⟨center, hcenter, rfl⟩ := Option.map_eq_some_iff.1 hview
    obtain ⟨rest, hrest⟩ := encoder.exists_formatPoint center
    exact ⟨rest, by rw [encoder.head_points feature hcenter, tree_point, hrest]⟩

/-- Whenever a feature by itself is encoded, its markup is read as one placemark, with parts that
belong to the feature. -/
theorem exists_parts_of_encodeFeature {feature : Feature} {document : Document}
    (h : encoder.encodeFeature feature = .ok document) : ∃ parts : Parts,
      Markup.read? document.markup =
        some [(parts.tree feature.id).node (Markup.margin encoder.context.verbose)] ∧
      encoder.HasParts feature parts := by
  rw [encodeFeature_eq] at h
  cases hfailure : (encoder.placemark feature).failure with
  | some error =>
    rw [hfailure] at h
    cases h
  | none =>
    rw [hfailure] at h
    obtain ⟨hfin, hbreak⟩ := (encoder.failure_eq_none_iff feature).1 hfailure
    have hsound := (encoder.exists_tree hfin hbreak).2.1.2
    refine ⟨encoder.parts feature, ?_, encoder.hasParts_parts hfin hbreak⟩
    cases h
    rw [encoder.events_parts hfailure] at hsound ⊢
    exact Markup.read?_fragment _ hsound

/-- A line to be drawn by `streetMap`. -/
def street : Feature where
  id := "a"
  geometry := .lineString { points := [{ x := 0.0, y := 0.0 }, { x := 4.0, y := 2.0 }] }

/-- An encoder that outlines and names what it draws. -/
def streetMap : Encoder where
  context := {}
  style := {
    rules := [{
      symbolizers :=
        [.polygon { stroke := some { color := .red } }, .text { label := "Main Street" }] }] }

/-- A street with a name: its placemark has the name, and a view at the middle of the line. -/
theorem exists_parts_of_encodeFeature_street : ∃ document parts,
    streetMap.encodeFeature street = .ok document ∧
      Markup.read? document.markup = some [(Parts.tree parts "a").node none] ∧
      streetMap.HasParts street parts ∧ parts.name = some "Main Street" ∧
      parts.view = some { longitude := "2", latitude := "1" } := by
  have hnone : (streetMap.placemark street).failure = none := by decide +kernel
  obtain ⟨document, hok⟩ : ∃ document, streetMap.encodeFeature street = .ok document :=
    ⟨_, by rw [encodeFeature_eq, hnone]⟩
  obtain ⟨parts, hread, hparts⟩ := exists_parts_of_encodeFeature _ hok
  refine ⟨document, parts, hok, hread, hparts, (hparts.name _).2 (by decide +kernel), ?_⟩
  rw [hparts.view]
  decide +kernel

end Encoder

end Cartouche.Kml
