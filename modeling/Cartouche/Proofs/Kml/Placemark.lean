import Cartouche.Kml.Encoder
import Cartouche.Proofs.Markup.Geometry

/-!
# Placemarks as trees

What is written of a feature is one of three things: nothing, when a coordinate of its geometry is
not finite (`placemark_of_not_isFinite`); a placemark, whose markup is that of a tree
(`exists_tree`); or, when the center of a finite geometry is not finite itself, the beginning of a
placemark in which two elements stay open (`placemark_of_breaksOff`).
-/

namespace Cartouche.Kml

open Markup (IsForest isTag_nil)

/-- The geometry has finite coordinates only, and yet a center that is not finite; a point is its
own center. -/
def BreaksOff (feature : Feature) : Prop :=
  feature.geometry.isFinite ∧ (∀ p, feature.geometry ≠ .point p) ∧
    ∃ center, feature.geometry.centroid? = some center ∧ center.isFinite = false

namespace Encoder

variable (encoder : Encoder)

/-! ## Parts -/

/-- An element with a text can be read, whatever the text is. -/
theorem isForest_textElement {name : String} (h : Markup.isName name.toList) (content : String) :
    IsForest (textElement name content) :=
  .textElement (isTag_nil.2 h) content

/-- An optional text can be read, if its element has a name. -/
theorem isForest_optionalElement {name : String} (h : Markup.isName name.toList)
    (content : Option String) : IsForest (optionalElement name content) :=
  .flatMap fun text _ => isForest_textElement h text

/-- A view can be read. -/
theorem isForest_lookAt (center : Point Float) : IsForest (encoder.lookAt center) :=
  .element (isTag_nil.2 (by decide))
    (.append (isForest_textElement (by decide) _) (isForest_textElement (by decide) _))

/-- The style of an icon can be read. -/
theorem isForest_iconStyle (icon : IconStyle) : IsForest (encoder.iconStyle icon) :=
  .element (isTag_nil.2 (by decide))
    (.append
      (.append (isForest_textElement (by decide) _) (isForest_textElement (by decide) _))
      (.element (isTag_nil.2 (by decide)) (isForest_textElement (by decide) _)))

/-- The style of a label can be read. -/
theorem isForest_labelStyle (label : LabelStyle) : IsForest (labelStyle label) :=
  .element (isTag_nil.2 (by decide)) (isForest_textElement (by decide) _)

/-- The style of a line can be read. -/
theorem isForest_lineStyle (line : LineStyle) : IsForest (encoder.lineStyle line) :=
  .element (isTag_nil.2 (by decide))
    (.append (isForest_textElement (by decide) _) (isForest_textElement (by decide) _))

/-- The style of an area can be read. -/
theorem isForest_polyStyle (poly : PolyStyle) : IsForest (polyStyle poly) :=
  .element (isTag_nil.2 (by decide))
    (.append (isForest_textElement (by decide) _) (isForest_textElement (by decide) _))

/-- The block of styles can be read, with any of its parts missing. -/
theorem isForest_styleElement (style : PlacemarkStyle) : IsForest (encoder.styleElement style) :=
  .element (isTag_nil.2 (by decide))
    (.append
      (.append
        (.append (.flatMap fun icon _ => encoder.isForest_iconStyle icon)
          (.flatMap fun label _ => isForest_labelStyle label))
        (.flatMap fun line _ => encoder.isForest_lineStyle line))
      (.flatMap fun poly _ => isForest_polyStyle poly))

/-- A geometry can be read. -/
theorem isForest_geometry (g : Geometry Float) : IsForest (encoder.geometryEncoder.events g) :=
  GeometryEncoder.isForest_events Dialect.isSound_kml g

/-! ## Shapes -/

/-- A point is written without a marker. -/
theorem shape_point (center : Option (Point Float)) (p : Point Float) :
    encoder.shape center (.point p) = (encoder.geometryEncoder.events (.point p), none) := rfl

/-- The markers at the center, if there is a center. -/
def markers (center : Option (Point Float)) : List (Geometry Float) :=
  center.toList.map Geometry.point

/-- The marker is finite when there is no center or a finite one. -/
theorem isFinite_markers (center : Option (Point Float)) :
    (markers center).all Geometry.isFinite ↔ ∀ c ∈ center, c.isFinite := by
  cases center with
  | none => simp [markers]
  | some c => simp [markers, Geometry.isFinite]

/-- Other geometries are written behind a marker, if it is finite. -/
theorem shape_of_ne_point {g : Geometry Float} (hg : ∀ p, g ≠ .point p)
    (center : Option (Point Float)) :
    encoder.shape center g =
      if (markers center).all Geometry.isFinite then
        (Event.element "MultiGeometry" []
          ((markers center).flatMap encoder.geometryEncoder.events ++
            encoder.geometryEncoder.events g), none)
      else
        ([.startTag "MultiGeometry" []], some .nonFiniteCoordinate) := by
  cases g with
  | point p => exact absurd rfl (hg p)
  | lineString line => rfl
  | polygon area => rfl
  | multiPoint parts => rfl
  | multiLineString parts => rfl
  | multiPolygon parts => rfl
  | collection members => rfl

/-- The marker of a feature that does not break off is finite. -/
theorem isFinite_markers_of_not_breaksOff {feature : Feature} (hfin : feature.geometry.isFinite)
    (hne : ∀ p, feature.geometry ≠ .point p) (h : ¬ BreaksOff feature) :
    (markers feature.geometry.centroid?).all Geometry.isFinite := by
  refine (isFinite_markers _).2 fun c hc => ?_
  by_cases hcfin : c.isFinite
  · exact hcfin
  · exact absurd ⟨hfin, hne, c, hc, by simpa using hcfin⟩ h

/-- A geometry is a point or it is none. -/
theorem eq_point_or_ne_point (g : Geometry Float) : (∃ p, g = .point p) ∨ ∀ p, g ≠ .point p := by
  by_cases h : ∃ p, g = .point p
  · exact .inl h
  · exact .inr fun p heq => h ⟨p, heq⟩

/-- The shape of a feature that does not break off is a tree. -/
theorem shape_of_not_breaksOff {feature : Feature} (hfin : feature.geometry.isFinite)
    (h : ¬ BreaksOff feature) :
    IsForest (encoder.shape feature.geometry.centroid? feature.geometry).1 ∧
      (encoder.shape feature.geometry.centroid? feature.geometry).2 = none := by
  rcases eq_point_or_ne_point feature.geometry with ⟨p, hp⟩ | hne
  · rw [hp, shape_point]
    exact ⟨encoder.isForest_geometry _, rfl⟩
  · rw [encoder.shape_of_ne_point hne, if_pos (isFinite_markers_of_not_breaksOff hfin hne h)]
    exact ⟨.element (isTag_nil.2 (by decide))
      (.append (.flatMap fun marker _ => encoder.isForest_geometry marker)
        (encoder.isForest_geometry _)), rfl⟩

/-- The shape of a feature that breaks off is a tag. -/
theorem shape_of_breaksOff {feature : Feature} (h : BreaksOff feature) :
    encoder.shape feature.geometry.centroid? feature.geometry =
      ([.startTag "MultiGeometry" []], some .nonFiniteCoordinate) := by
  obtain ⟨-, hne, center, hcenter, hfin⟩ := h
  have hmarkers : ¬ (markers feature.geometry.centroid?).all Geometry.isFinite := by
    rw [isFinite_markers]
    intro hall
    rw [hall center hcenter] at hfin
    cases hfin
  rw [encoder.shape_of_ne_point hne, if_neg hmarkers]

/-! ## Placemarks -/

/-- The label of a feature and what is said in its place. -/
def nameOf (feature : Feature) : Option String × List Diagnostic :=
  settleLabel feature.id .name (encoder.labeller.name feature (encoder.rules feature))

/-- The description of a feature and what is said in its place. -/
def descriptionOf (feature : Feature) : Option String × List Diagnostic :=
  settleLabel feature.id .description (encoder.labeller.description feature)

/-- What stands in front of the geometry in a placemark. -/
def front (feature : Feature) : List Event :=
  optionalElement "name" (encoder.nameOf feature).1 ++
    optionalElement "description" (encoder.descriptionOf feature).1 ++
    feature.geometry.centroid?.toList.flatMap encoder.lookAt ++
    encoder.styleElement (placemarkStyle (encoder.rules feature) feature)

/-- What stands in front of the shape can be read. It does not depend on whether the shape can be
written. -/
theorem isForest_front (feature : Feature) : IsForest (encoder.front feature) :=
  .append
    (.append
      (.append (isForest_optionalElement (by decide) _) (isForest_optionalElement (by decide) _))
      (.flatMap fun center _ => encoder.isForest_lookAt center))
    (encoder.isForest_styleElement _)

/-- Nothing is written of a feature whose geometry is not finite. -/
theorem placemark_of_not_isFinite {feature : Feature} (h : ¬ feature.geometry.isFinite) :
    encoder.placemark feature = { failure := some .nonFiniteCoordinate } := by
  simp [placemark, GeometryEncoder.validate, h]

/-- What is written of a feature whose geometry is finite. -/
theorem placemark_of_isFinite {feature : Feature} (h : feature.geometry.isFinite) :
    encoder.placemark feature =
      { events :=
          .startTag "Placemark" [("id", feature.id)] :: encoder.front feature ++
            (encoder.shape feature.geometry.centroid? feature.geometry).1 ++
            (if (encoder.shape feature.geometry.centroid? feature.geometry).2.isNone then
              [.endTag "Placemark"] else [])
        diagnostics := (encoder.nameOf feature).2 ++ (encoder.descriptionOf feature).2
        failure := (encoder.shape feature.geometry.centroid? feature.geometry).2 } := by
  simp [placemark, GeometryEncoder.validate, h, front, nameOf, descriptionOf]

/-- The id of a feature can stand in any tag. -/
theorem isTag_id (id : String) {name : String} (h : Markup.isName name.toList) :
    Markup.IsTag name [("id", id)] :=
  ⟨h, by simp; decide, by simp⟩

/-- A feature that does not break off is written as a tree. -/
theorem exists_tree {feature : Feature} (hfin : feature.geometry.isFinite)
    (h : ¬ BreaksOff feature) :
    (encoder.placemark feature).failure = none ∧ IsForest (encoder.placemark feature).events ∧
      ∃ members, (encoder.placemark feature).events =
        (Markup.Tree.element "Placemark" [("id", feature.id)] members).events := by
  obtain ⟨hshape, hnone⟩ := encoder.shape_of_not_breaksOff hfin h
  have hcontent := (encoder.isForest_front feature).append hshape
  have hevents : (encoder.placemark feature).events =
      Event.element "Placemark" [("id", feature.id)] (encoder.front feature ++
        (encoder.shape feature.geometry.centroid? feature.geometry).1) := by
    simp [encoder.placemark_of_isFinite hfin, hnone, Event.element]
  obtain ⟨members, hmembers⟩ := hcontent.1
  refine ⟨?_, ?_, members, ?_⟩
  · rw [encoder.placemark_of_isFinite hfin]
    exact hnone
  · rw [hevents]
    exact .element (isTag_id feature.id (by decide)) hcontent
  · rw [hevents, Markup.Tree.events_element, hmembers]

/-- Of a feature that breaks off, two elements stay open. -/
theorem placemark_of_breaksOff {feature : Feature} (h : BreaksOff feature) :
    (encoder.placemark feature).failure = some .nonFiniteCoordinate ∧
      (encoder.placemark feature).events = .startTag "Placemark" [("id", feature.id)] ::
        encoder.front feature ++ [.startTag "MultiGeometry" []] := by
  have hshape := encoder.shape_of_breaksOff h
  rw [encoder.placemark_of_isFinite h.1, hshape]
  exact ⟨rfl, by simp⟩

/-- A feature is reported when its geometry is not finite, and when it breaks off. -/
theorem failure_eq_none_iff (feature : Feature) :
    (encoder.placemark feature).failure = none ↔
      feature.geometry.isFinite ∧ ¬ BreaksOff feature := by
  by_cases hfin : feature.geometry.isFinite
  · by_cases h : BreaksOff feature
    · simp [(encoder.placemark_of_breaksOff h).1, h]
    · simp [(encoder.exists_tree hfin h).1, hfin, h]
  · simp [encoder.placemark_of_not_isFinite hfin, hfin]

/-- A feature by itself is encoded to the text of its placemark, unless that fails. -/
theorem encodeFeature_eq (feature : Feature) :
    encoder.encodeFeature feature =
      match (encoder.placemark feature).failure with
      | some error => .error (.encode error)
      | none => .ok {
          markup := Markup.render encoder.context.verbose (encoder.placemark feature).events
          diagnostics := (encoder.placemark feature).diagnostics } := by
  have hfinish :=
    Writer.finish_writeAll encoder.context.verbose (encoder.placemark feature).events
  unfold encodeFeature
  cases hfailure : (encoder.placemark feature).failure with
  | some error => simp only [hfailure]; rfl
  | none => simp only [hfailure, hfinish]; rfl

/-! ## Diagnostics -/

/-- The diagnostic concerns a geometry. -/
def isGeometryStage (d : Diagnostic) : Bool := d.skipped.stage == "Geometry"

/-- Labels are not reported as geometries. -/
theorem not_isGeometryStage_of_mem {feature : Feature} {d : Diagnostic}
    (h : d ∈ (encoder.placemark feature).diagnostics) : isGeometryStage d = false := by
  have hlabel : ∀ skipped : LabelError → Skipped,
      (∀ error, (skipped error).stage ≠ "Geometry") →
      ∀ label, d ∈ (settleLabel feature.id skipped label).2 → isGeometryStage d = false := by
    intro skipped hstage label hd
    cases label with
    | ok text => cases hd
    | error error =>
      obtain rfl : d = { featureId := feature.id, skipped := skipped error } := by
        simpa [settleLabel] using hd
      simpa [isGeometryStage] using hstage error
  by_cases hfin : feature.geometry.isFinite
  · rw [encoder.placemark_of_isFinite hfin] at h
    rcases List.mem_append.1 h with h | h
    · exact hlabel .name (by simp [Skipped.stage]) _ h
    · exact hlabel .description (by simp [Skipped.stage]) _ h
  · rw [encoder.placemark_of_not_isFinite hfin] at h
    cases h

end Encoder

end Cartouche.Kml
