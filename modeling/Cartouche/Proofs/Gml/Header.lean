import Cartouche.Proofs.Gml.Document
import Cartouche.Proofs.Number.Format
import Cartouche.Proofs.Plane.Bounds

/-!
# The header of tabular documents

The bounding box in the header is the least one around the points of the features whose geometry is
written, and no others (`isTight_envelope`). The order of the features leaves no trace in it: two
least boxes around the same points differ in the signs of zeros only, and zeros are written without
sign (`boundedBy_congr`).
-/

namespace Cartouche.Gml.Encoder

/-- The points of the features whose geometries have finite coordinates only. -/
def finitePoints (features : List Feature) : List (Point Float) :=
  (features.filter fun feature => feature.geometry.isFinite).flatMap fun feature =>
    feature.geometry.points

/-- The points that count for the header are finite, elevations included. -/
theorem isFinite_of_mem_finitePoints {features : List Feature} {p : Point Float}
    (hp : p ∈ finitePoints features) : p.isFinite := by
  obtain ⟨feature, hfeature, hmem⟩ := List.mem_flatMap.1 hp
  exact Geometry.isFinite_iff.1 (List.mem_filter.1 hfeature).2 p hmem

/-- Features that are skipped leave the envelope as it is. -/
theorem foldl_widen (envelope : Envelope Float) (features : List Feature) :
    features.foldl widen envelope = (finitePoints features).foldl .insert envelope := by
  induction features generalizing envelope with
  | nil => rfl
  | cons feature rest ih =>
    rw [List.foldl_cons, ih]
    by_cases h : feature.geometry.isFinite
    · simp [widen, finitePoints, h, GeometryEncoder.validate, Envelope.expand]
    · simp [widen, finitePoints, h, GeometryEncoder.validate]

/-- The envelope in the header is the least one around the points that are written. -/
theorem isTight_envelope (features : List Feature) :
    (envelope features).IsTight (finitePoints features) := by
  rw [envelope, foldl_widen]
  exact Envelope.isTight_foldl_insert fun p hp => isFinite_of_mem_finitePoints hp

/-- The same features have the same points. -/
theorem mem_finitePoints_of_perm {features others : List Feature} (h : features.Perm others)
    (p : Point Float) : p ∈ finitePoints features ↔ p ∈ finitePoints others :=
  ((h.filter _).flatMap_right _).mem_iff

variable (encoder : Encoder)

/-- What is written in the place of the bounding box of nothing. -/
def unknownBounds : List Event :=
  Event.element "gml:boundedBy" [] (Event.textElement "gml:null" [] "unknown")

/-- The bounds are unknown when there are no points. -/
theorem boundedBy_eq_unknownBounds_iff {envelope : Envelope Float} :
    encoder.boundedBy envelope = unknownBounds ↔ envelope.isEmpty := by
  unfold boundedBy unknownBounds Envelope.isEmpty
  cases envelope.rect with
  | none => simp
  | some rect => simp [Event.element, Event.textElement]

/-- Bounds that compare equal are written in the same way. -/
theorem boundedBy_congr {e f : Envelope Float} (h : Option.Rel Rect.SameRanks e.rect f.rect) :
    encoder.boundedBy e = encoder.boundedBy f := by
  unfold boundedBy
  generalize e.rect = r at h
  generalize f.rect = s at h
  cases h with
  | none => rfl
  | some h =>
    have hnumber := fun {a b : Float} => encoder.context.formatNumber_congr (a := a) (b := b)
    simp only [RenderContext.formatCoordinates, List.map_cons, List.map_nil,
      RenderContext.formatPoint, hnumber h.xMin, hnumber h.yMin, hnumber h.xMax, hnumber h.yMax]

/-- The header depends on the features alone, not on their order. -/
theorem header_perm {features others : List Feature} (h : features.Perm others) :
    encoder.header (envelope others) = encoder.header (envelope features) := by
  have hsame := (isTight_envelope features).sameRanks (isTight_envelope others)
    (fun p hp => isFinite_of_mem_finitePoints hp) (mem_finitePoints_of_perm h)
  rw [header, header, encoder.boundedBy_congr hsame]

/-- Every document of features from memory has a header behind its opening, in which stands the
least box around the points of the features whose geometries are finite: all of these points lie in
it, each of its bounds is a coordinate of one of them, it is unknown only without points, and in
another order the same features have the same header. -/
theorem encode_header (context : RenderContext) (featureType : FeatureType)
    (features : List Feature) :
    let encoder : Encoder := { context, featureType }
    ∃ document envelope,
      (encoder.encode (.ofFeatures features)).result = .ok document ∧
      document.markup = Markup.render context.verbose encoder.opening ++ encoder.header envelope ++
        encoder.openingSpacing.text (encoder.body features) ∧
      envelope.IsTight (finitePoints features) ∧
      (encoder.boundedBy envelope = unknownBounds ↔ finitePoints features = []) ∧
      ∀ others, features.Perm others → ∃ document' envelope',
        (encoder.encode (.ofFeatures others)).result = .ok document' ∧
        document'.markup = Markup.render context.verbose encoder.opening ++
          encoder.header envelope' ++ encoder.openingSpacing.text (encoder.body others) ∧
        encoder.header envelope' = encoder.header envelope := by
  intro encoder
  have htight := isTight_envelope features
  refine ⟨encoder.document features, envelope features, encoder.encode_ofFeatures rfl features, rfl,
    htight, ?_, fun others h => ?_⟩
  · rw [boundedBy_eq_unknownBounds_iff]
    exact htight.isEmpty_iff
  · exact ⟨encoder.document others, envelope others, encoder.encode_ofFeatures rfl others, rfl,
      encoder.header_perm h⟩

end Cartouche.Gml.Encoder
