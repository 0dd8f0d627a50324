import Cartouche.Proofs.Kml.Document
import Cartouche.Proofs.Plane.Moderate

/-!
# Centers that can be written

A feature by itself is encoded unless its geometry is not finite or its center is not
(`exists_encodeFeature_iff`). The center of a finite geometry is finite as long as the coordinates
are moderate, and then nothing but the geometry itself decides
(`exists_encodeFeature_iff_isFinite`). It is not finite for every finite geometry: two points at the
end of the range have a sum beyond it (`encodeFeature_far`), although the point between them is one
that can be written.
-/

namespace Cartouche.Kml

/-- A feature with a moderate geometry does not break off. -/
theorem not_breaksOff_of_isModerate {feature : Feature} (h : feature.geometry.IsModerate) :
    ¬ BreaksOff feature := by
  rintro ⟨hfin, -, center, hcenter, hbad⟩
  have hcenterfin :=
    Geometry.isFinite_of_mem_centroid? _ h (Geometry.isFinite_iff.1 hfin) hcenter
  rw [hbad] at hcenterfin
  cases hcenterfin

namespace Encoder

variable (encoder : Encoder)

/-- A feature is encoded by itself when its geometry is finite and its center is. -/
theorem exists_encodeFeature_iff (feature : Feature) :
    (∃ document, encoder.encodeFeature feature = .ok document) ↔
      feature.geometry.isFinite ∧ ¬ BreaksOff feature := by
  rw [← encoder.failure_eq_none_iff, encoder.encodeFeature_eq]
  cases (encoder.placemark feature).failure with
  | none => simp
  | some error => simp

/-- A moderate geometry that is finite has no center or a finite one, and a feature with a moderate
geometry can be encoded exactly when the geometry is finite. -/
theorem exists_encodeFeature_iff_isFinite {feature : Feature}
    (h : feature.geometry.IsModerate) :
    (feature.geometry.isFinite → ∀ center, feature.geometry.centroid? = some center →
      center.isFinite) ∧
    ((∃ document, encoder.encodeFeature feature = .ok document) ↔ feature.geometry.isFinite) := by
  refine ⟨fun hfin center hcenter => ?_, ?_⟩
  · exact Geometry.isFinite_of_mem_centroid? _ h (Geometry.isFinite_iff.1 hfin) hcenter
  · rw [encoder.exists_encodeFeature_iff]
    exact and_iff_left (not_breaksOff_of_isModerate h)

/-- A line from one end of the range of doubles to the other, and a triangle. -/
def across : Feature where
  id := "a"
  geometry := .collection [
    .lineString { points := [{ x := -1e308, y := 0.0 }, { x := 1e308, y := 0.0 }] },
    .polygon { exterior := { points := [
      { x := 0.0, y := 0.0 }, { x := 4.0, y := 0.0 }, { x := 0.0, y := 3.0 },
      { x := 0.0, y := 0.0 }] } }]

/-- Along a line even coordinates at the end of the range are moderate. Those of an area are when
they are small. -/
theorem exists_encodeFeature_across :
    ∃ document, encodeFeature { context := {} } across = .ok document := by
  have hsmall {x : Float} (h : Binary64.sizeBits x ≤ Binary64.powerBits (200 : Nat)) :
      Binary64.IsWithin x 200 :=
    Binary64.isWithin_of_sizeBits_le h (by norm_num)
  have hzero : Binary64.IsWithin 0.0 200 := hsmall (by decide +kernel)
  have hthree : Binary64.IsWithin 3.0 200 := hsmall (by decide +kernel)
  have hfour : Binary64.IsWithin 4.0 200 := hsmall (by decide +kernel)
  have hflat (x y : Float) : Point.HasLowElevation { x, y } := by simp [Point.HasLowElevation]
  have hmoderate : across.geometry.IsModerate := by
    refine ⟨by simp [Geometry.IsModerate, hflat], Geometry.isModerate_of_isWithin _ ?_, trivial⟩
    simp only [Geometry.points_polygon, Polygon.points, List.flatMap_nil, List.append_nil,
      List.forall_mem_cons, List.not_mem_nil, false_imp_iff, implies_true, and_true]
    exact ⟨⟨⟨hzero, hzero⟩, hflat _ _⟩, ⟨⟨hfour, hzero⟩, hflat _ _⟩, ⟨⟨hzero, hthree⟩, hflat _ _⟩,
      ⟨⟨hzero, hzero⟩, hflat _ _⟩⟩
  exact (exists_encodeFeature_iff_isFinite { context := {} } hmoderate).2.2 (by decide +kernel)

/-- Not every finite geometry has a finite center: that of `far` is infinite, and the feature cannot
be encoded although its own coordinates are finite. -/
theorem encodeFeature_far : far.geometry.isFinite ∧
    (∃ center, far.geometry.centroid? = some center ∧ center.isFinite = false) ∧
    encodeFeature { context := {} } far = .error (.encode .nonFiniteCoordinate) := by
  obtain ⟨hfin, -, hcenter⟩ := breaksOff_far
  refine ⟨hfin, hcenter, ?_⟩
  rw [encodeFeature_eq, (placemark_of_breaksOff _ breaksOff_far).1]

end Encoder

end Cartouche.Kml
