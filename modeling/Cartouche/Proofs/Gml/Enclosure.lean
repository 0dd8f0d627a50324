import Cartouche.Proofs.Gml.Header
import Cartouche.Proofs.Number.Places

/-!
# The printed box encloses the printed coordinates

The header shows the bounds of the envelope after they were rounded, and the members show the
coordinates after they were rounded, each by itself. Since rounding is monotone, what is printed is
in order as the exact numbers are: the box that is printed encloses every point that is printed,
at every number of places (`encloses_envelope`).
-/

namespace Cartouche.Gml.Encoder

variable (encoder : Encoder)

/-- The header prints its bounds as the coordinates of two points, and rounded as they are printed
the coordinates of all points lie between them. Without points the bounds are unknown. -/
inductive PrintsAround (envelope : Envelope Float) (points : List (Point Float)) : Prop where
  | unknown (nil : points = []) (header : encoder.boundedBy envelope = unknownBounds)
  | box (low high : Point Float)
      (header : encoder.boundedBy envelope =
        Event.element "gml:boundedBy" []
          (Event.element "gml:Box" (srsAttributes encoder.featureType.srsName)
            (Event.textElement "gml:coordinates" encoder.context.coordinateAttributes
              (encoder.context.formatCoordinates [low, high]))))
      (flat : low.z = none ∧ high.z = none)
      (xBounds : ∀ p ∈ points,
        encoder.context.roundNumber low.x ≤ encoder.context.roundNumber p.x ∧
          encoder.context.roundNumber p.x ≤ encoder.context.roundNumber high.x)
      (yBounds : ∀ p ∈ points,
        encoder.context.roundNumber low.y ≤ encoder.context.roundNumber p.y ∧
          encoder.context.roundNumber p.y ≤ encoder.context.roundNumber high.y)

/-- Coordinates in the order of their ranks are in order when they are printed. -/
theorem roundNumber_le_of_rank_le {a b : Float} (ha : a.isFinite) (hb : b.isFinite)
    (h : Binary64.rank a ≤ Binary64.rank b) :
    encoder.context.roundNumber a ≤ encoder.context.roundNumber b := by
  have hle := Binary64.le_iff_rank_le (Binary64.isNaN_of_isFinite ha)
    (Binary64.isNaN_of_isFinite hb)
  exact encoder.context.roundNumber_mono ha hb (hle.2 h)

/-- A least box around finite points encloses them as they are printed. -/
theorem printsAround_of_isTight {envelope : Envelope Float} {points : List (Point Float)}
    (h : envelope.IsTight points) (hfin : ∀ p ∈ points, p.isFinite) :
    encoder.PrintsAround envelope points := by
  cases hrect : envelope.rect with
  | none =>
    have hempty : envelope.isEmpty := by rw [Envelope.isEmpty, hrect]; rfl
    exact .unknown (h.isEmpty_iff.1 hempty) (encoder.boundedBy_eq_unknownBounds_iff.2 hempty)
  | some rect =>
    have hbounds := h.isFinite hfin hrect
    refine .box ⟨rect.xMin, rect.yMin, none⟩ ⟨rect.xMax, rect.yMax, none⟩ ?_ ⟨rfl, rfl⟩ ?_ ?_
    · rw [boundedBy, hrect]
    · intro p hp
      obtain ⟨hlow, hhigh, -, -⟩ := h.inside hfin hrect hp
      have hx := (p.isFinite_x_y (hfin p hp)).1
      exact ⟨encoder.roundNumber_le_of_rank_le hbounds.xMin hx hlow,
        encoder.roundNumber_le_of_rank_le hx hbounds.xMax hhigh⟩
    · intro p hp
      obtain ⟨-, -, hlow, hhigh⟩ := h.inside hfin hrect hp
      have hy := (p.isFinite_x_y (hfin p hp)).2
      exact ⟨encoder.roundNumber_le_of_rank_le hbounds.yMin hy hlow,
        encoder.roundNumber_le_of_rank_le hy hbounds.yMax hhigh⟩

/-- In every document that was encoded, of whatever source, the box in the header encloses what is
printed of the points of all features whose geometries are written: the bounds and the coordinates
are compared as the rounded doubles of which the digits are shown. This holds since the rounding of
numbers is monotone on all finite doubles, those that cannot be scaled included. -/
theorem header_encloses {source : Source} {document : Document}
    (h : (encoder.encode source).result = .ok document) :
    (∃ envelope,
      document.markup = Markup.render encoder.context.verbose encoder.opening ++
        encoder.header envelope ++
          encoder.openingSpacing.text (encoder.body source.features) ∧
      encoder.PrintsAround envelope (finitePoints source.features)) ∧
      ∀ a b : Float, a.isFinite → b.isFinite → a ≤ b →
        encoder.context.roundNumber a ≤ encoder.context.roundNumber b := by
  obtain rfl := encoder.eq_of_encode h
  refine ⟨⟨envelope source.features, rfl, ?_⟩, fun a b => encoder.context.roundNumber_mono⟩
  exact encoder.printsAround_of_isTight (isTight_envelope source.features)
    fun p hp => isFinite_of_mem_finitePoints hp

/-- Of these two places one is so far away that its coordinate is not scaled. -/
theorem header_encloses_far :
    let encoder : Encoder := { context := { numDecimals := 15 }, featureType := {} }
    let far : Point Float := { x := 1.7e308, y := -0.5 }
    let near : Point Float := { x := 0.25, y := 3 }
    let source := Source.ofFeatures [
      { id := "far", geometry := .point far }, { id := "near", geometry := .point near }]
    finitePoints source.features = [far, near] ∧
      ∃ document envelope,
        (encoder.encode source).result = .ok document ∧
        document.markup = Markup.render encoder.context.verbose encoder.opening ++
          encoder.header envelope ++
            encoder.openingSpacing.text (encoder.body source.features) ∧
        encoder.PrintsAround envelope (finitePoints source.features) ∧
        encoder.context.roundNumber near.x ≤ encoder.context.roundNumber far.x := by
  intro encoder far near source
  have hencode := encoder.encode_ofFeatures rfl source.features
  obtain ⟨⟨envelope, hmarkup, hprints⟩, hmono⟩ := encoder.header_encloses hencode
  rw [Source.features_ofFeatures] at hmarkup hprints
  have hfar : far.isFinite := by decide +kernel
  have hnear : near.isFinite := by decide +kernel
  have hpoints : finitePoints source.features = [far, near] := by
    rw [Source.features_ofFeatures]
    simp [finitePoints, Geometry.isFinite, hfar, hnear]
  exact ⟨hpoints, _, envelope, hencode, hmarkup, hprints,
    hmono near.x far.x (by decide +kernel) (by decide +kernel) (by decide +kernel)⟩

end Cartouche.Gml.Encoder
