import Cartouche.Proofs.Kml.Placemark

/-!
# Labels that fail

A labeller may fail for a feature. Then the label is missing from the placemark and a diagnostic
tells why; nothing else of the placemark depends on it (`placemark_silenced`). So a feature is
encoded as it is with the labeller that gives no label in place of one that fails, and what is said
about its labels is known beforehand (`encodeFeature_silenced`).
-/

namespace Cartouche

/-- A label, and none in place of one that fails. -/
def silence (label : Except LabelError (Option String)) : Except LabelError (Option String) :=
  match label with
  | .ok text => .ok text
  | .error _ => .ok none

/-- The labeller that gives no label where another one fails. -/
def Labeller.silenced (labeller : Labeller) : Labeller where
  name feature rules := silence (labeller.name feature rules)
  description feature := silence (labeller.description feature)

namespace Kml.Encoder

/-- A label that fails is written like one that is not there, and only then something is said. -/
theorem settleLabel_silence (featureId : String) (skipped : LabelError → Skipped)
    (label : Except LabelError (Option String)) :
    settleLabel featureId skipped (silence label) =
      ((settleLabel featureId skipped label).1, []) := by
  cases label <;> rfl

variable (encoder : Encoder)

/-- The encoder with the labeller that does not fail. -/
def silenced : Encoder := { encoder with labeller := encoder.labeller.silenced }

/-- What is said about the labels of a feature: why its name fails and why its description fails, in
this order and as far as they do. -/
def labelTroubles (feature : Feature) : List Diagnostic :=
  (match encoder.labeller.name feature (encoder.rules feature) with
    | .ok _ => []
    | .error error => [{ featureId := feature.id, skipped := .name error }]) ++
  (match encoder.labeller.description feature with
    | .ok _ => []
    | .error error => [{ featureId := feature.id, skipped := .description error }])

/-- The name is the same when failures are silenced, and nothing is said about it. -/
theorem nameOf_silenced (feature : Feature) :
    encoder.silenced.nameOf feature = ((encoder.nameOf feature).1, []) :=
  settleLabel_silence feature.id .name _

/-- The description is the same when failures are silenced, and nothing is said about it. -/
theorem descriptionOf_silenced (feature : Feature) :
    encoder.silenced.descriptionOf feature = ((encoder.descriptionOf feature).1, []) :=
  settleLabel_silence feature.id .description _

/-- With the labeller that does not fail the same placemark is written, and nothing is said. -/
theorem placemark_silenced (feature : Feature) :
    encoder.silenced.placemark feature = { encoder.placemark feature with diagnostics := [] } := by
  by_cases hfin : feature.geometry.isFinite
  · have hfront : encoder.silenced.front feature = encoder.front feature := by
      unfold front
      rw [nameOf_silenced, descriptionOf_silenced]
      rfl
    rw [placemark_of_isFinite _ hfin, placemark_of_isFinite _ hfin, hfront, nameOf_silenced,
      descriptionOf_silenced]
    rfl
  · rw [placemark_of_not_isFinite _ hfin, placemark_of_not_isFinite _ hfin]

/-- What is said about a placemark concerns its labels, unless nothing is written at all. -/
theorem diagnostics_placemark {feature : Feature} (h : feature.geometry.isFinite) :
    (encoder.placemark feature).diagnostics = encoder.labelTroubles feature := by
  rw [placemark_of_isFinite _ h]
  simp only [nameOf, descriptionOf, labelTroubles, settleLabel]
  cases encoder.labeller.name feature (encoder.rules feature) <;>
    cases encoder.labeller.description feature <;> rfl

/-- With a labeller that fails and with the one that gives no label instead, a feature fails with
the same error, or it has the same markup. Then the first one says of each label that fails why it
does, the name before the description, and the other one says nothing. -/
theorem encodeFeature_silenced (feature : Feature) :
    (∃ error, encoder.encodeFeature feature = .error error ∧
      encoder.silenced.encodeFeature feature = .error error) ∨
    ∃ markup,
      encoder.encodeFeature feature =
        .ok { markup, diagnostics := encoder.labelTroubles feature } ∧
      encoder.silenced.encodeFeature feature = .ok { markup, diagnostics := [] } := by
  rw [encodeFeature_eq, encodeFeature_eq, placemark_silenced]
  cases hfailure : (encoder.placemark feature).failure with
  | some error => exact .inl ⟨_, rfl, rfl⟩
  | none =>
    obtain ⟨hfin, -⟩ := (encoder.failure_eq_none_iff feature).1 hfailure
    rw [encoder.diagnostics_placemark hfin]
    exact .inr ⟨_, rfl, rfl⟩

end Kml.Encoder

end Cartouche
