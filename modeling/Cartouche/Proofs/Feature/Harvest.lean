import Cartouche.Feature.Source

/-!
# What a harvest gives

A harvest that succeeds has folded all features that the source delivered, in their order
(`Source.eq_of_harvest`), and a source of features from memory always succeeds when nobody asks to
abort (`Source.harvest_ofFeatures`).
-/

namespace Cartouche

/-- The features that a script delivers before anything else. -/
def delivered : List Delivery → List Feature
  | .feature feature :: rest => feature :: delivered rest
  | _ => []

/-- From a script of features all are delivered. -/
theorem delivered_map_feature (features : List Feature) :
    delivered (features.map .feature) = features := by
  induction features with
  | nil => rfl
  | cons feature rest ih => rw [List.map_cons, delivered, ih]

namespace Source

variable {σ : Type u} {abort : Option AbortCheck} {step : σ → Feature → σ}

/-- The features of a source. -/
def features (source : Source) : List Feature := delivered source.script

/-- The features of a source from memory are the given ones. -/
@[simp] theorem features_ofFeatures (features : List Feature) :
    (ofFeatures features).features = features :=
  delivered_map_feature features

/-- That an answer was noted does not change the result. -/
@[simp] theorem result_noteCheck (abort : Option AbortCheck) (run : Run σ) :
    (noteCheck abort run).result = run.result := by
  unfold noteCheck
  split
  · rfl
  · rfl

/-- The last read changes nothing. -/
theorem eq_of_lastRead {state final : σ} {delivery : Delivery}
    (h : (lastRead state delivery).result = .ok final) : final = state := by
  unfold lastRead at h
  split at h
  · cases h
  · cases h
    rfl

/-- A harvest that succeeds has folded the features that were delivered. -/
theorem eq_of_harvestFrom {ending : Delivery} {script : List Delivery} {asked : Nat}
    {state final : σ} (h : (harvestFrom abort step ending asked state script).result = .ok final) :
    final = (delivered script).foldl step state := by
  induction script generalizing asked state with
  | nil =>
    unfold harvestFrom at h
    split at h
    · cases h
    · rw [result_noteCheck] at h
      exact eq_of_lastRead h
  | cons delivery rest ih =>
    unfold harvestFrom at h
    split at h
    · cases h
    · cases delivery with
      | feature feature =>
        simp only [result_noteCheck, Run.after] at h
        exact ih h
      | failure reason =>
        simp only [result_noteCheck] at h
        exact eq_of_lastRead h
      | exhausted =>
        simp only [result_noteCheck] at h
        exact eq_of_lastRead h

/-- A harvest that succeeds has folded the features of the source. -/
theorem eq_of_harvest {source : Source} {state final : σ}
    (h : (source.harvest abort step state).result = .ok final) :
    final = source.features.foldl step state := by
  unfold harvest at h
  split at h
  · cases h
  · exact eq_of_harvestFrom h

/-- When nobody asks to abort and the source does not fail at its end, all features are folded into
the state, whatever was read before. -/
theorem harvestFrom_map_feature (ending : Ending) (hending : ending.failure = none)
    (features : List Feature) (asked : Nat) (state : σ) :
    (harvestFrom none step ending.delivery asked state (features.map .feature)).result =
      .ok (features.foldl step state) := by
  induction features generalizing asked state with
  | nil =>
    obtain ⟨emptyReads, failure⟩ := ending
    obtain rfl : failure = none := hending
    cases emptyReads <;> rfl
  | cons feature rest ih =>
    simpa [harvestFrom, Run.after] using ih (asked + 1) (step state feature)

/-- Features from memory are all harvested. -/
theorem harvest_ofFeatures (features : List Feature) (state : σ) :
    ((ofFeatures features).harvest none step state).result = .ok (features.foldl step state) :=
  harvestFrom_map_feature {} rfl features 0 state

end Source

end Cartouche
