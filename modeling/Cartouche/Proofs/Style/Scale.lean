import Cartouche.Style.Scale
import Cartouche.Proofs.Number.Infinity
import Cartouche.Proofs.Style.Resolution

/-!
# Scales without bounds

A rule whose window has no lower end is open to all scales that are numbers below its upper end. But
a window without an upper end leaves out one number: the infinite scale, which is not less than the
infinity that stands for the missing end (`Rule.inScale_iff_of_max`). The scale of a map is never
undefined, and it is infinite where the quotient overflows, which is from a certain resolution on
(`resolutionToScale?_spec`). At all other scales that are numbers a rule without restrictions is
chosen (`mem_resolve_iff_ne_infinity`).
-/

namespace Cartouche

open Binary64

/-! ## Windows with missing ends -/

namespace Rule

variable {rule : Rule} {scale : Float}

/-- Infinity stands for a missing upper end. -/
theorem maxScale_eq (h : rule.maxScaleDenominator = none) : rule.maxScale = infinity := by
  rw [maxScale, h]
  rfl

/-- Without a lower end no number is too small. -/
theorem inScale_iff_of_min (hscale : scale.isNaN = false) (h : rule.minScaleDenominator = none) :
    rule.inScale scale ↔ scale < rule.maxScale := by
  have hmin : rule.minScale - 1e-6 = -infinity := by
    rw [minScale, h]
    decide +kernel
  rw [inScale_iff, hmin]
  exact and_iff_right (neg_infinity_le hscale)

/-- Without an upper end no number is too large, except for infinity. -/
theorem inScale_iff_of_max (hscale : scale.isNaN = false) (h : rule.maxScaleDenominator = none) :
    rule.inScale scale ↔ rule.minScale - 1e-6 ≤ scale ∧ scale ≠ infinity := by
  rw [inScale_iff, maxScale_eq h, lt_infinity_iff hscale]

/-- The rule is no else rule and asks nothing of features and scales. -/
structure IsUnrestricted (rule : Rule) : Prop where
  isElse : rule.isElse = false
  minScaleDenominator : rule.minScaleDenominator = none
  maxScaleDenominator : rule.maxScaleDenominator = none
  properties : rule.properties = .empty
  filter : rule.filter = none

/-- A rule of which only the name and the symbolizers are given is not restricted. -/
theorem isUnrestricted_mk (name : String) (symbolizers : List Symbolizer) :
    IsUnrestricted { name, symbolizers } :=
  ⟨rfl, rfl, rfl, rfl, rfl⟩

/-- A rule without restrictions accepts every feature. -/
theorem IsUnrestricted.accepts (h : rule.IsUnrestricted) (feature : Feature) :
    rule.accepts feature := by
  simp [Rule.accepts, propertiesMatch, h.properties, h.filter, Dict.empty]

/-- A rule without restrictions competes at every scale that is a number, except for the infinite
one. -/
theorem IsUnrestricted.competes_iff (h : rule.IsUnrestricted) (hscale : scale.isNaN = false) :
    rule.Competes scale ↔ scale ≠ infinity := by
  rw [Rule.competes_iff, inScale_iff_of_min hscale h.minScaleDenominator,
    maxScale_eq h.maxScaleDenominator, lt_infinity_iff hscale]
  exact and_iff_right h.isElse

end Rule

/-- A rule without restrictions is chosen, and then else rules are not, at every scale but the
infinite one. -/
theorem mem_resolve_iff_of_isUnrestricted (feature : Feature) {rules : List Rule} {rule : Rule}
    (hmem : rule ∈ rules) (hrule : rule.IsUnrestricted) {scale : Float}
    (hscale : scale.isNaN = false) :
    (rule ∈ (resolve feature rules scale).rules ∧
        ∀ other ∈ (resolve feature rules scale).rules, other.isElse = false) ↔
      scale ≠ infinity := by
  have hdraws : rule ∈ drawingRules feature scale rules ↔ scale ≠ infinity := by
    rw [drawingRules, List.mem_filter, decide_eq_true_eq, hrule.competes_iff hscale]
    exact ⟨fun h => h.2.1, fun h => ⟨hmem, h, hrule.accepts feature⟩⟩
  rw [resolve_eq]
  constructor
  · rintro ⟨hfound, -⟩
    split at hfound
    · have helse := (List.mem_filter.1 hfound).2
      rw [hrule.isElse] at helse
      cases helse
    · exact hdraws.1 hfound
  · intro hfinite
    have hmem' := hdraws.2 hfinite
    rw [if_neg (by rw [List.isEmpty_iff]; exact List.ne_nil_of_mem hmem')]
    refine ⟨hmem', fun other hother => ?_⟩
    have hdraws' := (List.mem_filter.1 hother).2
    exact (of_decide_eq_true hdraws').1.isElse

/-! ## The scale of a map -/

/-- The largest resolution that has a finite scale. -/
def largestResolution (geographic : Bool) : Float :=
  if geographic then 4.521706613769951e299 else 5.033540777614483e304

/-- The meters of a unit of the map. -/
def metersPerUnit (geographic : Bool) : Float := if geographic then metersPerDegree else 1.0

/-- The meters of a unit are finite and not negative, on a map in degrees and on one in meters. -/
theorem metersPerUnit_spec (geographic : Bool) :
    (metersPerUnit geographic).isFinite ∧ isNegative (metersPerUnit geographic) = false := by
  cases geographic <;> decide +kernel

/-- The size of a pixel is finite and positive, so it can be divided by. -/
theorem standardPixelSize_spec :
    standardPixelSize.isFinite ∧ isNegative standardPixelSize = false ∧
      0 < sizeBits standardPixelSize := by
  decide +kernel

/-- The largest resolution with a finite scale is itself finite and not negative. -/
theorem isNonneg_largestResolution (geographic : Bool) :
    IsNonneg (largestResolution geographic) ∧ (largestResolution geographic).isFinite := by
  have h : isNegative (largestResolution geographic) = false ∧
      (largestResolution geographic).isFinite := by
    cases geographic <;> decide +kernel
  exact ⟨isNonneg_of_not_isNegative h.1 ((isFinite_iff _).1 h.2).le, h.2⟩

/-- The scale of the largest resolution is finite, and that of the next double is not. -/
theorem largestResolution_spec (geographic : Bool) :
    (largestResolution geographic * metersPerUnit geographic / standardPixelSize).isFinite ∧
      ∃ next : Float, next.isFinite ∧ sizeBits next = sizeBits (largestResolution geographic) + 1 ∧
        sizeBits (next * metersPerUnit geographic / standardPixelSize) = infinityBits := by
  cases geographic with
  | false =>
    refine ⟨by decide +kernel, 5.033540777614484e304, ?_⟩
    decide +kernel
  | true =>
    refine ⟨by decide +kernel, 4.521706613769952e299, ?_⟩
    decide +kernel

/-- Where there is a scale, the resolution is finite and positive, and the scale is a quotient. -/
theorem exists_of_resolutionToScale? {resolution scale : Float} {geographic : Bool}
    (h : resolutionToScale? resolution geographic = some scale) :
    resolution.isFinite ∧ ¬ resolution ≤ 0.0 ∧
      scale = resolution * metersPerUnit geographic / standardPixelSize := by
  unfold resolutionToScale? at h
  split at h
  · cases h
  · next hvalid =>
    rw [Bool.or_eq_true, not_or, Bool.not_eq_true', Bool.not_eq_false, decide_eq_true_eq] at hvalid
    exact ⟨hvalid.1, hvalid.2, (Option.some_inj.1 h).symm⟩

/-- The scale of a map is a number. It is infinite for resolutions beyond the largest one. -/
theorem resolutionToScale?_spec {resolution scale : Float} {geographic : Bool}
    (h : resolutionToScale? resolution geographic = some scale) :
    scale.isNaN = false ∧ (scale = infinity ↔ largestResolution geographic < resolution) := by
  obtain ⟨hfinite, hpositive, rfl⟩ := exists_of_resolutionToScale? h
  obtain ⟨hsign, -⟩ := isNegative_of_pos hfinite hpositive
  obtain ⟨hunit, hunitSign⟩ := metersPerUnit_spec geographic
  obtain ⟨hpixel, hpixelSign, hpixelPos⟩ := standardPixelSize_spec
  obtain ⟨hlargest, hlargestFinite⟩ := isNonneg_largestResolution geographic
  obtain ⟨hlast, next, hnextFinite, hnext, hnextScale⟩ := largestResolution_spec geographic
  have hresolution : IsNonneg resolution :=
    isNonneg_of_not_isNegative hsign ((isFinite_iff _).1 hfinite).le
  have hscale := isNonneg_mul_div hunit hpixel hpixelPos hfinite hsign hunitSign hpixelSign
  refine ⟨hscale.isNaN, ?_⟩
  rw [hscale.eq_infinity_iff, hlargest.lt_iff hresolution]
  constructor
  · intro hinfinite
    by_contra hle
    have hmono := sizeBits_mul_div_mono hunit hpixel hpixelPos hfinite hlargestFinite (not_lt.1 hle)
    rw [hinfinite] at hmono
    exact absurd ((isFinite_iff _).1 hlast) (not_lt.2 hmono)
  · intro hlt
    have hmono := sizeBits_mul_div_mono hunit hpixel hpixelPos hnextFinite hfinite
      (hnext.trans_le hlt)
    rw [hnextScale] at hmono
    exact le_antisymm hscale.isNumber hmono

/-- The scale of a map of some width is that of its resolution. -/
theorem resolutionToScale?_of_scaleDenominator? {extent : Rect Float} {pixels : UInt32}
    {geographic : Bool} {scale : Float}
    (h : scaleDenominator? extent pixels geographic = some scale) :
    resolutionToScale? (extent.width / Float.ofNat pixels.toNat) geographic = some scale := by
  unfold scaleDenominator? at h
  split at h
  · cases h
  · exact h

/-! ## Rules without restrictions -/

/-- A rule without restrictions is chosen, and then no else rule is, at every scale that is a number
other than infinity. A missing end of a window never excludes a rule at such a scale, and infinity
is excluded by a missing upper end only. The scale of a map is always a number, and it is infinite
just for the resolutions beyond the largest one. -/
theorem mem_resolve_iff_ne_infinity (feature : Feature) {rules : List Rule} {rule : Rule}
    (hmem : rule ∈ rules) (hrule : rule.IsUnrestricted) {scale : Float}
    (hscale : scale.isNaN = false) :
    ((rule ∈ (resolve feature rules scale).rules ∧
        ∀ other ∈ (resolve feature rules scale).rules, other.isElse = false) ↔
      scale ≠ infinity) ∧
    (∀ other : Rule, (other.minScaleDenominator = none →
        (other.inScale scale ↔ scale < other.maxScale)) ∧
      (other.maxScaleDenominator = none →
        (other.inScale scale ↔ other.minScale - 1e-6 ≤ scale ∧ scale ≠ infinity))) ∧
    (∀ resolution geographic result, resolutionToScale? resolution geographic = some result →
      result.isNaN = false ∧ (result = infinity ↔ largestResolution geographic < resolution)) ∧
    (∀ extent pixels geographic result, scaleDenominator? extent pixels geographic = some result →
      result.isNaN = false ∧
        (result = infinity ↔
          largestResolution geographic < extent.width / Float.ofNat pixels.toNat)) := by
  refine ⟨mem_resolve_iff_of_isUnrestricted feature hmem hrule hscale, fun other => ?_, ?_, ?_⟩
  · exact ⟨Rule.inScale_iff_of_min hscale, Rule.inScale_iff_of_max hscale⟩
  · intro resolution geographic result h
    exact resolutionToScale?_spec h
  · intro extent pixels geographic result h
    exact resolutionToScale?_spec (resolutionToScale?_of_scaleDenominator? h)

/-- A point on a map. -/
def spot : Feature := { id := "spot", geometry := .point { x := 0.0, y := 0.0 } }

/-- A rule that is meant to draw everything. -/
def Rule.plain : Rule := { name := "plain" }

/-- A rule that takes the place of others. -/
def Rule.fallback : Rule := { name := "fallback", isElse := true }

/-- At the scale of a map of the world in 256 pixels the rule that is meant to draw everything is
chosen, although the else rule comes first. -/
theorem mem_resolve_iff_ne_infinity_world :
    Rule.plain ∈ [Rule.fallback, Rule.plain] ∧ Rule.plain.IsUnrestricted ∧
      resolutionToScale? 156543.03392804097 false = some 559082264.0287178 ∧
      (559082264.0287178 : Float).isNaN = false ∧
      Rule.plain ∈ (resolve spot [Rule.fallback, Rule.plain] 559082264.0287178).rules := by
  have hmem : Rule.plain ∈ [Rule.fallback, Rule.plain] := by simp
  have hrule : Rule.plain.IsUnrestricted := Rule.isUnrestricted_mk "plain" []
  have hscale : (559082264.0287178 : Float).isNaN = false := by decide +kernel
  have hfinite : (559082264.0287178 : Float) ≠ infinity := by decide +kernel
  refine ⟨hmem, hrule, by decide +kernel, hscale, ?_⟩
  exact ((mem_resolve_iff_ne_infinity spot hmem hrule hscale).1.2 hfinite).1

/-- The scale of a map can be the infinite one, and then the rule that draws everything gives way to
the else rule. -/
theorem plain_notMem_resolve :
    Rule.plain.IsUnrestricted ∧ resolutionToScale? 1e308 false = some infinity ∧
      infinity.isNaN = false ∧
      Rule.plain ∉ (resolve spot [Rule.plain, Rule.fallback] infinity).rules := by
  have hfound : (resolve spot [Rule.plain, Rule.fallback] infinity).rules =
      [Rule.fallback] := rfl
  refine ⟨Rule.isUnrestricted_mk "plain" [], by decide +kernel, by decide +kernel, ?_⟩
  rw [hfound, List.mem_singleton]
  intro h
  cases congrArg Rule.isElse h

end Cartouche
