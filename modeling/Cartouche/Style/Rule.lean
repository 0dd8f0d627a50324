import Cartouche.Feature.Basic
import Cartouche.Style.Symbolizer

/-!
# Styles and rules

A style is an ordered list of rules. A rule draws the features that match it within a window of
scales; an else rule draws those that no other rule draws. `resolve` picks the rules for a feature,
and records which rules it had to ask their filter for.
-/

namespace Cartouche

/-- A test of features from outside the library. -/
abbrev FeatureFilter := Feature → Bool

/-- A rule of a style. -/
structure Rule where
  name : String := ""
  filter : Option FeatureFilter := none
  /-- The texts that attributes have to match. -/
  properties : Dict String := .empty
  minScaleDenominator : Option Float := none
  maxScaleDenominator : Option Float := none
  isElse : Bool := false
  symbolizers : List Symbolizer := []

/-- How features are drawn. -/
structure Style where
  name : String := ""
  rules : List Rule := []

namespace Rule

/-- The least scale denominator; without a bound every scale is large enough. -/
def minScale (rule : Rule) : Float := rule.minScaleDenominator.getD (-(1.0 / 0.0))

/-- The scale denominator that is too large; without a bound, infinity. -/
def maxScale (rule : Rule) : Float := rule.maxScaleDenominator.getD (1.0 / 0.0)

/-- Every property is the text of an attribute of the feature. -/
def propertiesMatch (rule : Rule) (feature : Feature) : Bool :=
  rule.properties.entries.all fun (name, text) =>
    (feature.attribute? name).any (·.matchesText text)

/-- The filter is asked about the feature: there is one, and the properties match. -/
def asksFilter (rule : Rule) (feature : Feature) : Bool :=
  rule.propertiesMatch feature && rule.filter.isSome

/-- The rule draws the feature. -/
def accepts (rule : Rule) (feature : Feature) : Bool :=
  rule.propertiesMatch feature && rule.filter.all (· feature)

/-- By so much a scale may stay below the least one. -/
def scaleTolerance : Float := 1e-6

/-- The scale lies in the window of the rule, which contains its lower end and not its upper one. -/
def inScale (rule : Rule) (scaleDenominator : Float) : Bool :=
  rule.minScale - scaleTolerance ≤ scaleDenominator && scaleDenominator < rule.maxScale

/-- A rule is written without its filter, and read without one. -/
def fieldNames : List String :=
  ["name", "properties", "min_scale_denominator", "max_scale_denominator", "is_else",
    "symbolizers"]

/-- A rule may leave out everything. Its filter is not among what is written. -/
instance : JsonForm Rule where
  toJson rule := .object [
    ("name", JsonForm.toJson rule.name),
    ("properties", JsonForm.toJson rule.properties),
    ("min_scale_denominator", JsonForm.toJson rule.minScaleDenominator),
    ("max_scale_denominator", JsonForm.toJson rule.maxScaleDenominator),
    ("is_else", JsonForm.toJson rule.isElse),
    ("symbolizers", JsonForm.toJson rule.symbolizers)]
  ofJson? origin json := do
    let fields ← Json.Fields.of? origin fieldNames json
    return {
      name := ← fields.withDefault "name" ""
      properties := ← fields.withDefault "properties" .empty
      minScaleDenominator := ← fields.withDefault "min_scale_denominator" none
      maxScaleDenominator := ← fields.withDefault "max_scale_denominator" none
      isElse := ← fields.withDefault "is_else" false
      symbolizers := ← fields.withDefault "symbolizers" [] }

end Rule

/-- A style may leave out its name and its rules. -/
instance : JsonForm Style where
  toJson style := .object [
    ("name", JsonForm.toJson style.name),
    ("rules", JsonForm.toJson style.rules)]
  ofJson? origin json := do
    let fields ← Json.Fields.of? origin ["name", "rules"] json
    return {
      name := ← fields.withDefault "name" ""
      rules := ← fields.withDefault "rules" [] }

/-- The rules that draw a feature. -/
structure Resolution where
  rules : List Rule
  /-- The rules whose filters were asked, in the order of asking. -/
  asked : List Rule

/-- What is found on the way through the rules. -/
structure Resolution.Progress where
  matched : List Rule := []
  elseRules : List Rule := []
  asked : List Rule := []

/-- Looks at one more rule: else rules are put aside, rules of other scales are passed over. -/
def Resolution.Progress.visit (feature : Feature) (scaleDenominator : Float) (found : Progress)
    (rule : Rule) : Progress :=
  if rule.isElse then
    { found with elseRules := found.elseRules ++ [rule] }
  else if rule.inScale scaleDenominator then
    { found with
      matched := if rule.accepts feature then found.matched ++ [rule] else found.matched
      asked := if rule.asksFilter feature then found.asked ++ [rule] else found.asked }
  else
    found

/-- The rules that draw a feature at a scale, in the order of the style: those that match it, or all
else rules when none does. -/
def resolve (feature : Feature) (rules : List Rule) (scaleDenominator : Float) : Resolution :=
  let found := rules.foldl (Resolution.Progress.visit feature scaleDenominator) {}
  { rules := if found.matched.isEmpty then found.elseRules else found.matched
    asked := found.asked }

end Cartouche
