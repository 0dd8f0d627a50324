import Mathlib.Data.List.Forall2
import Cartouche.Style.Rule

/-!
# The choice of rules

The rules that draw a feature are those that compete at the scale and accept the feature, in the
order of the style; when there are none, all else rules take their place. `resolve` finds them in
one pass, and what it has found at any place is told by the rules it has passed (`foldl_visit`).

A filter is a test from outside, so it matters when it is asked. `resolveNoting` chooses the rules
as a program that can do no more with a filter than ask it, and that notes whom it asks. It finds
what `resolve` finds, and has noted the rules that `resolve` names as asked (`run_resolveNoting`).
So a filter that is not asked has no influence (`forall₂_resolve`). `resolve_meets_reference` puts
this together.
-/

namespace Cartouche

/-! ## What a rule does without its filter -/

namespace Rule

/-- The rule stands for itself, and the scale lies in its window. -/
structure Competes (scaleDenominator : Float) (rule : Rule) : Prop where
  isElse : rule.isElse = false
  low : rule.minScale - 1e-6 ≤ scaleDenominator
  high : scaleDenominator < rule.maxScale

/-- Nothing but its filter can keep the rule from drawing the feature. -/
structure IsOpen (feature : Feature) (scaleDenominator : Float) (rule : Rule) : Prop where
  competes : rule.Competes scaleDenominator
  properties : rule.propertiesMatch feature

/-- The rules differ in their filters at most, and these give the same answer where nothing else
decides. -/
structure IsVariant (feature : Feature) (scaleDenominator : Float) (rule rule' : Rule) : Prop where
  rest : { rule with filter := rule'.filter } = rule'
  answer : rule.IsOpen feature scaleDenominator →
    rule.filter.map (· feature) = rule'.filter.map (· feature)

variable {feature : Feature} {scaleDenominator : Float} {rule rule' : Rule}

/-- The window of a rule with the comparisons it is made of. The lower end has a tolerance, the
upper end does not belong to the window. -/
theorem inScale_iff :
    rule.inScale scaleDenominator ↔
      rule.minScale - 1e-6 ≤ scaleDenominator ∧ scaleDenominator < rule.maxScale := by
  rw [inScale, Bool.and_eq_true, decide_eq_true_eq, decide_eq_true_eq]
  rfl

/-- A rule competes when it is no else rule and its window is open. -/
theorem competes_iff :
    rule.Competes scaleDenominator ↔ rule.isElse = false ∧ rule.inScale scaleDenominator := by
  rw [inScale_iff]
  exact ⟨fun h => ⟨h.isElse, h.low, h.high⟩, fun h => ⟨h.1, h.2.1, h.2.2⟩⟩

/-- A rule is open to a feature when it competes and the properties it asks for are there. -/
theorem isOpen_iff :
    rule.IsOpen feature scaleDenominator ↔
      rule.Competes scaleDenominator ∧ rule.propertiesMatch feature :=
  ⟨fun h => ⟨h.competes, h.properties⟩, fun h => ⟨h.1, h.2⟩⟩

instance : Decidable (rule.Competes scaleDenominator) := decidable_of_iff _ competes_iff.symm

instance : Decidable (rule.IsOpen feature scaleDenominator) := decidable_of_iff _ isOpen_iff.symm

/-- A rule draws a feature when it is open to it and its filter does not object. -/
theorem competes_and_accepts_iff :
    rule.Competes scaleDenominator ∧ rule.accepts feature ↔
      rule.IsOpen feature scaleDenominator ∧ (rule.filter.map (· feature)).all id := by
  have hfilter : (rule.filter.map (· feature)).all id = rule.filter.all (· feature) := by
    cases rule.filter <;> rfl
  rw [isOpen_iff, accepts, Bool.and_eq_true, hfilter, and_assoc]

namespace IsVariant

variable (h : rule.IsVariant feature scaleDenominator rule')

include h

/-- Exchanging its filter does not make a rule an else rule. -/
theorem isElse_eq : rule.isElse = rule'.isElse := by rw [← h.rest]

/-- What a rule is open to does not depend on its filter. -/
theorem isOpen_iff :
    rule.IsOpen feature scaleDenominator ↔ rule'.IsOpen feature scaleDenominator := by
  have hcompetes : rule.Competes scaleDenominator ↔ rule'.Competes scaleDenominator := by
    rw [← h.rest]
    exact ⟨fun k => ⟨k.isElse, k.low, k.high⟩, fun k => ⟨k.isElse, k.low, k.high⟩⟩
  have hproperties : rule.propertiesMatch feature = rule'.propertiesMatch feature := by
    rw [← h.rest]
    rfl
  rw [Rule.isOpen_iff, Rule.isOpen_iff, hcompetes, hproperties]

/-- A rule draws a feature after its filter was exchanged for one with the same answer if it did
before. -/
theorem draws_iff :
    rule.Competes scaleDenominator ∧ rule.accepts feature ↔
      rule'.Competes scaleDenominator ∧ rule'.accepts feature := by
  rw [competes_and_accepts_iff, competes_and_accepts_iff, ← h.isOpen_iff]
  exact and_congr_right fun hopen => by rw [h.answer hopen]

/-- A filter is asked after it was exchanged if it was before: the conditions that come before it
are not about it. -/
theorem asks_iff :
    rule.IsOpen feature scaleDenominator ∧ rule.filter.isSome ↔
      rule'.IsOpen feature scaleDenominator ∧ rule'.filter.isSome := by
  rw [← h.isOpen_iff]
  refine and_congr_right fun hopen => ?_
  rw [← Option.isSome_map (f := (· feature)), h.answer hopen, Option.isSome_map]

end IsVariant

end Rule

/-- The rules that draw a feature themselves. -/
def drawingRules (feature : Feature) (scaleDenominator : Float) (rules : List Rule) : List Rule :=
  rules.filter fun rule => rule.Competes scaleDenominator ∧ rule.accepts feature

/-- The rules that take the place of others. -/
def elseRules (rules : List Rule) : List Rule := rules.filter Rule.isElse

/-- The rules with a filter on which it depends whether they draw a feature. -/
def askedRules (feature : Feature) (scaleDenominator : Float) (rules : List Rule) : List Rule :=
  rules.filter fun rule => rule.IsOpen feature scaleDenominator ∧ rule.filter.isSome

/-! ## One pass through the rules -/

section

variable (feature : Feature) (scaleDenominator : Float)

/-- A rule adds itself to those that it is one of. -/
theorem visit_eq (found : Resolution.Progress) (rule : Rule) :
    found.visit feature scaleDenominator rule =
      { matched := found.matched ++ drawingRules feature scaleDenominator [rule]
        elseRules := found.elseRules ++ elseRules [rule]
        asked := found.asked ++ askedRules feature scaleDenominator [rule] } := by
  unfold Resolution.Progress.visit
  by_cases helse : rule.isElse
  · simp [drawingRules, elseRules, askedRules, Rule.isOpen_iff, Rule.competes_iff, helse]
  by_cases hscale : rule.inScale scaleDenominator
  · have hdraws : drawingRules feature scaleDenominator [rule] =
        if rule.accepts feature then [rule] else [] := by
      simp [drawingRules, Rule.competes_iff, helse, hscale, List.filter_singleton]
    have hasks : askedRules feature scaleDenominator [rule] =
        if rule.asksFilter feature then [rule] else [] := by
      simp [askedRules, Rule.isOpen_iff, Rule.competes_iff, helse, hscale, List.filter_singleton,
        Rule.asksFilter]
    rw [if_neg helse, if_pos hscale, hdraws, hasks]
    split <;> split <;> simp [elseRules, helse]
  · simp [drawingRules, elseRules, askedRules, Rule.isOpen_iff, Rule.competes_iff, helse, hscale]

/-- What is found on the way through rules is what they add to what was found before. -/
theorem foldl_visit (found : Resolution.Progress) (rules : List Rule) :
    rules.foldl (Resolution.Progress.visit feature scaleDenominator) found =
      { matched := found.matched ++ drawingRules feature scaleDenominator rules
        elseRules := found.elseRules ++ elseRules rules
        asked := found.asked ++ askedRules feature scaleDenominator rules } := by
  induction rules generalizing found with
  | nil => simp [drawingRules, elseRules, askedRules]
  | cons rule rest ih =>
    rw [List.foldl_cons, ih, visit_eq, ← List.singleton_append (l := rest)]
    simp only [drawingRules, elseRules, askedRules, List.filter_append, List.append_assoc]

/-- The rules that are found, and those whose filters were asked for it. -/
theorem resolve_eq (rules : List Rule) :
    resolve feature rules scaleDenominator =
      { rules :=
          if (drawingRules feature scaleDenominator rules).isEmpty then elseRules rules
          else drawingRules feature scaleDenominator rules
        asked := askedRules feature scaleDenominator rules } := by
  simp only [resolve, foldl_visit, List.nil_append]

end

/-! ## Asking filters -/

/-- Finds out whether a rule accepts a feature. The filter is asked last, and if it is, the rule is
noted. -/
def Rule.consult (feature : Feature) (rule : Rule) : StateM (List Rule) Bool := do
  if rule.propertiesMatch feature then
    match rule.filter with
    | none => return true
    | some filter =>
      modify (· ++ [rule])
      return filter feature
  else
    return false

/-- Looks at one more rule, after some rules that draw the feature and some else rules. -/
def visitNoting (feature : Feature) (scaleDenominator : Float) (found : List Rule × List Rule)
    (rule : Rule) : StateM (List Rule) (List Rule × List Rule) := do
  if rule.isElse then
    return (found.1, found.2 ++ [rule])
  else if rule.inScale scaleDenominator then
    if ← rule.consult feature then
      return (found.1 ++ [rule], found.2)
    else
      return found
  else
    return found

/-- Chooses the rules that draw a feature, and notes the rules whose filters it asks for it. -/
def resolveNoting (feature : Feature) (rules : List Rule) (scaleDenominator : Float) :
    StateM (List Rule) (List Rule) := do
  let (matched, elseRules) ← rules.foldlM (visitNoting feature scaleDenominator) ([], [])
  return if matched.isEmpty then elseRules else matched

section

variable (feature : Feature) (scaleDenominator : Float)

/-- A rule is consulted with the right answer, and is noted just when its filter is asked. -/
theorem run_consult (rule : Rule) (noted : List Rule) :
    (rule.consult feature).run noted =
      (rule.accepts feature, if rule.asksFilter feature then noted ++ [rule] else noted) := by
  unfold Rule.consult Rule.accepts Rule.asksFilter
  cases rule.propertiesMatch feature with
  | false => rfl
  | true => cases rule.filter <;> rfl

/-- A step that notes keeps up with a step of `resolve`. -/
theorem run_visitNoting (found : Resolution.Progress) (rule : Rule) :
    (visitNoting feature scaleDenominator (found.matched, found.elseRules) rule).run found.asked =
      (((found.visit feature scaleDenominator rule).matched,
        (found.visit feature scaleDenominator rule).elseRules),
        (found.visit feature scaleDenominator rule).asked) := by
  unfold visitNoting Resolution.Progress.visit
  by_cases helse : rule.isElse
  · rw [if_pos helse, if_pos helse]
    rfl
  by_cases hscale : rule.inScale scaleDenominator
  · rw [if_neg helse, if_pos hscale, if_neg helse, if_pos hscale, StateT.run_bind, run_consult]
    cases rule.accepts feature <;> rfl
  · rw [if_neg helse, if_neg hscale, if_neg helse, if_neg hscale]
    rfl

/-- A run that notes keeps up with a run of `resolve`, from wherever the two start together. -/
theorem run_foldlM_visitNoting (found : Resolution.Progress) (rules : List Rule) :
    (rules.foldlM (visitNoting feature scaleDenominator) (found.matched, found.elseRules)).run
        found.asked =
      let last := rules.foldl (Resolution.Progress.visit feature scaleDenominator) found
      ((last.matched, last.elseRules), last.asked) := by
  induction rules generalizing found with
  | nil => rfl
  | cons rule rest ih =>
    rw [List.foldlM_cons, StateT.run_bind, run_visitNoting]
    exact ih _

/-- A run that notes finds the rules that `resolve` finds, and notes those that `resolve` names as
asked. -/
theorem run_resolveNoting (rules : List Rule) :
    (resolveNoting feature rules scaleDenominator).run [] =
      ((resolve feature rules scaleDenominator).rules,
        (resolve feature rules scaleDenominator).asked) := by
  have hrun := run_foldlM_visitNoting feature scaleDenominator {} rules
  unfold resolveNoting resolve
  rw [StateT.run_bind, hrun]
  rfl

end

/-! ## Exchanging filters -/

/-- With filters exchanged that are not asked, or that give the same answers, the rules at the same
places are found, and the filters of the rules at the same places are asked. -/
theorem forall₂_resolve {feature : Feature} {scaleDenominator : Float} {rules rules' : List Rule}
    (h : List.Forall₂ (Rule.IsVariant feature scaleDenominator) rules rules') :
    List.Forall₂ (Rule.IsVariant feature scaleDenominator)
        (resolve feature rules scaleDenominator).rules
        (resolve feature rules' scaleDenominator).rules ∧
      List.Forall₂ (Rule.IsVariant feature scaleDenominator)
        (resolve feature rules scaleDenominator).asked
        (resolve feature rules' scaleDenominator).asked := by
  have hdraws : List.Forall₂ (Rule.IsVariant feature scaleDenominator)
      (drawingRules feature scaleDenominator rules)
      (drawingRules feature scaleDenominator rules') :=
    List.rel_filter (fun _ _ hrule => by simpa using hrule.draws_iff) h
  have helse : List.Forall₂ (Rule.IsVariant feature scaleDenominator) (elseRules rules)
      (elseRules rules') :=
    List.rel_filter (fun _ _ hrule => iff_of_eq (congrArg (· = true) hrule.isElse_eq)) h
  have hasks : List.Forall₂ (Rule.IsVariant feature scaleDenominator)
      (askedRules feature scaleDenominator rules) (askedRules feature scaleDenominator rules') :=
    List.rel_filter (fun _ _ hrule => by simpa using hrule.asks_iff) h
  rw [resolve_eq, resolve_eq]
  refine ⟨?_, hasks⟩
  generalize drawingRules feature scaleDenominator rules = drawing at hdraws ⊢
  generalize drawingRules feature scaleDenominator rules' = drawing' at hdraws ⊢
  cases hdraws with
  | nil => exact helse
  | cons hfirst hrest => exact .cons hfirst hrest

/-- The rules for a feature are those that draw it themselves, in the order of the style, or else
all else rules; the two kinds are never mixed. The filters that are asked for this are those of the
rules on whose filters it depends whether they draw the feature, each one once and in the order of
the style. So the other filters have no influence. -/
theorem resolve_meets_reference (feature : Feature) (rules : List Rule) (scaleDenominator : Float) :
    (resolve feature rules scaleDenominator).rules =
        (if drawingRules feature scaleDenominator rules ≠ [] then
          drawingRules feature scaleDenominator rules
        else elseRules rules) ∧
      ((∀ rule ∈ (resolve feature rules scaleDenominator).rules, rule.isElse = false) ∨
        ∀ rule ∈ (resolve feature rules scaleDenominator).rules, rule.isElse = true) ∧
      (resolve feature rules scaleDenominator).asked = askedRules feature scaleDenominator rules ∧
      (resolveNoting feature rules scaleDenominator).run [] =
        ((resolve feature rules scaleDenominator).rules,
          (resolve feature rules scaleDenominator).asked) ∧
      ∀ rules', List.Forall₂ (Rule.IsVariant feature scaleDenominator) rules rules' →
        List.Forall₂ (Rule.IsVariant feature scaleDenominator)
          (resolve feature rules scaleDenominator).rules
          (resolve feature rules' scaleDenominator).rules := by
  have heq := resolve_eq feature scaleDenominator rules
  refine ⟨?_, ?_, ?_, run_resolveNoting feature scaleDenominator rules,
    fun rules' h => (forall₂_resolve h).1⟩
  · rw [heq]
    cases drawingRules feature scaleDenominator rules <;> rfl
  · rw [heq]
    dsimp only
    split
    · right
      intro rule hrule
      exact (List.mem_filter.1 hrule).2
    · left
      intro rule hrule
      have hdraws := (List.mem_filter.1 hrule).2
      exact (of_decide_eq_true hdraws).1.isElse
  · rw [heq]

end Cartouche
