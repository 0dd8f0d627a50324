import Cartouche.Proofs.Number.Numeral
import Cartouche.Style.Rule

/-!
# Properties written from values

A rule asks for attributes by texts, and reads each text as a value of the kind of the attribute.
Among values of one kind, the text that is displayed for a value asks for this value and for no
other (`matchesText_display_iff`): numbers are read as they were written, and which of them are
equal is left to the comparison of values, to which the two zeros are one. So a value is found by
its own text when there is one and it equals itself (`matchesText_display_self_iff`), and a rule
whose properties are displayed values draws the features that have these values
(`Rule.accepts_iff_of_displayed`).
-/

namespace Cartouche

open Binary64

/-- What was written for a double, also for one that is no number, is read as what equals the same
doubles. -/
theorem Binary64.any_parseFloat?_text_iff {x y : Float} :
    (parseFloat? (NumberStyle.plain.text y)).any (· == x) ↔ x == y := by
  by_cases h : y.isNaN
  · have hread : parseFloat? (NumberStyle.plain.text y) = some (0.0 / 0.0) := by
      rw [NumberStyle.text, if_pos h]
      rfl
    rw [hread]
    constructor
    · intro hx
      exact absurd (isNaN_of_beq hx).1 (by decide)
    · intro hx
      exact absurd h (Bool.eq_false_iff.1 (isNaN_of_beq hx).2)
  · rw [parseFloat?_text_of_not_isNaN (Bool.eq_false_iff.2 h)]
    exact ⟨beq_symm, beq_symm⟩

namespace AttributeValue

/-- The values are of one kind. -/
inductive SameKind : AttributeValue → AttributeValue → Prop where
  | bool (b c : Bool) : SameKind (.bool b) (.bool c)
  | int64 (n m : Int64) : SameKind (.int64 n) (.int64 m)
  | double (x y : Float) : SameKind (.double x) (.double y)
  | text (s t : String) : SameKind (.text s) (.text t)
  | null : SameKind .null .null

/-- There is a value, and it is no double that is not a number. -/
def IsShown : AttributeValue → Prop
  | .double x => x.isNaN = false
  | .null => False
  | _ => True

/-- A value is of the kind of itself. -/
theorem SameKind.refl (v : AttributeValue) : v.SameKind v := by
  cases v <;> constructor

/-- What is shown is a value that equals itself. -/
theorem isShown_iff {v : AttributeValue} : v.IsShown ↔ v.isNull = false ∧ v == v := by
  cases v with
  | bool b => exact iff_of_true trivial ⟨rfl, beq_self_eq_true b⟩
  | int64 n => exact iff_of_true trivial ⟨rfl, beq_self_eq_true n⟩
  | double x => exact beq_self_iff.symm.trans ⟨fun h => ⟨rfl, h⟩, And.right⟩
  | text s => exact iff_of_true trivial ⟨rfl, beq_self_eq_true s⟩
  | null => exact iff_of_false id fun h => absurd h.1 (by decide)

/-- The text of a value is matched by those values of its kind that equal it. -/
theorem matchesText_display_iff {v w : AttributeValue} (h : v.SameKind w)
    (hw : w.isNull = false) : v.matchesText w.display ↔ v == w := by
  cases h with
  | bool b c => cases b <;> cases c <;> decide
  | int64 n m =>
    show parseInt64? (toString m.toInt) == some n ↔ n == m
    rw [parseInt64?_toString, beq_iff_eq, beq_iff_eq, Option.some.injEq, eq_comm]
  | double x y => exact any_parseFloat?_text_iff
  | text s t => exact Iff.rfl
  | null => cases hw

-- Values of other kinds may be found as well.
example : (text "5").matchesText (int64 5).display := by decide

/-- No value matches no text, as it equals no value that there is. -/
theorem matchesText_iff_of_isNull {v w : AttributeValue} {text : String} (hv : v.isNull)
    (hw : w.isNull = false) : v.matchesText text ↔ v == w := by
  cases v <;> cases hv
  cases w with
  | null => cases hw
  | _ => exact iff_of_false Bool.false_ne_true Bool.false_ne_true

/-- A value is found by its own text if it is shown at all. -/
theorem matchesText_display_self_iff {v : AttributeValue} :
    v.matchesText v.display ↔ v.IsShown := by
  rw [isShown_iff]
  cases hnull : v.isNull with
  | false =>
    rw [matchesText_display_iff (.refl v) hnull]
    simp
  | true =>
    cases v <;> cases hnull
    simp [matchesText]

end AttributeValue

/-- The feature has attributes of the names of the values, and they equal the values. -/
def Feature.HasValues (feature : Feature) (values : Dict AttributeValue) : Prop :=
  ∀ e ∈ values.entries, ∃ v, feature.attribute? e.1 = some v ∧ v == e.2

/-- What the feature has under the names of the values is of their kinds. -/
def Feature.HasKinds (feature : Feature) (values : Dict AttributeValue) : Prop :=
  ∀ e ∈ values.entries, ∀ v, feature.attribute? e.1 = some v → v.isNull = false → v.SameKind e.2

/-- A rule whose properties are displayed values draws, among the features with values of these
kinds, those that have these values and pass its filter. -/
theorem Rule.accepts_iff_of_displayed {rule : Rule} {feature : Feature}
    {values : Dict AttributeValue} (hrule : rule.properties = values.mapValues (·.display))
    (hvalues : ∀ e ∈ values.entries, e.2.isNull = false) (hkinds : feature.HasKinds values) :
    rule.accepts feature ↔ feature.HasValues values ∧ rule.filter.all (· feature) := by
  have hmatches : ∀ e ∈ values.entries, ∀ v, feature.attribute? e.1 = some v →
      (v.matchesText e.2.display ↔ v == e.2) := by
    intro e he v hv
    cases hnull : v.isNull with
    | false => exact AttributeValue.matchesText_display_iff (hkinds e he v hv hnull) (hvalues e he)
    | true => exact AttributeValue.matchesText_iff_of_isNull hnull (hvalues e he)
  have hproperties : rule.propertiesMatch feature ↔ feature.HasValues values := by
    rw [propertiesMatch, hrule, Dict.mapValues, List.all_map, List.all_eq_true]
    refine forall₂_congr fun e he => ?_
    show (feature.attribute? e.1).any (·.matchesText e.2.display) ↔ _
    rw [Option.any_eq_true]
    exact exists_congr fun v => and_congr_right (hmatches e he v)
  rw [accepts, Bool.and_eq_true, hproperties]

/-- Displayed values are faithful: a value is found by its own text unless it is none or no number,
no other value of its kind is found by this text, and rules find features by the texts of their
values. -/
theorem AttributeValue.display_isFaithful :
    (∀ v : AttributeValue, v.matchesText v.display ↔ v.IsShown) ∧
    (∀ v w : AttributeValue, v.SameKind w → w.isNull = false →
      (v.matchesText w.display ↔ v == w)) ∧
    ∀ (rule : Rule) (feature : Feature) (values : Dict AttributeValue),
      rule.properties = values.mapValues (·.display) →
      (∀ e ∈ values.entries, e.2.isNull = false) → feature.HasKinds values →
      (rule.accepts feature ↔ feature.HasValues values ∧ rule.filter.all (· feature)) := by
  refine ⟨fun v => matchesText_display_self_iff, fun v w => matchesText_display_iff, ?_⟩
  intro rule feature values hrule hvalues hkinds
  exact Rule.accepts_iff_of_displayed hrule hvalues hkinds

/-- The least integer and a negative zero: a greater integer is not found by the text of the least
one, and a feature with the other zero is drawn. -/
theorem AttributeValue.display_isFaithful_ends :
    (int64 Int64.minValue).matchesText (int64 Int64.minValue).display ∧
    ¬ (int64 Int64.maxValue).matchesText (int64 Int64.minValue).display ∧
    ({ name := "zero"
       properties := (Dict.empty.insert "depth" (double (-0.0))).mapValues (·.display) } :
      Rule).accepts
      { id := "lakes.1"
        attributes := Dict.empty.insert "depth" (double 0.0)
        geometry := .point { x := 0.0, y := 0.0 } } := by
  refine ⟨(display_isFaithful.1 _).2 trivial, ?_, ?_⟩
  · rw [display_isFaithful.2.1 _ _ (.int64 _ _) rfl]
    decide
  · refine (display_isFaithful.2.2 _ _ (Dict.empty.insert "depth" (double (-0.0))) rfl ?_ ?_).2
      ⟨?_, rfl⟩
    · intro e he
      cases List.mem_singleton.1 he
      rfl
    · intro e he v hv hnull
      cases List.mem_singleton.1 he
      cases hv
      exact .double _ _
    · intro e he
      cases List.mem_singleton.1 he
      exact ⟨double 0.0, rfl, by decide⟩

end Cartouche
