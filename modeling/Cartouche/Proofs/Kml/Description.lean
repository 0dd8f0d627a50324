import Cartouche.Kml.Labeller
import Cartouche.Proofs.Markup.Html

/-!
# What a description tells

A description shows the attributes of a feature as a table, a row for each attribute and in it a
cell for the name and one for the text of the value, which stand in the table as they are. So it
depends on these texts what a reader finds and what can be told from the table
(`description_identifies`). A value that holds the tags behind values can pass for further
attributes (`description_injected`).
-/

namespace Cartouche

namespace Feature

/-- The names of the attributes with the texts of their values. -/
def shownAttributes (feature : Feature) : List (String × String) :=
  feature.attributes.entries.map fun (name, value) => (name, value.display)

end Feature

namespace Labeller

open Html

/-- A row of a description is written with the name and the text of the value as they are. -/
theorem toList_tableRow (name : String) (value : AttributeValue) :
    (tableRow name value).toList = writtenRow (name, value.display) := by
  simp [tableRow, writtenRow, writtenCell, written]

/-- The description is the table that is written from the names and the texts, if there are any. -/
theorem description_eq (feature : Feature) :
    templates.description feature =
      .ok (if feature.attributes.isEmpty then none
        else some (String.ofList (writtenTable feature.shownAttributes))) := by
  have hrows : (feature.attributes.entries.map fun (name, value) => tableRow name value).flatMap
      String.toList = feature.shownAttributes.flatMap writtenRow := by
    rw [Feature.shownAttributes, List.flatMap_map, List.flatMap_map]
    exact List.flatMap_congr fun entry _ => toList_tableRow entry.1 entry.2
  have htable : "<table>" ++ String.join (feature.attributes.entries.map fun (name, value) =>
      tableRow name value) ++ "</table>" =
      String.ofList (writtenTable feature.shownAttributes) := by
    rw [← String.toList_inj, String.toList_append, String.toList_append, String.toList_join, hrows,
      List.append_assoc]
    exact String.toList_ofList.symm
  simp only [templates, attributeTable, htable]

/-- A feature with attributes is described by a table. A reader finds in it a row for each attribute
with its name and its value in two cells, and no others, exactly when no tag begins in one of these
texts. Among features whose texts do not hold the tags that stand behind them, only those that show
the same attributes have the same description. -/
theorem description_identifies {feature : Feature} (h : feature.attributes.isEmpty = false) :
    ∃ table, templates.description feature = .ok (some table) ∧
      (scan table = Html.table feature.shownAttributes ↔
        ∀ texts ∈ feature.shownAttributes,
          IsTagless texts.1.toList ∧ IsTagless texts.2.toList) ∧
      ((∀ texts ∈ feature.shownAttributes, IsSeparable texts) →
        ∀ other : Feature, (∀ texts ∈ other.shownAttributes, IsSeparable texts) →
          templates.description other = .ok (some table) →
            other.shownAttributes = feature.shownAttributes) := by
  refine ⟨String.ofList (writtenTable feature.shownAttributes), ?_, ?_, ?_⟩
  · rw [description_eq, h]
    rfl
  · rw [scan, String.toList_ofList, scanFrom_writtenTable_iff]
  · intro hfeature other hother heq
    rw [description_eq] at heq
    split at heq
    · cases heq
    · have htable := String.ofList_injective (Option.some.inj (Except.ok.inj heq))
      exact writtenTable_inj hother hfeature htable

/-- A feature with texts that hold brackets and ends of tags, but no tags of tables. -/
def measured : Feature where
  id := "m"
  attributes := .ofList [("a < b", .bool true), ("note", .text "1 > 0 & <"), ("size", .null)]
  geometry := .point { x := 0.0, y := 0.0 }

/-- Brackets, a text that looks like the end of a tag and a value without text: the description is
read as the table of these attributes, and no feature with other separable attributes has it. -/
theorem description_identifies_measured :
    measured.attributes.isEmpty = false ∧
    ∃ table, templates.description measured = .ok (some table) ∧
      scan table = Html.table [("a < b", "true"), ("note", "1 > 0 & <"), ("size", "")] ∧
      ∀ other : Feature, (∀ texts ∈ other.shownAttributes, IsSeparable texts) →
        templates.description other = .ok (some table) →
          other.shownAttributes = [("a < b", "true"), ("note", "1 > 0 & <"), ("size", "")] := by
  have hshown : measured.shownAttributes =
      [("a < b", "true"), ("note", "1 > 0 & <"), ("size", "")] := by
    decide
  have hmeasured : measured.attributes.isEmpty = false := rfl
  obtain ⟨table, htable, hread, hsame⟩ := description_identifies hmeasured
  rw [hshown] at hread hsame
  exact ⟨hmeasured, table, htable, hread.2 (by decide), hsame (by decide)⟩

/-- A feature with a value that holds the tags behind values and those of another row. -/
def injected : Feature where
  id := "a"
  attributes := .ofList [("A", .text "x</td></tr><tr><td>B</td><td>y")]
  geometry := .point { x := 0.0, y := 0.0 }

/-- A feature with two attributes. -/
def listed : Feature where
  id := "b"
  attributes := .ofList [("A", .text "x"), ("B", .text "y")]
  geometry := .point { x := 0.0, y := 0.0 }

/-- A single value passes for two attributes. -/
theorem description_injected :
    injected.attributes.isEmpty = false ∧ listed.attributes.isEmpty = false ∧
      templates.description injected = templates.description listed ∧
      injected.shownAttributes ≠ listed.shownAttributes := by
  refine ⟨rfl, rfl, ?_, by decide⟩
  rw [description_eq, description_eq]
  decide

end Labeller

end Cartouche
