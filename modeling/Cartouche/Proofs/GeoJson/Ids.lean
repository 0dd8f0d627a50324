import Mathlib.Data.List.Nodup
import Cartouche.Proofs.GeoJson.Import

/-!
# The ids of imported features

Features are told apart by their ids. An item of a collection keeps an id of its own, and an item
without one gets an id made from its number (`Item.idAt`). Ids that are made never meet each other,
but nothing keeps one of them from meeting an id that another item has itself. This is the only way
in which distinct ids of the items do not lead to distinct ids of the features
(`FeatureCollection.nodup_ids_iff`).
-/

namespace Cartouche.GeoJson

/-- The id that is made for the item behind `index` others. -/
def madeId (idStem : String) (index : Nat) : String := idStem ++ "." ++ toString (index + 1)

/-- The id of the feature that the item behind `index` others is converted to. -/
def Item.idAt (idStem : String) (item : Item) (index : Nat) : String :=
  if item.ownId = "" then madeId idStem index else item.ownId

/-- Different numbers make different ids. -/
theorem madeId_inj {idStem : String} {i j : Nat} (h : madeId idStem i = madeId idStem j) :
    i = j := by
  have htext : (i + 1).repr = (j + 1).repr := (String.append_right_inj _).1 h
  have hdigits : Nat.toDigits 10 (i + 1) = Nat.toDigits 10 (j + 1) := by
    rw [← Nat.toList_repr, ← Nat.toList_repr, htext]
  have hvalue := congrArg (Nat.ofDigitChars 10 · 0) hdigits
  simp only [Nat.ofDigitChars_ten_toDigits] at hvalue
  exact Nat.succ.inj hvalue

/-- An id that is made is not empty. -/
theorem madeId_ne_empty (idStem : String) (index : Nat) : madeId idStem index ≠ "" := by
  simp [madeId]

namespace FeatureCollection

variable (collection : FeatureCollection)

/-- The ids that items have themselves, in their order; an empty one is none. -/
def ownIds : List String := (collection.items.map Item.ownId).filter (· ≠ "")

/-- The items that are converted, each with the number of items in front of it. -/
def converted : List (Item × Nat) :=
  collection.items.zipIdx.filter fun (item, _) => item.isConvertible

/-- An item that is converted has itself the id that is made for another one. -/
def Clashes (idStem : String) : Prop :=
  ∃ own ∈ collection.converted, ∃ other ∈ collection.converted,
    other.1.ownId = "" ∧ own.1.ownId = madeId idStem other.2

/-- The ids of the features are those of the converted items, in their order. -/
theorem ids_toFeatures (idStem : String) :
    (collection.toFeatures idStem).map Feature.id =
      collection.converted.map fun (item, index) => item.idAt idStem index := by
  have hconversion := forall₂_filterMap
    (fun entry : Item × Nat => decides_toFeature idStem (entry.2 + 1) entry.1)
    collection.items.zipIdx
  have hids := hconversion.imp fun _ _ h => h.id.symm
  have heq := List.forall₂_map_left_iff.2 (List.forall₂_map_right_iff.2 hids)
  rw [List.forall₂_eq_eq_eq] at heq
  exact heq.symm

/-- Every item has a place of its own, whether or not it is converted. Ids are made from places. -/
theorem nodup_places : (collection.items.zipIdx.map Prod.snd).Nodup := by
  rw [List.zipIdx_map_snd]
  exact List.nodup_range'

/-- No item is converted twice. -/
theorem nodup_converted : collection.converted.Nodup :=
  (List.Nodup.of_map Prod.snd collection.nodup_places).filter _

/-- An id of its own tells the place of an item, if all such ids are distinct. -/
theorem eq_of_ownId_eq (h : collection.ownIds.Nodup) {a b : Item × Nat}
    (ha : a ∈ collection.items.zipIdx) (hb : b ∈ collection.items.zipIdx) (hne : a.1.ownId ≠ "")
    (heq : a.1.ownId = b.1.ownId) : a = b := by
  have hplaces : collection.ownIds =
      (collection.items.zipIdx.filter fun entry => entry.1.ownId ≠ "").map
        fun entry => entry.1.ownId := by
    have hmap : collection.items.map Item.ownId =
        collection.items.zipIdx.map fun entry => entry.1.ownId := by
      conv_lhs => rw [← List.zipIdx_map_fst 0 collection.items, List.map_map]
      rfl
    rw [ownIds, hmap, List.filter_map]
    rfl
  rw [hplaces] at h
  exact List.inj_on_of_nodup_map h (List.mem_filter.2 ⟨ha, decide_eq_true hne⟩)
    (List.mem_filter.2 ⟨hb, decide_eq_true (heq ▸ hne)⟩) heq

/-- As long as the ids that items have themselves are distinct, the ids of the features are distinct
exactly when none of them is made for another item. -/
theorem nodup_ids_iff (idStem : String) (h : collection.ownIds.Nodup) :
    ((collection.toFeatures idStem).map Feature.id).Nodup ↔ ¬ collection.Clashes idStem := by
  rw [ids_toFeatures, List.nodup_map_iff_inj_on collection.nodup_converted]
  constructor
  · rintro hinj ⟨own, hown, other, hother, hnone, hid⟩
    have hne : own.1.ownId ≠ "" := by
      rw [hid]
      exact madeId_ne_empty idStem other.2
    have heq : own = other := by
      refine hinj own hown other hother ?_
      show own.1.idAt idStem own.2 = other.1.idAt idStem other.2
      rw [Item.idAt, Item.idAt, if_neg hne, if_pos hnone, hid]
    rw [heq] at hne
    exact hne hnone
  · intro hclash a ha b hb heq
    have heq : a.1.idAt idStem a.2 = b.1.idAt idStem b.2 := heq
    have hmem := fun {entry} (h : entry ∈ collection.converted) => List.mem_of_mem_filter h
    unfold Item.idAt at heq
    by_cases hnoneA : a.1.ownId = ""
    · by_cases hnoneB : b.1.ownId = ""
      · rw [if_pos hnoneA, if_pos hnoneB] at heq
        exact List.inj_on_of_nodup_map collection.nodup_places (hmem ha) (hmem hb) (madeId_inj heq)
      · rw [if_pos hnoneA, if_neg hnoneB] at heq
        exact absurd ⟨b, hb, a, ha, hnoneA, heq.symm⟩ hclash
    · by_cases hnoneB : b.1.ownId = ""
      · rw [if_neg hnoneA, if_pos hnoneB] at heq
        exact absurd ⟨a, ha, b, hb, hnoneB, heq⟩ hclash
      · rw [if_neg hnoneA, if_neg hnoneB] at heq
        exact collection.eq_of_ownId_eq h (hmem ha) (hmem hb) hnoneA heq

/-- A point without an id behind a point that has the id of the second item of some roads. -/
def roads : FeatureCollection where
  items := [
    { id := some (.text "roads.2"), shape := some (.point [0.0, 0.0]) },
    { shape := some (.point [1.0, 1.0]) }]

/-- With another stem the made id does not meet the id that the first item has itself. -/
theorem nodup_ids_iff_roads : roads.ownIds.Nodup ∧ ¬ roads.Clashes "streets" := by
  have hown : roads.ownIds.Nodup := by decide
  have hids : (roads.toFeatures "streets").map Feature.id = ["roads.2", "streets.2"] := rfl
  refine ⟨hown, (roads.nodup_ids_iff "streets" hown).1 ?_⟩
  rw [hids]
  decide

/-- Distinct ids of items do not always lead to distinct ids of features. -/
theorem not_nodup_ids_roads :
    roads.ownIds.Nodup ∧ (roads.toFeatures "roads").map Feature.id = ["roads.2", "roads.2"] ∧
      ¬ ((roads.toFeatures "roads").map Feature.id).Nodup := by
  have hids : (roads.toFeatures "roads").map Feature.id = ["roads.2", "roads.2"] := rfl
  refine ⟨by decide, hids, ?_⟩
  rw [hids]
  decide

end FeatureCollection

end Cartouche.GeoJson
