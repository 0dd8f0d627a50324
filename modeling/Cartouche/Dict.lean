/-!
# Dictionaries in key order

A `Dict` maps texts to values and keeps its entries in ascending order of the keys, compared by code
point, which is also the order of their UTF-8 bytes. Every key occurs once; the order is part of the
type, so two dictionaries with the same content are equal.
-/

namespace Cartouche

/-- A finite map from texts to values, as its entries in ascending order of the keys. -/
structure Dict (β : Type u) where
  entries : List (String × β)
  ordered : entries.Pairwise (fun a b => a.1 < b.1)

namespace Dict

variable {β : Type u}

/-- The dictionary without entries. -/
def empty : Dict β where
  entries := []
  ordered := .nil

instance : Inhabited (Dict β) := ⟨empty⟩

/-- Puts an entry at its place among ordered entries, replacing one with the same key. -/
def insertEntry (key : String) (value : β) : List (String × β) → List (String × β)
  | [] => [(key, value)]
  | (k, v) :: rest =>
    if key < k then (key, value) :: (k, v) :: rest
    else if key = k then (key, value) :: rest
    else (k, v) :: insertEntry key value rest

/-- An entry after an insertion has the inserted key or was there before. -/
theorem key_of_mem_insertEntry {key : String} {value : β} {entries : List (String × β)}
    {e : String × β} (h : e ∈ insertEntry key value entries) : e.1 = key ∨ e ∈ entries := by
  induction entries with
  | nil => simp_all [insertEntry]
  | cons head rest ih =>
    obtain ⟨k, v⟩ := head
    unfold insertEntry at h
    split at h
    · rcases List.mem_cons.1 h with rfl | h
      · exact .inl rfl
      · exact .inr h
    · split at h
      · rcases List.mem_cons.1 h with rfl | h
        · exact .inl rfl
        · exact .inr (List.mem_cons_of_mem _ h)
      · rcases List.mem_cons.1 h with rfl | h
        · exact .inr List.mem_cons_self
        · exact (ih h).imp_right (List.mem_cons_of_mem _)

/-- An entry is inserted at its place, so the entries stay in the order of their keys. This is what
makes insertion a function on dictionaries. -/
theorem ordered_insertEntry (key : String) (value : β) {entries : List (String × β)}
    (h : entries.Pairwise (fun a b => a.1 < b.1)) :
    (insertEntry key value entries).Pairwise (fun a b => a.1 < b.1) := by
  induction entries with
  | nil => simp [insertEntry]
  | cons head rest ih =>
    obtain ⟨k, v⟩ := head
    obtain ⟨hk, hrest⟩ := List.pairwise_cons.1 h
    unfold insertEntry
    split
    · next hlt =>
      refine List.pairwise_cons.2 ⟨fun e he => ?_, h⟩
      rcases List.mem_cons.1 he with rfl | he
      · exact hlt
      · exact String.lt_trans hlt (hk e he)
    · split
      · next heq =>
        exact List.pairwise_cons.2 ⟨fun e he => heq ▸ hk e he, hrest⟩
      · next hnlt hne =>
        refine List.pairwise_cons.2 ⟨fun e he => ?_, ih hrest⟩
        rcases key_of_mem_insertEntry he with h' | h'
        · rw [h']
          exact Decidable.byContradiction fun hn =>
            hne (String.le_antisymm (String.not_lt.1 hn) (String.not_lt.1 hnlt))
        · exact hk e h'

/-- The dictionary with one entry set. -/
def insert (d : Dict β) (key : String) (value : β) : Dict β where
  entries := insertEntry key value d.entries
  ordered := ordered_insertEntry key value d.ordered

/-- The value of a key. -/
def get? (d : Dict β) (key : String) : Option β :=
  (d.entries.find? (·.1 == key)).map (·.2)

/-- An inserted entry is found. -/
theorem find?_insertEntry_self (key : String) (value : β) (entries : List (String × β)) :
    (insertEntry key value entries).find? (·.1 == key) = some (key, value) := by
  induction entries with
  | nil => simp [insertEntry]
  | cons head rest ih =>
    unfold insertEntry
    split
    · simp
    · split
      · simp
      · next hne => simp [ih, Ne.symm hne]

/-- Under other keys insertion changes nothing. -/
theorem find?_insertEntry_of_ne {key other : String} (h : other ≠ key) (value : β)
    (entries : List (String × β)) :
    (insertEntry key value entries).find? (·.1 == other) = entries.find? (·.1 == other) := by
  induction entries with
  | nil => simp [insertEntry, Ne.symm h]
  | cons head rest ih =>
    unfold insertEntry
    split
    · simp [Ne.symm h]
    · split
      · next heq => simp [← heq, Ne.symm h]
      · simp only [List.find?_cons, ih]

/-- The value that was set is found. -/
theorem get?_insert_self (d : Dict β) (key : String) (value : β) :
    (d.insert key value).get? key = some value := by
  simp [get?, insert, find?_insertEntry_self]

/-- Other values stay as they are. -/
theorem get?_insert_of_ne (d : Dict β) {key other : String} (h : other ≠ key) (value : β) :
    (d.insert key value).get? other = d.get? other := by
  simp [get?, insert, find?_insertEntry_of_ne h]

/-- Sets entries one after the other, so the last value of a repeated key stays. -/
def ofList (entries : List (String × β)) : Dict β :=
  entries.foldl (fun d (key, value) => d.insert key value) empty

/-- There are no entries. -/
def isEmpty (d : Dict β) : Bool := d.entries.isEmpty

/-- Two dictionaries agree when their entries do, by the comparison of the values. -/
instance [BEq β] : BEq (Dict β) := ⟨fun a b => a.entries == b.entries⟩

/-- The same keys with other values. -/
def mapValues {γ : Type v} (f : β → γ) (d : Dict β) : Dict γ where
  entries := d.entries.map fun (key, value) => (key, f value)
  ordered := List.pairwise_map.2 d.ordered

end Dict

end Cartouche
