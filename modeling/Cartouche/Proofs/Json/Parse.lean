import Cartouche.Json.Parse

/-!
# The numbers of a text

A JSON text writes integers of 64 bits, with or without a sign, and finite doubles, and no other
numbers (`JsonNumber.IsLiteral`). `Json.parts` lists a value and all values inside it; every number
among the parts of a value that was read from a text is one of these (`isLiteral_of_parse?`). The
steps of the reader bound nothing here: whatever a step reads consists of literals, by induction on
the steps that are left.
-/

namespace Cartouche

/-- The number can be written as text: an integer of 64 bits, or a finite double. -/
def JsonNumber.IsLiteral : JsonNumber → Prop
  | .integer n => Int64.minValue.toInt ≤ n ∧ n < UInt64.size
  | .float x => x.isFinite

namespace Json

mutual

/-- The value itself and all values inside it. -/
def parts : Json → List Json
  | .array items => .array items :: itemParts items
  | .object entries => .object entries :: entryParts entries
  | value => [value]

/-- The parts of items. -/
def itemParts : List Json → List Json
  | [] => []
  | item :: rest => parts item ++ itemParts rest

/-- The parts of the values of entries. -/
def entryParts : List (String × Json) → List Json
  | [] => []
  | (_, value) :: rest => parts value ++ entryParts rest

end

/-- All numbers among the values are literals. -/
def HasLiterals (values : List Json) : Prop := ∀ n, .number n ∈ values → n.IsLiteral

/-- Literals in front of literals are literals. -/
theorem HasLiterals.append {first second : List Json} (h : HasLiterals first)
    (h' : HasLiterals second) : HasLiterals (first ++ second) := fun n hn =>
  (List.mem_append.1 hn).elim (h n) (h' n)

/-- An integer beyond 64 bits has become a double, and a double beyond the range means nothing. -/
theorem hasLiterals_numberValue (numeral : Numeral) (integral : Bool) :
    HasLiterals (numberValue numeral integral).parts := by
  unfold numberValue
  extract_lets value x
  split
  · next h =>
    simp only [HasLiterals, parts, List.mem_singleton, number.injEq, forall_eq]
    exact ⟨h.2.1, h.2.2.1⟩
  · split
    · next h =>
      simp only [HasLiterals, parts, List.mem_singleton, number.injEq, forall_eq]
      exact h
    · simp [HasLiterals, parts]

/-- What is read as a number is the value of a numeral. -/
theorem exists_of_readNumber {chars rest : List Char} {value : Json}
    (h : readNumber chars = some (value, rest)) :
    ∃ numeral integral, value = numberValue numeral integral := by
  simp only [readNumber, Option.bind_eq_bind, Option.bind_eq_some_iff] at h
  obtain ⟨_, -, h⟩ := h
  split at h
  · cases h
  · simp only [Option.bind_eq_some_iff] at h
    obtain ⟨_, -, _, -, h⟩ := h
    cases h
    exact ⟨_, _, rfl⟩

/-- A container holds the literals it was read with, or denotes nothing and holds none. -/
theorem hasLiterals_nested {depth : Nat} {value : Json} (h : HasLiterals value.parts) :
    HasLiterals (nested depth value).parts := by
  unfold nested
  split
  · exact h
  · simp [HasLiterals, parts]

mutual

/-- The value that is read consists of literals. -/
theorem hasLiterals_readValue {steps depth : Nat} {chars rest : List Char} {value : Json}
    (h : readValue steps depth chars = some (value, rest)) : HasLiterals value.parts := by
  cases steps with
  | zero => simp [readValue] at h
  | succ steps =>
    unfold readValue at h
    split at h
    -- the three words
    · cases h
      simp [HasLiterals, parts]
    · cases h
      simp [HasLiterals, parts]
    · cases h
      simp [HasLiterals, parts]
    -- a text
    · split at h
      · cases h
        simp [HasLiterals, parts]
      · cases h
        simp [HasLiterals, parts]
      · cases h
    -- an array
    · split at h
      · cases h
        exact hasLiterals_nested (by simp [HasLiterals, parts, itemParts])
      · split at h
        · next hitems =>
          cases h
          have hparts := hasLiterals_readItems hitems
          exact hasLiterals_nested (by simpa [HasLiterals, parts] using hparts)
        · cases h
    -- an object
    · split at h
      · cases h
        exact hasLiterals_nested (by simp [HasLiterals, parts, entryParts])
      · split at h
        · next hentries =>
          cases h
          have hparts := hasLiterals_readEntries hentries
          exact hasLiterals_nested (by simpa [HasLiterals, parts] using hparts)
        · cases h
          simp [HasLiterals, parts]
        · cases h
    -- a number
    · obtain ⟨numeral, integral, rfl⟩ := exists_of_readNumber h
      exact hasLiterals_numberValue numeral integral

/-- The items that are read consist of literals. -/
theorem hasLiterals_readItems {steps depth : Nat} {chars rest : List Char} {items : List Json}
    (h : readItems steps depth chars = some (items, rest)) : HasLiterals (itemParts items) := by
  cases steps with
  | zero => simp [readItems] at h
  | succ steps =>
    unfold readItems at h
    split at h
    · cases h
    · next hvalue =>
      have hitem := hasLiterals_readValue hvalue
      split at h
      · cases h
        simpa [itemParts] using hitem
      · split at h
        · next hitems =>
          cases h
          exact hitem.append (hasLiterals_readItems hitems)
        · cases h
      · cases h

/-- The entries that are read consist of literals. -/
theorem hasLiterals_readEntries {steps depth : Nat} {chars rest : List Char}
    {entries : List (String × Json)}
    (h : readEntries steps depth chars = some (some entries, rest)) :
    HasLiterals (entryParts entries) := by
  cases steps with
  | zero => simp [readEntries] at h
  | succ steps =>
    unfold readEntries at h
    split at h
    · split at h
      · cases h
      · split at h
        · split at h
          · cases h
          · next hvalue =>
            have hentry := hasLiterals_readValue hvalue
            split at h
            · simp only [Option.some.injEq, Prod.mk.injEq, Option.map_eq_some_iff] at h
              obtain ⟨⟨_, -, rfl⟩, -⟩ := h
              simpa [entryParts] using hentry
            · split at h
              · next hentries =>
                simp only [Option.some.injEq, Prod.mk.injEq, Option.bind_eq_some_iff,
                  Option.map_eq_some_iff] at h
                obtain ⟨⟨_, -, _, rfl, rfl⟩, -⟩ := h
                exact hentry.append (hasLiterals_readEntries hentries)
              · cases h
            · cases h
        · cases h
    · cases h

end

/-- Every number in a value that was read from a text is one that a text can write. -/
theorem isLiteral_of_parse? {source : String} {json : Json} (h : parse? source = some json)
    {n : JsonNumber} (hn : .number n ∈ json.parts) : n.IsLiteral := by
  unfold parse? at h
  extract_lets chars at h
  split at h
  · next value rest hread =>
    split at h
    · cases h
      exact hasLiterals_readValue hread n hn
    · cases h
  · cases h

end Json

end Cartouche
