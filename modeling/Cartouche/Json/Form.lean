import Cartouche.Json.Basic

/-!
# Records and variants in JSON

A type with a `JsonForm` has a fixed JSON form. A record is written as an object with all its
fields, and is read from an object, in which unknown keys are skipped and known ones may not be
repeated, or from an array of its fields in order. `Fields` holds what was found for the declared
names; the three ways to take a field out say what an absent one means. A variant is an object with
one entry. Readers are told where the JSON comes from, because the record that is the content of a
variant has more forms in a text than in a value in memory.
-/

namespace Cartouche

/-- Where JSON is read from: straight from a text, or from a value in memory. -/
inductive Json.Origin where
  | text
  | memory
deriving DecidableEq, Repr

/-- A type that is written to and read from JSON. -/
class JsonForm (α : Type u) where
  toJson : α → Json
  ofJson? : Json.Origin → Json → Option α

namespace Json

/-- The fields found in the JSON form of a record. -/
structure Fields where
  /-- The fields that are present, each at most once. -/
  present : List (String × Json)
  /-- The record was written with keys, not by position. -/
  keyed : Bool
  /-- Where the record is read from. -/
  origin : Origin

/-- No key occurs twice. -/
def distinctKeys : List (String × Json) → Bool
  | [] => true
  | (key, _) :: rest => rest.all (·.1 != key) && distinctKeys rest

/-- Finds the fields with the declared names, which are in the order of the record. -/
def Fields.of? (origin : Origin) (names : List String) : Json → Option Fields
  | .object entries =>
    let present := entries.filter fun (key, _) => names.contains key
    if distinctKeys present then some { present, keyed := true, origin } else none
  | .array items =>
    if items.length ≤ names.length then some { present := names.zip items, keyed := false, origin }
    else none
  | _ => none

/-- The value under a name. -/
def Fields.find? (fields : Fields) (name : String) : Option Json :=
  (fields.present.find? (·.1 == name)).map (·.2)

/-- A field that must be present. -/
def Fields.required {α : Type u} [JsonForm α] (fields : Fields) (name : String) : Option α :=
  (fields.find? name).bind (JsonForm.ofJson? fields.origin)

/-- A field that has a default. -/
def Fields.withDefault {α : Type u} [JsonForm α] (fields : Fields) (name : String) (default : α) :
    Option α :=
  match fields.find? name with
  | some value => JsonForm.ofJson? fields.origin value
  | none => some default

/-- A field that may be left out among keys, but not by position. -/
def Fields.optional {α : Type u} [JsonForm α] (fields : Fields) (name : String) :
    Option (Option α) :=
  match fields.find? name with
  | some .null => some none
  | some value => (JsonForm.ofJson? fields.origin value).map some
  | none => if fields.keyed then some none else none

/-- A record with a single field that must be present. -/
def ofField {α : Type u} [JsonForm α] (name : String) (value : α) : Json :=
  .object [(name, JsonForm.toJson value)]

/-- The single field of such a record. -/
def field? {α : Type u} [JsonForm α] (origin : Origin) (name : String) (json : Json) : Option α :=
  (Fields.of? origin [name] json).bind (·.required name)

/-- The single field of a record that is itself the content of a variant. Only a text may write such
a record by position. -/
def contentField? {α : Type u} [JsonForm α] (origin : Origin) (name : String) (content : Json) :
    Option α :=
  match origin, content with
  | .memory, .array _ => none
  | _, _ => content.field? origin name

/-- The name and the content of a variant. -/
def variant? : Json → Option (String × Json)
  | .object [(name, content)] => some (name, content)
  | _ => none

/-- An object with one entry, which names the variant. -/
def ofVariant (name : String) (content : Json) : Json := .object [(name, content)]

end Json

namespace JsonForm

/-- Any number is read as the nearest double. -/
instance : JsonForm Float where
  toJson := .ofFloat
  ofJson? _ := Json.float?

instance : JsonForm Bool where
  toJson := .bool
  ofJson? _ := Json.bool?

instance : JsonForm String where
  toJson := .text
  ofJson? _ := Json.text?

/-- A character is a text of length one. -/
instance : JsonForm Char where
  toJson c := .text (String.singleton c)
  ofJson?
    | _, .text s =>
      match s.toList with
      | [c] => some c
      | _ => none
    | _, _ => none

/-- A count is an integer literal of 64 bits without sign; `6.0` is none. -/
instance : JsonForm UInt64 where
  toJson n := .ofNat n.toNat
  ofJson?
    | _, .number (.integer n) =>
      if 0 ≤ n ∧ n < UInt64.size then some (UInt64.ofNat n.toNat) else none
    | _, _ => none

/-- An integer literal of 64 bits with sign. -/
instance : JsonForm Int64 where
  toJson n := .ofInt n.toInt
  ofJson?
    | _, .number (.integer n) =>
      if Int64.minValue.toInt ≤ n ∧ n ≤ Int64.maxValue.toInt then some (Int64.ofInt n) else none
    | _, _ => none

/-- An absent value is `null`. -/
instance {α : Type u} [JsonForm α] : JsonForm (Option α) where
  toJson := .ofOption toJson
  ofJson?
    | _, .null => some none
    | origin, value => (ofJson? origin value).map some

/-- A list is an array, read item by item. -/
instance {α : Type u} [JsonForm α] : JsonForm (List α) where
  toJson items := .array (items.map toJson)
  ofJson?
    | origin, .array items => items.mapM (ofJson? origin)
    | _, _ => none

/-- A dictionary is an object; the last value of a repeated key stays. -/
instance {α : Type u} [JsonForm α] : JsonForm (Dict α) where
  toJson d := .object (d.entries.map fun (key, value) => (key, toJson value))
  ofJson?
    | origin, .object entries =>
      (entries.mapM fun (entry : String × Json) =>
        (ofJson? origin entry.2).map (entry.1, ·)).map Dict.ofList
    | _, _ => none

/-! ## Reading what was written -/

/-- A truth value is read as it was written. -/
theorem ofJson?_toJson_bool (origin : Json.Origin) (b : Bool) :
    ofJson? origin (toJson b) = some b := rfl

/-- A text is read as it was written. -/
theorem ofJson?_toJson_string (origin : Json.Origin) (s : String) :
    ofJson? origin (toJson s) = some s := rfl

/-- A finite double is read as it was written. -/
theorem ofJson?_toJson_float (origin : Json.Origin) {x : Float} (h : x.isFinite = true) :
    ofJson? origin (toJson x) = some x := by
  simp [toJson, ofJson?, Json.ofFloat, h, Json.float?, JsonNumber.toFloat]

/-- A character is read as it was written: its text has length one. -/
theorem ofJson?_toJson_char (origin : Json.Origin) (c : Char) :
    ofJson? origin (toJson c) = some c := by
  simp [toJson, ofJson?]

/-- A count is read as it was written, up to the largest one. -/
theorem ofJson?_toJson_uint64 (origin : Json.Origin) (n : UInt64) :
    ofJson? origin (toJson n) = some n := by
  have := n.toNat_lt_size
  simp only [toJson, ofJson?, Json.ofNat]
  rw [if_pos (by omega)]
  simp

/-- An integer of 64 bits is read as it was written, the least one and the largest one included. -/
theorem ofJson?_toJson_int64 (origin : Json.Origin) (n : Int64) :
    ofJson? origin (toJson n) = some n := by
  have := n.le_toInt
  have := n.toInt_lt
  simp only [toJson, ofJson?, Json.ofInt, Int64.toInt_minValue, Int64.toInt_maxValue]
  rw [if_pos (by omega)]
  simp

end JsonForm

end Cartouche
