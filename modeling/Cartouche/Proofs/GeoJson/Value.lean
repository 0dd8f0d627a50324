import Cartouche.GeoJson.Basic
import Cartouche.Proofs.Json.Parse

/-!
# Attribute values from JSON

Attributes are loaded in two ways. As the JSON form of an attribute value, a value is read as the
first kind that it can be: a truth value, an integer with sign, a double, a text, nothing at all. As
a property in a feature collection, it is converted by a look at its kind. The two agree on scalars,
and the JSON form has no lists and no objects (`ofJson?_eq_propertyValue`). They would part at
integers below the least one with sign, which are no integers any more when they come from a text.
-/

namespace Cartouche

namespace Json

/-- The value is a word, a number or a text. -/
def isScalar : Json → Bool
  | .null | .bool _ | .number _ | .text _ => true
  | _ => false

/-- The integer of an integer literal. -/
def integer? : Json → Option Int
  | .number (.integer n) => some n
  | _ => none

/-- The integers of an array of integer literals. -/
def integers? (json : Json) : Option (List Int) := json.array?.bind (·.mapM integer?)

/-- Only a literal has an integer. -/
theorem eq_number_of_integer? {json : Json} {n : Int} (h : json.integer? = some n) :
    json = .number (.integer n) := by
  unfold integer? at h
  split at h
  · rw [Option.some_inj.1 h]
  · cases h

/-- Only an array of literals has integers, so what a text is read as can be told by them. -/
theorem eq_array_of_integers? {json : Json} {ns : List Int} (h : json.integers? = some ns) :
    json = .array (ns.map fun n => .number (.integer n)) := by
  obtain ⟨items, harray, hitems⟩ := Option.bind_eq_some_iff.1 h
  have hjson : json = .array items := by
    unfold array? at harray
    split at harray
    · rw [Option.some_inj.1 harray]
    · cases harray
  rw [hjson, array.injEq]
  clear h harray hjson
  induction items generalizing ns with
  | nil =>
    cases hitems
    rfl
  | cons item rest ih =>
    rw [List.mapM_cons] at hitems
    obtain ⟨n, hn, hitems⟩ := Option.bind_eq_some_iff.1 hitems
    obtain ⟨rest', hrest, hns⟩ := Option.bind_eq_some_iff.1 hitems
    cases hns
    rw [List.map_cons, eq_number_of_integer? hn, ih hrest]

end Json

namespace GeoJson

/-- An integer that fits is one in both ways, and a larger one is the nearest double in both. -/
theorem ofJson?_number (origin : Json.Origin) {n : JsonNumber} (h : n.IsLiteral) :
    JsonForm.ofJson? origin (Json.number n) = some (numberValue n) := by
  cases n with
  | float x => rfl
  | integer n =>
    obtain ⟨hlow, -⟩ := h
    by_cases hfits : n ≤ Int64.maxValue.toInt
    · have hint : (JsonForm.ofJson? origin (Json.number (.integer n)) : Option Int64) =
          some (Int64.ofInt n) := if_pos ⟨hlow, hfits⟩
      have hvalue : numberValue (.integer n) = .int64 (Int64.ofInt n) := if_pos hfits
      rw [hvalue]
      simp only [JsonForm.ofJson?] at hint ⊢
      rw [hint]
      rfl
    · have hint : (JsonForm.ofJson? origin (Json.number (.integer n)) : Option Int64) = none :=
        if_neg fun hboth => hfits hboth.2
      have hvalue : numberValue (.integer n) = .double (JsonNumber.integer n).toFloat :=
        if_neg hfits
      rw [hvalue]
      simp only [JsonForm.ofJson?] at hint ⊢
      rw [hint]
      rfl

/-- Whatever a text holds, at any depth: a scalar is the same attribute value as the JSON form of
one and as a property, and nothing else is the JSON form of an attribute value. -/
theorem ofJson?_eq_propertyValue {source : String} {json : Json}
    (h : Json.parse? source = some json) {value : Json} (hvalue : value ∈ json.parts)
    (origin : Json.Origin) :
    JsonForm.ofJson? origin value =
      if value.isScalar then some (propertyValue value) else none := by
  cases value with
  | null => rfl
  | bool b => rfl
  | number n => exact ofJson?_number origin (Json.isLiteral_of_parse? h hvalue)
  | text s => rfl
  | array items => rfl
  | object entries => rfl
  | meaningless => rfl

/-- One integer that fits, and the first one that does not: it is read as a double. -/
theorem ofJson?_eq_propertyValue_large :
    Json.parse? "[5,9223372036854775808]" =
        some (.array [.number (.integer 5), .number (.integer 9223372036854775808)]) ∧
      ∀ origin, JsonForm.ofJson? origin (Json.number (.integer 9223372036854775808)) =
        some (AttributeValue.double (JsonNumber.integer 9223372036854775808).toFloat) := by
  have hparse : Json.parse? "[5,9223372036854775808]" =
      some (.array [.number (.integer 5), .number (.integer 9223372036854775808)]) := by
    have hnumbers : (Json.parse? "[5,9223372036854775808]").bind Json.integers? =
        some [5, 9223372036854775808] := by
      decide +kernel
    obtain ⟨json, hjson, hread⟩ := Option.bind_eq_some_iff.1 hnumbers
    rw [hjson, Json.eq_array_of_integers? hread]
    rfl
  refine ⟨hparse, fun origin => ?_⟩
  exact ofJson?_eq_propertyValue hparse (by simp [Json.parts, Json.itemParts]) origin

end GeoJson

end Cartouche
