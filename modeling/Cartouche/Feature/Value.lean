import Cartouche.Json.Form
import Cartouche.Number.Numeral

/-!
# Attribute values

The values a feature carries under the names of its attributes. `AttributeValue.display` is the text
of a value wherever one is shown; `AttributeValue.matchesText` compares a value with a text as
written in a style rule, by reading the text as a value of the same kind.
-/

namespace Cartouche

/-- The value of an attribute. -/
inductive AttributeValue where
  | bool (value : Bool)
  | int64 (value : Int64)
  | double (value : Float)
  | text (value : String)
  | null
deriving BEq, Repr

namespace AttributeValue

/-- There is no value. -/
def isNull : AttributeValue → Bool
  | .null => true
  | _ => false

/-- The text of a truth value. -/
def boolText (b : Bool) : String := if b then "true" else "false"

/-- The text of a value; that of no value is empty. -/
def display : AttributeValue → String
  | .bool b => boolText b
  | .int64 n => toString n.toInt
  | .double x => NumberStyle.plain.text x
  | .text s => s
  | .null => ""

/-- The value equals what the text says when it is read as a value of this kind. No text says that
there is no value. -/
def matchesText (value : AttributeValue) (text : String) : Bool :=
  match value with
  | .bool b => text == boolText b
  | .int64 n => parseInt64? text == some n
  | .double x => (parseFloat? text).any (· == x)
  | .text s => s == text
  | .null => false

/-- A value is written without its kind, and read as the first kind that it can be. -/
instance : JsonForm AttributeValue where
  toJson
    | .bool b => JsonForm.toJson b
    | .int64 n => JsonForm.toJson n
    | .double x => JsonForm.toJson x
    | .text s => JsonForm.toJson s
    | .null => .null
  ofJson? origin json :=
    ((JsonForm.ofJson? origin json).map bool).or <|
    ((JsonForm.ofJson? origin json).map int64).or <|
    ((JsonForm.ofJson? origin json).map double).or <|
    ((JsonForm.ofJson? origin json).map text).or <|
    match json with
    | .null => some null
    | _ => none

end AttributeValue

end Cartouche
