import Cartouche.Dict
import Cartouche.Number.Style
import Cartouche.Number.Numeral

/-!
# JSON values

`Json` keeps apart what later readers tell apart: an integer literal and a number with a fraction,
and entries of an object in the order and multiplicity in which they were written. `Json.compact`
writes a value without blanks, `Json.normal` puts every object into its normal form.
-/

namespace Cartouche

/-- A number as JSON text tells it: an integer of 64 bits, signed or not, or a double. -/
inductive JsonNumber where
  | integer (value : Int)
  | float (value : Float)
deriving Repr

/-- The nearest double. -/
def JsonNumber.toFloat : JsonNumber → Float
  | .integer n => ({ negative := n < 0, digits := n.natAbs, exponent := 0 } : Numeral).toFloat
  | .float x => x

/-- A JSON value. -/
inductive Json where
  | null
  | bool (value : Bool)
  | number (value : JsonNumber)
  | text (value : String)
  | array (items : List Json)
  | object (entries : List (String × Json))
  /-- Well formed as text but without a value: a number beyond the doubles, a text or a key with
  half of a surrogate pair, containers nested too deeply. Readers that use it fail, readers that
  skip it do not. -/
  | meaningless
deriving Inhabited

namespace Json

/-- An integer literal. -/
def ofNat (n : Nat) : Json := .number (.integer n)

/-- An integer literal. -/
def ofInt (n : Int) : Json := .number (.integer n)

/-- A double as a number with a fraction. Infinities and NaN have no JSON form and become `null`. -/
def ofFloat (x : Float) : Json := if x.isFinite then .number (.float x) else .null

/-- A value, or `null` in its place. -/
def ofOption {α : Type u} (toJson : α → Json) : Option α → Json
  | some a => toJson a
  | none => .null

/-- The double that a number denotes. -/
def float? : Json → Option Float
  | .number n => some n.toFloat
  | _ => none

/-- The text of a text. -/
def text? : Json → Option String
  | .text s => some s
  | _ => none

/-- The truth value of a truth value. -/
def bool? : Json → Option Bool
  | .bool b => some b
  | _ => none

/-- The items of an array. -/
def array? : Json → Option (List Json)
  | .array items => some items
  | _ => none

/-- The last value written under a key of an object. -/
def member? (key : String) : Json → Option Json
  | .object entries => (entries.reverse.find? (·.1 == key)).map (·.2)
  | _ => none

mutual

/-- The value with the entries of every object in the order of their keys, the last one of a
repeated key only. -/
def normal : Json → Json
  | .array items => .array (normalItems items)
  | .object entries => .object (Dict.ofList (normalEntries entries)).entries
  | value => value

/-- `normal` on every item. -/
def normalItems : List Json → List Json
  | [] => []
  | item :: rest => normal item :: normalItems rest

/-- `normal` on every value of the entries. -/
def normalEntries : List (String × Json) → List (String × Json)
  | [] => []
  | (key, value) :: rest => (key, normal value) :: normalEntries rest

end

/-- A hexadecimal digit in lower case. -/
def hexChar (digit : Nat) : Char := (Nat.toDigits 16 digit).headD '0'

/-- A character inside a quoted text: quotes, backslashes and controls are escaped. -/
def escapeChar (c : Char) : List Char :=
  match c with
  | '"' => ['\\', '"']
  | '\\' => ['\\', '\\']
  | '\n' => ['\\', 'n']
  | '\r' => ['\\', 'r']
  | '\t' => ['\\', 't']
  | '\x08' => ['\\', 'b']
  | '\x0c' => ['\\', 'f']
  | c =>
    if c.toNat < 0x20 then ['\\', 'u', '0', '0', hexChar (c.toNat / 16), hexChar (c.toNat % 16)]
    else [c]

/-- A text in quotes. -/
def quote (s : String) : String :=
  String.ofList ('"' :: s.toList.flatMap escapeChar ++ ['"'])

/-- The text of a number: an integer in digits, a double so that it cannot be taken for one. -/
def numberText : JsonNumber → String
  | .integer n => toString n
  | .float x => NumberStyle.json.text x

mutual

/-- The value as text without blanks, objects in the order of their entries. -/
def compact : Json → String
  | .null => "null"
  | .bool true => "true"
  | .bool false => "false"
  | .number n => numberText n
  | .text s => quote s
  | .array items => "[" ++ compactItems items ++ "]"
  | .object entries => "\x7b" ++ compactEntries entries ++ "\x7d"
  | .meaningless => "null"

/-- Items with commas between them. -/
def compactItems : List Json → String
  | [] => ""
  | [item] => compact item
  | item :: rest => compact item ++ "," ++ compactItems rest

/-- Entries with commas between them. -/
def compactEntries : List (String × Json) → String
  | [] => ""
  | [(key, value)] => quote key ++ ":" ++ compact value
  | (key, value) :: rest => quote key ++ ":" ++ compact value ++ "," ++ compactEntries rest

end

end Json

end Cartouche
