import Cartouche.Json.Basic

/-!
# Reading JSON text

`Json.parse?` accepts exactly one JSON value with blanks around it. The grammar is strict: no
leading zeros, no bare points, no trailing commas, no raw controls in texts. What is well formed but
denotes nothing becomes `Json.meaningless`. Every function takes a bound on the remaining steps; the
length of the text is always enough, because each step consumes a character.
-/

namespace Cartouche.Json

/-- The four blanks of JSON. -/
def isBlank (c : Char) : Bool := c == ' ' || c == '\t' || c == '\n' || c == '\r'

/-- The text behind its leading blanks. -/
def skipBlanks (chars : List Char) : List Char := chars.dropWhile isBlank

/-- The value of a hexadecimal digit. -/
def hexValue? (c : Char) : Option Nat :=
  if '0' ≤ c ∧ c ≤ '9' then some (c.toNat - '0'.toNat)
  else if 'a' ≤ c ∧ c ≤ 'f' then some (c.toNat - 'a'.toNat + 10)
  else if 'A' ≤ c ∧ c ≤ 'F' then some (c.toNat - 'A'.toNat + 10)
  else none

/-- The number that four hexadecimal digits write. -/
def hexUnit? (a b c d : Char) : Option Nat := do
  return ((← hexValue? a) * 16 + (← hexValue? b)) * 256 + (← hexValue? c) * 16 + (← hexValue? d)

/-- What a one-letter escape stands for. -/
def escaped? : Char → Option Char
  | '"' => some '"'
  | '\\' => some '\\'
  | '/' => some '/'
  | 'b' => some '\x08'
  | 'f' => some '\x0c'
  | 'n' => some '\n'
  | 'r' => some '\r'
  | 't' => some '\t'
  | _ => none

/-- A text being read: its characters so far, last first, an escaped first half of a surrogate pair
that waits for the second, and whether every half has met its partner. -/
structure Quoted where
  reversed : List Char
  pending : Option Nat
  sound : Bool

/-- Adds a character; a waiting half stays alone. -/
def Quoted.push (q : Quoted) (c : Char) : Quoted where
  reversed := c :: q.reversed
  pending := none
  sound := q.sound && q.pending.isNone

/-- Adds an escaped unit of 16 bits. -/
def Quoted.pushUnit (q : Quoted) (unit : Nat) : Quoted :=
  if 0xD800 ≤ unit ∧ unit < 0xDC00 then
    { q with pending := some unit, sound := q.sound && q.pending.isNone }
  else if 0xDC00 ≤ unit ∧ unit < 0xE000 then
    match q.pending with
    | some high =>
      { q with
        reversed := Char.ofNat (0x10000 + (high - 0xD800) * 0x400 + (unit - 0xDC00)) :: q.reversed
        pending := none }
    | none => { q with sound := false }
  else
    q.push (Char.ofNat unit)

/-- The text read, if it denotes one. -/
def Quoted.text? (q : Quoted) : Option String :=
  if q.sound && q.pending.isNone then some (String.ofList q.reversed.reverse) else none

/-- Reads up to the closing quote; the text is `none` when it holds half of a surrogate pair. -/
def readQuoted (q : Quoted) : List Char → Option (Option String × List Char)
  | [] => none
  | '"' :: rest => some (q.text?, rest)
  | '\\' :: 'u' :: a :: b :: c :: d :: rest =>
    match hexUnit? a b c d with
    | some unit => readQuoted (q.pushUnit unit) rest
    | none => none
  | '\\' :: letter :: rest =>
    match escaped? letter with
    | some c => readQuoted (q.push c) rest
    | none => none
  | c :: rest => if c.toNat < 0x20 ∨ c = '\\' then none else readQuoted (q.push c) rest

/-- Reads a text behind its opening quote. -/
def readText (chars : List Char) : Option (Option String × List Char) :=
  readQuoted { reversed := [], pending := none, sound := true } chars

/-- The value that a number literal denotes. An integer literal beyond 64 bits is a double, and so
is `-0`. -/
def numberValue (numeral : Numeral) (integral : Bool) : Json :=
  let value : Int := if numeral.negative then -numeral.digits else numeral.digits
  if integral ∧ Int64.minValue.toInt ≤ value ∧ value < UInt64.size ∧
      ¬(numeral.negative ∧ value = 0) then
    .number (.integer value)
  else
    let x := numeral.toFloat
    if x.isFinite then .number (.float x) else .meaningless

/-- The digits in front, at least one, and the rest. -/
def readDigits (chars : List Char) : Option (List Char × List Char) :=
  match chars.takeWhile Char.isDigit with
  | [] => none
  | digits => some (digits, chars.dropWhile Char.isDigit)

/-- Reads the fraction of a number, if there is one. -/
def readFraction : List Char → Option (List Char × List Char)
  | '.' :: rest => readDigits rest
  | rest => some ([], rest)

/-- Reads the exponent of a number, if there is one. -/
def readExponent (chars : List Char) : Option (Option Int × List Char) :=
  match chars with
  | [] => some (none, [])
  | c :: rest =>
    if c = 'e' ∨ c = 'E' then
      let (negative, rest) := Numeral.splitSign rest
      match readDigits rest with
      | some (digits, rest) =>
        let value : Int := Numeral.digitsValue digits
        some (some (if negative then -value else value), rest)
      | none => none
    else
      some (none, chars)

/-- Reads a number: a whole part without leading zeros, a fraction, an exponent. -/
def readNumber (chars : List Char) : Option (Json × List Char) := do
  let (negative, chars) :=
    match chars with
    | '-' :: rest => (true, rest)
    | rest => (false, rest)
  let (whole, chars) ← readDigits chars
  if whole.head? = some '0' ∧ whole.length ≠ 1 then none
  let (fraction, chars) ← readFraction chars
  let (exponent, chars) ← readExponent chars
  let numeral : Numeral :=
    { negative
      digits := Numeral.digitsValue (whole ++ fraction)
      exponent := exponent.getD 0 - fraction.length }
  return (numberValue numeral (fraction.isEmpty && exponent.isNone), chars)

/-- Containers may be nested this deep, less one. -/
def depthLimit : Nat := 128

/-- A container inside `depth` others; one that is nested too deeply denotes nothing. -/
def nested (depth : Nat) (value : Json) : Json :=
  if depth + 1 < depthLimit then value else .meaningless

mutual

/-- Reads a value inside `depth` containers. -/
def readValue : Nat → Nat → List Char → Option (Json × List Char)
  | 0, _, _ => none
  | steps + 1, depth, chars =>
    match skipBlanks chars with
    | 'n' :: 'u' :: 'l' :: 'l' :: rest => some (.null, rest)
    | 't' :: 'r' :: 'u' :: 'e' :: rest => some (.bool true, rest)
    | 'f' :: 'a' :: 'l' :: 's' :: 'e' :: rest => some (.bool false, rest)
    | '"' :: rest =>
      match readText rest with
      | some (some s, rest) => some (.text s, rest)
      | some (none, rest) => some (.meaningless, rest)
      | none => none
    | '[' :: rest =>
      match skipBlanks rest with
      | ']' :: rest => some (nested depth (.array []), rest)
      | _ =>
        match readItems steps (depth + 1) rest with
        | some (items, rest) => some (nested depth (.array items), rest)
        | none => none
    | '\x7b' :: rest =>
      match skipBlanks rest with
      | '\x7d' :: rest => some (nested depth (.object []), rest)
      | _ =>
        match readEntries steps (depth + 1) rest with
        | some (some entries, rest) => some (nested depth (.object entries), rest)
        | some (none, rest) => some (.meaningless, rest)
        | none => none
    | rest => readNumber rest

/-- Reads the items of an array up to its closing bracket. -/
def readItems : Nat → Nat → List Char → Option (List Json × List Char)
  | 0, _, _ => none
  | steps + 1, depth, chars =>
    match readValue steps depth chars with
    | none => none
    | some (item, rest) =>
      match skipBlanks rest with
      | ']' :: rest => some ([item], rest)
      | ',' :: rest =>
        match readItems steps depth rest with
        | some (items, rest) => some (item :: items, rest)
        | none => none
      | _ => none

/-- Reads the entries of an object up to its closing brace; they are `none` when a key holds half of
a surrogate pair. -/
def readEntries : Nat → Nat → List Char → Option (Option (List (String × Json)) × List Char)
  | 0, _, _ => none
  | steps + 1, depth, chars =>
    match skipBlanks chars with
    | '"' :: rest =>
      match readText rest with
      | none => none
      | some (key, rest) =>
        match skipBlanks rest with
        | ':' :: rest =>
          match readValue steps depth rest with
          | none => none
          | some (value, rest) =>
            match skipBlanks rest with
            | '\x7d' :: rest => some (key.map fun key => [(key, value)], rest)
            | ',' :: rest =>
              match readEntries steps depth rest with
              | some (entries, rest) =>
                some (key.bind fun key => entries.map fun entries => (key, value) :: entries, rest)
              | none => none
            | _ => none
        | _ => none
    | _ => none

end

/-- The value that a text writes. -/
def parse? (source : String) : Option Json :=
  let chars := source.toList
  match readValue (chars.length + 1) 0 chars with
  | some (value, rest) => if skipBlanks rest = [] then some value else none
  | none => none

end Cartouche.Json
