/-!
# Layout of a placeholder

Behind the name in a placeholder stands how its text is laid out: what it is cut to, how wide it is
padded, with what and on which side. `TextLayout.parse` reads that from left to right and each part
is optional; `TextLayout.apply` follows it. The layout may also ask for things that make sense for
numbers only, such as a sign; texts refuse them.
-/

namespace Cartouche

/-- Where a text stands in a wider field. -/
inductive Alignment where
  | left
  | right
  | center
  /-- Between a sign and the digits, which a text has not. -/
  | afterSign
deriving DecidableEq, Repr

/-- The alignment that a character asks for. -/
def Alignment.ofChar? : Char → Option Alignment
  | '<' => some .left
  | '>' => some .right
  | '^' => some .center
  | '=' => some .afterSign
  | _ => none

/-- What is wrong with a layout. -/
inductive LayoutError where
  | widthOverflow
  | precisionOverflow
  | missingPrecision
  | unreadable
  | unknownType (type : Char)
  | commaWithType (type : Char)
  | typeForText (type : Char)
  | alternateForText
  | commaForText
  | signForText
  | alignmentForText
deriving DecidableEq, Repr

/-- How a text is laid out. -/
structure TextLayout where
  fill : Char := ' '
  align : Alignment := .left
  signed : Bool := false
  alternate : Bool := false
  /-- The least number of characters. -/
  width : Nat := 0
  grouped : Bool := false
  /-- The greatest number of characters. -/
  precision : Option Nat := none
  type : Option Char := none
deriving DecidableEq, Repr

namespace TextLayout

/-- A count at the front, if there is one; it has to stay below `2 ^ 63`. -/
def readCount (overflow : LayoutError) (chars : List Char) :
    Except LayoutError (Option Nat × List Char) :=
  match chars.takeWhile Char.isDigit with
  | [] => .ok (none, chars)
  | digits =>
    let count := digits.foldl (fun n c => 10 * n + (c.toNat - '0'.toNat)) 0
    if count < Nat.pow 2 63 then .ok (some count, chars.dropWhile Char.isDigit) else .error overflow

/-- The fill and the alignment at the front. The fill is taken only before an alignment. -/
def readAlignment (chars : List Char) : Option Char × Option Alignment × List Char :=
  match chars with
  | [] => (none, none, [])
  | [a] =>
    match Alignment.ofChar? a with
    | some align => (none, some align, [])
    | none => (none, none, chars)
  | fill :: a :: rest =>
    match Alignment.ofChar? a, Alignment.ofChar? fill with
    | some align, _ => (some fill, some align, rest)
    | none, some align => (none, some align, a :: rest)
    | none, none => (none, none, chars)

/-- The rest without the character in front, if that is one of those wanted, and whether it was. -/
def readFlag (wanted : List Char) : List Char → Bool × List Char
  | c :: rest => if wanted.contains c then (true, rest) else (false, c :: rest)
  | [] => (false, [])

/-- The types a layout may name. -/
def types : List Char := ['b', 'o', 'x', 'X', 'e', 'E', 'f', 'F', '%', 's', '?']

/-- The types that cannot be grouped by commas. -/
def ungroupedTypes : List Char := ['b', 'o', 'x', 'X', 's', '?']

/-- The type, which is all that may be left. -/
def readType : List Char → Except LayoutError (Option Char)
  | [] => .ok none
  | [c] =>
    if 127 < c.toNat then .error .unreadable
    else if types.contains c then .ok (some c)
    else .error (.unknownType c)
  | _ => .error .unreadable

/-- Reads a layout: fill and alignment, sign, `#`, a zero that asks for zeros in front, width,
comma, precision, type. -/
def parse (chars : List Char) : Except LayoutError TextLayout := do
  let (fill, align, chars) := readAlignment chars
  let (signed, chars) := readFlag [' ', '-', '+'] chars
  let (alternate, chars) := readFlag ['#'] chars
  let (zeros, chars) := if fill.isNone then readFlag ['0'] chars else (false, chars)
  let (width, chars) ← readCount .widthOverflow chars
  let (grouped, chars) := readFlag [','] chars
  let (pointed, chars) := readFlag ['.'] chars
  let (precision, chars) ←
    if pointed then readCount .precisionOverflow chars else pure (none, chars)
  if pointed && precision.isNone then throw .missingPrecision
  let type ← readType chars
  if let some c := type then
    if grouped && ungroupedTypes.contains c then throw (.commaWithType c)
  return {
    fill := if zeros then '0' else fill.getD ' '
    align := if zeros then .afterSign else align.getD .left
    width := width.getD 0
    signed, alternate, grouped, precision, type }

/-- The text laid out, or the first thing asked for that a text refuses. -/
def apply (layout : TextLayout) (text : List Char) : Except LayoutError (List Char) := do
  if let some c := layout.type then
    if c ≠ 's' then throw (.typeForText c)
  if layout.alternate then throw .alternateForText
  if layout.grouped then throw .commaForText
  if layout.signed then throw .signForText
  let cut :=
    match layout.precision with
    | some precision => text.take precision
    | none => text
  let missing := layout.width - cut.length
  if missing = 0 then
    return cut
  match layout.align with
  | .left => return cut ++ List.replicate missing layout.fill
  | .right => return List.replicate missing layout.fill ++ cut
  | .center =>
    return List.replicate (missing / 2) layout.fill ++ cut ++
      List.replicate (missing - missing / 2) layout.fill
  | .afterSign => throw .alignmentForText

end TextLayout

end Cartouche
