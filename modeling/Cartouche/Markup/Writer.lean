import Cartouche.Markup.Event
import Cartouche.Text.Utf8

/-!
# Writing markup

A `Writer` turns events into bytes, compactly or with one tag a line and two blanks for each open
element. The header of a document may be known only at its end: `Writer.reserve` marks the place
once, and `Writer.splice` puts a fragment there later, indented for that place.
-/

namespace Cartouche

/-- The blanks for each level of nesting. -/
def indentStep : Nat := 2

/-- A line break and blanks. -/
def lineBreak (blanks : Nat) : String := "\n" ++ String.ofList (List.replicate blanks ' ')

/-- A place in the bytes of a writer. -/
structure Reservation where
  /-- The number of bytes in front of it. -/
  offset : Nat
  /-- The number of elements that are open there. -/
  depth : Nat
deriving DecidableEq, Repr

/-- Markup as it is written. -/
structure Writer where
  pretty : Bool
  bytes : ByteArray := .empty
  /-- The blanks in front of the next line. -/
  indent : Nat := 0
  /-- The next tag starts a line. -/
  breakPending : Bool := false
  /-- The number of open elements. -/
  depth : Nat := 0
  /-- A place was reserved already. -/
  reserved : Bool := false

namespace Writer

/-- A writer that has written nothing. -/
def new (pretty : Bool) : Writer := { pretty }

/-- The indentation before an event: an end tag stands with its start tag. -/
def indentFor (w : Writer) : Event → Nat
  | .endTag _ => w.indent - indentStep
  | _ => w.indent

/-- The indentation after an event. -/
def indentAfter (w : Writer) : Event → Nat
  | .startTag _ _ => w.indent + indentStep
  | event => w.indentFor event

/-- The number of open elements after an event. -/
def depthAfter (w : Writer) : Event → Nat
  | .startTag _ _ => w.depth + 1
  | .endTag _ => w.depth - 1
  | _ => w.depth

/-- What an event adds to the bytes: its characters, in pretty markup on a line of their own unless
they are text or follow text. -/
def addition (w : Writer) (event : Event) : String :=
  if w.pretty && w.breakPending && !event.isText then
    lineBreak (w.indentFor event) ++ event.render
  else
    event.render

/-- Writes an event. -/
def write (w : Writer) (event : Event) : Writer :=
  { w with
    bytes := w.bytes ++ (w.addition event).toByteArray
    indent := w.indentAfter event
    breakPending := !event.isText
    depth := w.depthAfter event }

/-- Writes events one after the other. -/
def writeAll (w : Writer) (events : List Event) : Writer := events.foldl write w

/-- No events leave the writer as it is. -/
@[simp] theorem writeAll_nil (w : Writer) : w.writeAll [] = w := rfl

/-- Events are written one by one, so what holds after one event is carried through a whole list by
induction. -/
@[simp] theorem writeAll_cons (w : Writer) (event : Event) (events : List Event) :
    w.writeAll (event :: events) = (w.write event).writeAll events := rfl

/-- Writing two lists of events one after the other is writing both as one. -/
theorem writeAll_append (w : Writer) (first second : List Event) :
    w.writeAll (first ++ second) = (w.writeAll first).writeAll second :=
  List.foldl_append

/-- Marks the place for a later fragment; only the first place is granted. -/
def reserve (w : Writer) : Option Reservation × Writer :=
  if w.reserved then (none, w)
  else (some { offset := w.bytes.size, depth := w.depth }, { w with reserved := true })

/-- The characters split at the line feeds, the piece behind the last one included. -/
def splitLines : List Char → List (List Char)
  | [] => [[]]
  | '\n' :: rest => [] :: splitLines rest
  | c :: rest =>
    match splitLines rest with
    | [] => [[c]]
    | line :: lines => (c :: line) :: lines

/-- A line without the carriage return that ends it. -/
def chopReturn (line : List Char) : List Char :=
  if line.getLast? = some '\r' then line.dropLast else line

/-- The lines of a text: they end with a line feed, or a carriage return and a line feed. What
follows the last line feed is a line as it stands, unless it is empty. -/
def lines (s : String) : List String :=
  let pieces := splitLines s.toList
  let ended := pieces.dropLast.map chopReturn
  let last := pieces.getLast?.toList.filter (· ≠ [])
  (ended ++ last).map String.ofList

/-- A fragment as it is inserted at a depth: in pretty markup each of its lines starts a line there.
-/
def inserted (w : Writer) (depth : Nat) (fragment : String) : String :=
  if w.pretty then
    (lines fragment).foldl (fun text line => text ++ lineBreak (indentStep * depth) ++ line) ""
  else
    fragment

/-- Puts a fragment at a reserved place, or at the end if that comes first. -/
def splice (w : Writer) (reservation : Reservation) (fragment : String) : Writer :=
  let offset := min reservation.offset w.bytes.size
  { w with
    bytes := w.bytes.extract 0 offset ++ (w.inserted reservation.depth fragment).toByteArray ++
      w.bytes.extract offset w.bytes.size }

/-- The number of bytes written. -/
def size (w : Writer) : Nat := w.bytes.size

/-- Nothing was written. -/
def isEmpty (w : Writer) : Bool := w.bytes.size == 0

/-- The text that was written. Only a fragment spliced at a place of another writer can have broken
a character. -/
def finish (w : Writer) : Except Utf8Fault String :=
  match String.fromUTF8? w.bytes with
  | some text => .ok text
  | none => .error ((Utf8.fault? w.bytes).getD { position := w.bytes.size, length := none })

/-- A writer that holds the bytes of a text gives back the text. -/
theorem finish_of_bytes {w : Writer} {text : String} (h : w.bytes = text.toByteArray) :
    w.finish = .ok text := by
  have : String.fromUTF8? w.bytes = some text := by
    simp [String.fromUTF8?, String.fromUTF8, h, text.isValidUTF8]
  simp [finish, this]

/-- Writing an event to a text appends its addition. -/
theorem bytes_write {w : Writer} {text : String} (h : w.bytes = text.toByteArray) (event : Event) :
    (w.write event).bytes = (text ++ w.addition event).toByteArray := by
  simp [write, h, String.toByteArray_append]

end Writer

end Cartouche
