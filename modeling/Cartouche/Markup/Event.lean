/-!
# Markup events

Markup is a sequence of events: tags, texts and the declaration in front. Everything the library
encodes is first a list of events; `Event.text` gives the characters of one. Names are written as
they are, texts and attribute values with the five special characters escaped.
-/

namespace Cartouche

/-- The attributes of an element in the order in which they are written. -/
abbrev Attributes := List (String × String)

/-- A piece of markup. -/
inductive Event where
  | declaration
  | startTag (name : String) (attributes : Attributes)
  | endTag (name : String)
  | emptyTag (name : String) (attributes : Attributes)
  | text (content : String)
deriving DecidableEq, Repr

/-- A special character as its entity, any other one as it is. -/
def escapeMarkupChar : Char → List Char
  | '<' => "&lt;".toList
  | '>' => "&gt;".toList
  | '&' => "&amp;".toList
  | '\'' => "&apos;".toList
  | '"' => "&quot;".toList
  | c => [c]

/-- The text with its special characters escaped. -/
def escapeMarkup (s : String) : String := String.ofList (s.toList.flatMap escapeMarkupChar)

namespace Event

/-- The name of an element and its attributes, as they stand in a tag. -/
def head (name : String) (attributes : Attributes) : String :=
  attributes.foldl
    (fun tag (key, value) => tag ++ " " ++ key ++ "=\"" ++ escapeMarkup value ++ "\"") name

/-- The characters of an event. -/
def render : Event → String
  | .declaration => "<?xml version=\"1.0\" encoding=\"UTF-8\"?>"
  | .startTag name attributes => "<" ++ head name attributes ++ ">"
  | .endTag name => "</" ++ name ++ ">"
  | .emptyTag name attributes => "<" ++ head name attributes ++ "/>"
  | .text content => escapeMarkup content

/-- The event is a run of text. -/
def isText : Event → Bool
  | .text _ => true
  | _ => false

/-- An element around events. -/
def element (name : String) (attributes : Attributes) (content : List Event) : List Event :=
  .startTag name attributes :: content ++ [.endTag name]

/-- An element that holds a text. -/
def textElement (name : String) (attributes : Attributes) (content : String) : List Event :=
  element name attributes [.text content]

end Event

end Cartouche
