import Cartouche.Text.Layout

/-!
# Label templates

A template is text with placeholders in braces; a doubled brace stands for itself. `Template.scan`
cuts it into tokens, of which a fault can only be the last, and `Template.render` replaces each
placeholder by the laid out text of the value it names. The first token that fails decides the
error, so a missing name early in a template is reported before an unbalanced brace further on.
-/

namespace Cartouche

/-- Why a template cannot be rendered. -/
inductive TemplateError where
  /-- An opening brace inside a placeholder. -/
  | nestedBrace
  /-- A closing brace that closes nothing. -/
  | strayBrace
  /-- A placeholder that is not closed. -/
  | unclosed
  | unnamed
  | unknownName (name : String)
  | layout (error : LayoutError)
deriving DecidableEq, Repr

/-- A character as it is quoted in messages. -/
def quoteChar (c : Char) : String :=
  let inner :=
    match c with
    | '\x00' => "\\0"
    | '\t' => "\\t"
    | '\r' => "\\r"
    | '\n' => "\\n"
    | '\'' => "\\'"
    | '\\' => "\\\\"
    | c =>
      if c.toNat < 0x20 ∨ c.toNat = 0x7F then
        "\\u\x7b" ++ String.ofList (Nat.toDigits 16 c.toNat) ++ "\x7d"
      else
        String.singleton c
  "'" ++ inner ++ "'"

/-- The kind of the error and what is said about it. -/
def LayoutError.message : LayoutError → String
  | .widthOverflow => "Invalid(overflow error when parsing width)"
  | .precisionOverflow => "Invalid(overflow error when parsing precision)"
  | .missingPrecision => "Invalid(Format specifier missing precision)"
  | .unreadable => "Invalid(Invalid format specifier)"
  | .unknownType c => "TypeError(Invalid type specifier: " ++ quoteChar c ++ ")"
  | .commaWithType c => "Invalid(Invalid comma type: " ++ String.singleton c ++ ")"
  | .typeForText c =>
    "TypeError(Unknown format code Some(" ++ quoteChar c ++ ") for object of type 'str')"
  | .alternateForText => "TypeError(Alternate form (#) not allowed in string format specifier)"
  | .commaForText => "TypeError(Cannot specify ',' with 's')"
  | .signForText => "TypeError(Sign not allowed in string format specifier)"
  | .alignmentForText => "Invalid(sign aware zero padding and Align '=' not yet supported)"

/-- The kind of the error and what is said about it. -/
def TemplateError.message : TemplateError → String
  | .nestedBrace => "Invalid(extra \x7b found)"
  | .strayBrace => "Invalid(Single '\x7d' encountered in format string)"
  | .unclosed => "Invalid(Expected '\x7d' before end of string)"
  | .unnamed => "Invalid(must specify identifier)"
  | .unknownName name => "KeyError(Invalid key: " ++ name ++ ")"
  | .layout error => error.message

namespace Template

/-- A piece of a template. -/
inductive Token where
  | char (c : Char)
  /-- What stands between the braces of a placeholder. -/
  | placeholder (content : List Char)
  | fault (error : TemplateError)
deriving DecidableEq, Repr

/-- Cuts a template into tokens. `closing` tells of a closing brace that waits for a second one;
`reading` holds what an open placeholder contains so far, last character first. Both can be on at
once: a closing brace that waits is met by the next closing brace even inside a placeholder, which
then contains it. -/
def scanFrom (closing : Bool) (reading : Option (List Char)) : List Char → List Token
  | [] =>
    if closing then [.fault .strayBrace]
    else if reading.isSome then [.fault .unclosed]
    else []
  | '\x7b' :: rest =>
    match reading with
    | none => scanFrom closing (some []) rest
    | some [] => .char '\x7b' :: scanFrom closing none rest
    | some _ => [.fault .nestedBrace]
  | '\x7d' :: rest =>
    if closing then
      .char '\x7d' :: scanFrom false (reading.map ('\x7d' :: ·)) rest
    else
      match reading with
      | none => scanFrom true none rest
      | some content => .placeholder content.reverse :: scanFrom false none rest
  | c :: rest =>
    if closing then
      [.fault .strayBrace]
    else
      match reading with
      | none => .char c :: scanFrom false none rest
      | some content => scanFrom false (some (c :: content)) rest

/-- The tokens of a template. -/
def scan (template : String) : List Token := scanFrom false none template.toList

/-- Text without braces is copied. -/
theorem scanFrom_text {text : List Char} (h : ∀ c ∈ text, c ≠ '\x7b' ∧ c ≠ '\x7d')
    (rest : List Char) :
    scanFrom false none (text ++ rest) = text.map .char ++ scanFrom false none rest := by
  induction text with
  | nil => rfl
  | cons c text ih =>
    obtain ⟨hopen, hclose⟩ := h c List.mem_cons_self
    have := ih fun d hd => h d (List.mem_cons_of_mem _ hd)
    simp [scanFrom, this]

/-- A placeholder runs to the first brace. -/
theorem scanFrom_placeholder {content : List Char} (h : ∀ c ∈ content, c ≠ '\x7b' ∧ c ≠ '\x7d')
    (before rest : List Char) :
    scanFrom false (some before) (content ++ '\x7d' :: rest) =
      .placeholder (before.reverse ++ content) :: scanFrom false none rest := by
  induction content generalizing before with
  | nil => simp [scanFrom]
  | cons c content ih =>
    obtain ⟨hopen, hclose⟩ := h c List.mem_cons_self
    have := ih (fun d hd => h d (List.mem_cons_of_mem _ hd)) (c :: before)
    simp [scanFrom, this]

/-- The name in a placeholder and what follows its first colon. -/
def splitName (content : List Char) : List Char × List Char :=
  (content.takeWhile (· ≠ ':'), (content.dropWhile (· ≠ ':')).drop 1)

/-- The text that replaces a placeholder. Its layout is read before its name is looked up. -/
def fillIn (value? : String → Option String) (content : List Char) :
    Except TemplateError (List Char) := do
  let (name, layout) := splitName content
  if name = [] then throw .unnamed
  let layout ← (TextLayout.parse layout).mapError .layout
  match value? (String.ofList name) with
  | none => throw (.unknownName (String.ofList name))
  | some value => (layout.apply value.toList).mapError .layout

/-- The characters of tokens. -/
def renderTokens (value? : String → Option String) : List Token → Except TemplateError (List Char)
  | [] => .ok []
  | .char c :: rest => return c :: (← renderTokens value? rest)
  | .placeholder content :: rest => do
    let text ← fillIn value? content
    return text ++ (← renderTokens value? rest)
  | .fault error :: _ => .error error

/-- The text of a template for the values of its names. -/
def render (value? : String → Option String) (template : String) : Except TemplateError String :=
  (renderTokens value? (scan template)).map String.ofList

end Template

end Cartouche
