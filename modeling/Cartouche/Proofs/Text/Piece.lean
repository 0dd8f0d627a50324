import Mathlib.Data.List.TakeWhile
import Cartouche.Proofs.Text.Cursor
import Cartouche.Style.Instruction

/-!
# Templates written piece by piece

Who writes a template has texts in mind, braces, and the names of values. `Template.write` puts such
pieces one after the other: texts as they are, braces doubled, names in braces. A scan finds every
piece again, whatever stands next to it (`scan_write`), since a piece leaves the scan where it found
it: outside of placeholders, with no brace that waits for a second one. So a written template is
rendered to the texts that were meant, unless there is no value of a name; then the first such name
is reported (`renderLabel_write`).
-/

namespace Cartouche

namespace Template

/-! ## Pieces -/

/-- The character is no brace. -/
def IsPlain (c : Char) : Prop := c ≠ '\x7b' ∧ c ≠ '\x7d'

/-- A name that can stand in a placeholder. -/
structure Name where
  text : String
  nonempty : text ≠ ""
  plain : ∀ c ∈ text.toList, IsPlain c ∧ c ≠ ':'

/-- A piece of a template, as it is meant. -/
inductive Piece where
  /-- A text without braces. -/
  | text (content : String) (plain : ∀ c ∈ content.toList, IsPlain c)
  | openingBrace
  | closingBrace
  /-- The value of a name. -/
  | value (name : Name)

namespace Piece

/-- How a piece is written. -/
def written : Piece → String
  | .text content _ => content
  | .openingBrace => "\x7b\x7b"
  | .closingBrace => "\x7d\x7d"
  | .value name => "\x7b" ++ name.text ++ "\x7d"

/-- The name whose value a piece asks for. -/
def name? : Piece → Option String
  | .value name => some name.text
  | _ => none

/-- The text that is meant, where the names have values. -/
def meant (value? : String → Option String) : Piece → String
  | .text content _ => content
  | .openingBrace => "\x7b"
  | .closingBrace => "\x7d"
  | .value name => (value? name.text).getD ""

/-- What a scan finds of a piece. -/
def tokens : Piece → List Token
  | .text content _ => content.toList.map .char
  | .openingBrace => [.char '\x7b']
  | .closingBrace => [.char '\x7d']
  | .value name => [.placeholder name.text.toList]

end Piece

/-- The template of pieces. -/
def write (pieces : List Piece) : String := String.join (pieces.map Piece.written)

/-- The names whose values pieces ask for, in their order. -/
def namesIn (pieces : List Piece) : List String := pieces.filterMap Piece.name?

/-! ## Scanning -/

/-- A piece is found whatever follows it, and leaves the scan where it was. -/
theorem scanFrom_written (piece : Piece) (rest : List Char) :
    scanFrom false none (piece.written.toList ++ rest) =
      piece.tokens ++ scanFrom false none rest := by
  cases piece with
  | text content plain => exact scanFrom_text plain rest
  | openingBrace => simp [Piece.written, Piece.tokens, scanFrom]
  | closingBrace => simp [Piece.written, Piece.tokens, scanFrom]
  | value name =>
    have hplaceholder := scanFrom_placeholder (fun c hc => (name.plain c hc).1) [] rest
    simpa [Piece.written, Piece.tokens, scanFrom] using hplaceholder

/-- A scan finds all pieces of a template. -/
theorem scan_write (pieces : List Piece) : scan (write pieces) = pieces.flatMap Piece.tokens := by
  unfold scan write
  induction pieces with
  | nil => rfl
  | cons piece rest ih =>
    rw [List.map_cons, String.join_cons, String.toList_append, scanFrom_written, ih,
      List.flatMap_cons]

/-- Doubled braces are told from those of a placeholder that they stand next to. -/
example : scan "\x7b\x7b\x7bé\x7d\x7d\x7d" =
    [.char '\x7b', .placeholder ['é'], .char '\x7d'] := by
  decide

/-! ## Rendering -/

/-- A name without a colon asks for no layout. -/
theorem splitName_name (name : Name) : splitName name.text.toList = (name.text.toList, []) := by
  have hcolon : ∀ c ∈ name.text.toList, decide (c ≠ ':') = true :=
    fun c hc => decide_eq_true (name.plain c hc).2
  rw [splitName, List.takeWhile_eq_self_iff.2 hcolon, List.dropWhile_eq_nil_iff.2 hcolon]
  rfl

/-- Without a layout a text stays as it is. -/
theorem apply_default (text : List Char) : ({} : TextLayout).apply text = .ok text := by
  simp only [TextLayout.apply, Nat.zero_sub]
  rfl

variable (value? : String → Option String)

/-- A placeholder that holds a name alone is replaced by the value as it is. -/
theorem fillIn_name (name : Name) :
    fillIn value? name.text.toList =
      match value? name.text with
      | none => .error (.unknownName name.text)
      | some value => .ok value.toList := by
  have hnonempty : name.text.toList ≠ [] := fun h => name.nonempty (String.toList_eq_nil_iff.1 h)
  have hname : String.ofList name.text.toList = name.text := String.ofList_toList
  have hlayout : TextLayout.parse [] = .ok {} := rfl
  unfold fillIn
  simp only [splitName_name, if_neg hnonempty, hname, hlayout]
  cases value? name.text with
  | none => rfl
  | some value => exact congrArg (Except.mapError TemplateError.layout) (apply_default value.toList)

/-- A text is copied. -/
theorem renderTokens_text (text : List Char) (rest : List Token) :
    renderTokens value? (text.map .char ++ rest) =
      (renderTokens value? rest).map (text ++ ·) := by
  induction text with
  | nil => cases h : renderTokens value? rest <;> simp [h, Except.map]
  | cons c text ih =>
    rw [List.map_cons, List.cons_append, renderTokens, ih]
    cases renderTokens value? rest <;> rfl

/-- A piece gives the text that is meant, if the value it asks for is there. -/
theorem renderTokens_piece {piece : Piece} (h : ∀ name ∈ piece.name?, (value? name).isSome)
    (rest : List Token) :
    renderTokens value? (piece.tokens ++ rest) =
      (renderTokens value? rest).map ((piece.meant value?).toList ++ ·) := by
  cases piece with
  | text content plain => exact renderTokens_text value? content.toList rest
  | openingBrace => simpa [Piece.tokens, Piece.meant] using renderTokens_text value? ['\x7b'] rest
  | closingBrace => simpa [Piece.tokens, Piece.meant] using renderTokens_text value? ['\x7d'] rest
  | value name =>
    obtain ⟨value, hvalue⟩ := Option.isSome_iff_exists.1 (h name.text rfl)
    show renderTokens value? (.placeholder name.text.toList :: rest) = _
    simp only [renderTokens, fillIn_name, Piece.meant, hvalue]
    cases renderTokens value? rest <;> rfl

/-- A name without a value ends the rendering. -/
theorem renderTokens_of_unknown {piece : Piece} {name : String} (hname : piece.name? = some name)
    (h : value? name = none) (rest : List Token) :
    renderTokens value? (piece.tokens ++ rest) = .error (.unknownName name) := by
  cases piece with
  | text content plain => cases hname
  | openingBrace => cases hname
  | closingBrace => cases hname
  | value other =>
    obtain rfl : other.text = name := Option.some.inj hname
    show renderTokens value? (.placeholder other.text.toList :: rest) = _
    simp only [renderTokens, fillIn_name, h]
    rfl

/-- A text in front of a rendering is in front of its result. -/
theorem map_ofList_append (text : String) (rendering : Except TemplateError (List Char)) :
    (rendering.map (text.toList ++ ·)).map String.ofList =
      (rendering.map String.ofList).map (text ++ ·) := by
  cases rendering with
  | error error => rfl
  | ok chars => simp [Except.map, String.ofList_append]

/-- A written template gives the texts that are meant, or else the first name without a value. -/
theorem render_write (pieces : List Piece) :
    render value? (write pieces) =
      match (namesIn pieces).find? fun name => (value? name).isNone with
      | some name => .error (.unknownName name)
      | none => .ok (String.join (pieces.map (·.meant value?))) := by
  unfold render
  rw [scan_write]
  induction pieces with
  | nil => rfl
  | cons piece rest ih =>
    rw [List.flatMap_cons]
    by_cases h : ∀ name ∈ piece.name?, (value? name).isSome
    · have hnames : (namesIn (piece :: rest)).find? (fun name => (value? name).isNone) =
          (namesIn rest).find? fun name => (value? name).isNone := by
        cases hname : piece.name? with
        | none => simp [namesIn, hname]
        | some name => simp [namesIn, hname, Option.ne_none_iff_isSome.2 (h name hname)]
      rw [renderTokens_piece value? h, map_ofList_append, ih, hnames, List.map_cons,
        String.join_cons]
      cases (namesIn rest).find? _ <;> rfl
    · obtain ⟨name, hname, hvalue⟩ : ∃ name, piece.name? = some name ∧ value? name = none := by
        simpa using h
      rw [renderTokens_of_unknown value? hname hvalue]
      simp [namesIn, hname, hvalue, Except.map]

end Template

open Template in
/-- In a written template a scan that counts bytes finds the pieces. Its label is made of their
texts, with the texts of the attributes that they name, if the feature has all of these. If not, it
is an error that tells the first one that the feature does not have. -/
theorem renderLabel_write (feature : Feature) (pieces : List Piece) :
    Cursor.scan (write pieces) = pieces.flatMap Piece.tokens ∧
      renderLabel (write pieces) feature =
        match (namesIn pieces).find? fun name => (feature.attribute? name).isNone with
        | some name => .error (.template (.unknownName name))
        | none => .ok (String.join (pieces.map fun piece =>
            piece.meant fun name => (feature.attribute? name).map AttributeValue.display)) := by
  refine ⟨(Cursor.scan_eq _).trans (scan_write pieces), ?_⟩
  unfold renderLabel
  rw [render_write]
  simp only [Option.isNone_map]
  cases (namesIn pieces).find? _ <;> rfl

end Cartouche
