import Mathlib.Data.String.Basic
import Cartouche.Text.Template

/-!
# Scans that count bytes

A scan of a template need not carry along what an open placeholder contains. A `Cursor` counts the
bytes it has read since the last placeholder and remembers at which of them the last opening brace
stands; when the placeholder is closed, what it contains is cut out of the text by these two
numbers. Characters have one to four bytes, so the numbers say nothing about how many characters
lie between them, except that two braces next to each other are one byte apart. The cursor finds
the tokens that `Template.scan` finds (`Cursor.scan_eq`); what it keeps from one character to the
next is `Cursor.IsAt`.
-/

namespace Cartouche

namespace Template

open String (utf8Len utf8Len_append utf8Len_cons utf8Len_eq_zero utf8Len_reverse)

/-! ## Cutting at a byte -/

/-- What stands in front of a byte, and what from there on. -/
def splitAtByte : Nat → List Char → List Char × List Char
  | 0, chars => ([], chars)
  | _, [] => ([], [])
  | n + 1, c :: rest =>
    let (before, behind) := splitAtByte (n + 1 - c.utf8Size) rest
    (c :: before, behind)

/-- A text is parted at the byte behind its beginning. -/
theorem splitAtByte_append (before behind : List Char) :
    splitAtByte (utf8Len before) (before ++ behind) = (before, behind) := by
  induction before with
  | nil => cases behind <;> rfl
  | cons c before ih =>
    -- A character has a byte, so the beginning does not end in front of it.
    obtain ⟨n, hn⟩ : ∃ n, utf8Len (c :: before) = n + 1 :=
      Nat.exists_eq_succ_of_ne_zero (mt utf8Len_eq_zero.1 (List.cons_ne_nil c before))
    have hrest : n + 1 - c.utf8Size = utf8Len before := by
      rw [← hn, utf8Len_cons, Nat.add_sub_cancel]
    rw [hn, List.cons_append, splitAtByte, hrest, ih]

/-! ## Cursors -/

/-- A place in a template. -/
structure Cursor where
  /-- What follows the last placeholder. -/
  text : List Char
  /-- The bytes of it that were read. -/
  bytesRead : Nat := 0
  /-- The byte of the last opening brace. -/
  opening : Nat := 0
  /-- A closing brace waits for a second one. -/
  closing : Bool := false
  /-- A placeholder is open. -/
  reading : Bool := false

namespace Cursor

/-- The tokens of the characters behind the cursor. -/
def scanFrom (cursor : Cursor) : List Char → List Token
  | [] =>
    if cursor.closing then [.fault .strayBrace]
    else if cursor.reading then [.fault .unclosed]
    else []
  | c :: rest =>
    let bytesRead := cursor.bytesRead + c.utf8Size
    if c = '\x7b' then
      if cursor.reading ∧ cursor.opening = bytesRead - 2 then
        .char c :: scanFrom { cursor with bytesRead, reading := false } rest
      else if ¬ cursor.reading then
        scanFrom { cursor with bytesRead, opening := bytesRead - 1, reading := true } rest
      else
        [.fault .nestedBrace]
    else if c = '\x7d' then
      if ¬ cursor.reading ∧ ¬ cursor.closing then
        scanFrom { cursor with bytesRead, closing := true } rest
      else if cursor.closing then
        .char c :: scanFrom { cursor with bytesRead, closing := false } rest
      else
        let (_, behind) := splitAtByte cursor.opening cursor.text
        let (placeholder, behind) := splitAtByte (bytesRead - cursor.opening) behind
        .placeholder (placeholder.drop 1).dropLast :: scanFrom { text := behind } rest
    else if cursor.closing then
      [.fault .strayBrace]
    else if ¬ cursor.reading then
      .char c :: scanFrom { cursor with bytesRead } rest
    else
      scanFrom { cursor with bytesRead } rest

/-- The cursor has read what stands in front of the rest, and knows where the open placeholder
begins, if there is one. -/
structure IsAt (cursor : Cursor) (placeholder : Option (List Char)) (passed rest : List Char) :
    Prop where
  text : cursor.text = passed ++ rest
  bytesRead : cursor.bytesRead = utf8Len passed
  reading : cursor.reading = placeholder.isSome
  opening : ∀ content ∈ placeholder, ∃ before, passed = before ++ '\x7b' :: content.reverse ∧
    cursor.opening = utf8Len before

namespace IsAt

variable {cursor : Cursor} {placeholder : Option (List Char)} {passed rest : List Char} {c : Char}

/-- Nothing was read yet. -/
theorem start (text : List Char) : IsAt { text } none [] text where
  text := rfl
  bytesRead := rfl
  reading := rfl
  opening := fun _ hcontent => nomatch hcontent

/-- One more character, which is in the placeholder if one is open. -/
theorem pass (h : cursor.IsAt placeholder passed (c :: rest)) (closing : Bool) :
    IsAt { cursor with bytesRead := cursor.bytesRead + c.utf8Size, closing }
      (placeholder.map (c :: ·)) (passed ++ [c]) rest where
  text := by simp [h.text]
  bytesRead := by simp [h.bytesRead]
  reading := by simp [h.reading]
  opening := by
    intro _ hmap
    obtain ⟨content, hcontent, rfl⟩ := Option.map_eq_some_iff.1 hmap
    obtain ⟨before, rfl, hopening⟩ := h.opening content hcontent
    exact ⟨before, by simp, hopening⟩

/-- The second of two braces closes the placeholder that the first one opened. -/
theorem leave (h : cursor.IsAt placeholder passed (c :: rest)) :
    IsAt { cursor with bytesRead := cursor.bytesRead + c.utf8Size, reading := false }
      none (passed ++ [c]) rest where
  text := by simp [h.text]
  bytesRead := by simp [h.bytesRead]
  reading := rfl
  opening := fun _ hcontent => nomatch hcontent

/-- A placeholder is opened. -/
theorem enter (h : cursor.IsAt none passed ('\x7b' :: rest)) :
    IsAt { cursor with
        bytesRead := cursor.bytesRead + 1, opening := cursor.bytesRead, reading := true }
      (some []) (passed ++ ['\x7b']) rest where
  text := by simp [h.text]
  bytesRead := by simp [h.bytesRead]; rfl
  reading := rfl
  opening := by
    intro content hcontent
    obtain rfl := Option.some.inj hcontent
    exact ⟨passed, rfl, h.bytesRead⟩

/-- A placeholder is empty so far if its opening brace is two bytes in front of the next one. -/
theorem opening_eq_iff {content : List Char} (h : cursor.IsAt (some content) passed rest) :
    cursor.opening = cursor.bytesRead - 1 ↔ content = [] := by
  obtain ⟨before, rfl, hopening⟩ := h.opening content rfl
  have hbrace : ('\x7b').utf8Size = 1 := rfl
  rw [h.bytesRead, hopening, utf8Len_append, utf8Len_cons, hbrace, utf8Len_reverse,
    ← utf8Len_eq_zero]
  omega

/-- What a closed placeholder contains is cut out of the text, and so is what follows. -/
theorem cut {content : List Char} (h : cursor.IsAt (some content) passed ('\x7d' :: rest)) :
    splitAtByte (cursor.bytesRead + 1 - cursor.opening) (splitAtByte cursor.opening cursor.text).2 =
      ('\x7b' :: content.reverse ++ ['\x7d'], rest) := by
  obtain ⟨before, rfl, hopening⟩ := h.opening content rfl
  have hlength : cursor.bytesRead + 1 - cursor.opening =
      utf8Len ('\x7b' :: content.reverse ++ ['\x7d']) := by
    have hbrace : utf8Len ['\x7d'] = 1 := rfl
    rw [h.bytesRead, hopening, utf8Len_append, utf8Len_append, hbrace]
    omega
  rw [hlength, hopening, h.text, List.append_assoc, splitAtByte_append]
  simpa using splitAtByte_append ('\x7b' :: content.reverse ++ ['\x7d']) rest

end IsAt

/-- From its place on, a cursor finds what a scan finds that carries the placeholder along. -/
theorem scanFrom_eq {cursor : Cursor} {placeholder : Option (List Char)} {passed rest : List Char}
    (h : cursor.IsAt placeholder passed rest) :
    cursor.scanFrom rest = Template.scanFrom cursor.closing placeholder rest := by
  -- Every branch reads on from a place of its own, which one of the lemmas on `IsAt` gives.
  induction rest generalizing cursor placeholder passed with
  | nil => simp [scanFrom, Template.scanFrom, h.reading]
  | cons c rest ih =>
    have hbrace : ('\x7b').utf8Size = 1 ∧ ('\x7d').utf8Size = 1 := ⟨rfl, rfl⟩
    by_cases hopen : c = '\x7b'
    · subst hopen
      cases placeholder with
      | none =>
        simpa [scanFrom, Template.scanFrom, h.reading, hbrace] using ih h.enter
      | some content =>
        cases content with
        | nil =>
          have hadjacent := h.opening_eq_iff.2 rfl
          simpa [scanFrom, Template.scanFrom, h.reading, hbrace, hadjacent] using ih h.leave
        | cons d content =>
          have hadjacent := mt h.opening_eq_iff.1 (List.cons_ne_nil d content)
          simp [scanFrom, Template.scanFrom, h.reading, hbrace, hadjacent]
    · by_cases hclose : c = '\x7d'
      · subst hclose
        cases hclosing : cursor.closing with
        | true =>
          have hnext := ih (h.pass false)
          cases placeholder <;> simpa [scanFrom, Template.scanFrom, hclosing] using hnext
        | false =>
          cases placeholder with
          | none =>
            simpa [scanFrom, Template.scanFrom, hclosing, h.reading] using ih (h.pass true)
          | some content =>
            have hnext := ih (IsAt.start rest)
            simpa [scanFrom, Template.scanFrom, hclosing, h.reading, hbrace, h.cut] using hnext
      · have hnext := ih (h.pass cursor.closing)
        cases hclosing : cursor.closing with
        | true =>
          cases placeholder <;> simp [scanFrom, Template.scanFrom, hopen, hclose, hclosing]
        | false =>
          cases placeholder <;>
            simpa [scanFrom, Template.scanFrom, hopen, hclose, hclosing, h.reading] using hnext

/-- The tokens of a template, found by counting bytes. -/
def scan (template : String) : List Token := scanFrom { text := template.toList } template.toList

/-- Counting bytes finds what carrying placeholders along finds. -/
theorem scan_eq (template : String) : scan template = Template.scan template :=
  scanFrom_eq (IsAt.start template.toList)

end Cursor

end Template

end Cartouche
