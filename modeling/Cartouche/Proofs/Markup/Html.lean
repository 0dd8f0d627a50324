import Mathlib.Data.List.Infix

/-!
# Tables in HTML

A reader of HTML takes a bracket in front of a letter, a slash and some other signs for the
beginning of a tag, and all else outside of tags for characters (`Html.scan`). When texts are
written into the cells of a table as they are, the reader finds the rows and cells that are meant
exactly when no tag begins in one of the texts (`scanFrom_writtenTable_iff`).

Whether the texts can be told from what is written is a question of fewer tags. The tags that stand
behind a text overlap with nothing in front of them, so they tell the end of a text that does not
hold them, and from such texts a table can be written in one way only (`writtenTable_inj`).
-/

namespace Cartouche

namespace Html

/-! ## Reading HTML -/

/-- What a reader finds: characters, and tags by what stands between their brackets. -/
inductive Token where
  | char (c : Char)
  | tag (content : List Char)
deriving DecidableEq

/-- A bracket in front of the character begins a tag; in front of others it is a character. -/
def beginsTag (c : Char) : Bool := c.isAlpha || c == '/' || c == '!' || c == '?'

/-- Reads on. `inside` holds what an open tag contains so far, last character first. -/
def scanFrom (inside : Option (List Char)) : List Char → List Token
  | [] => inside.toList.map fun content => .tag content.reverse
  | c :: rest =>
    match inside with
    | none =>
      if c = '<' ∧ rest.head?.any beginsTag then scanFrom (some []) rest
      else .char c :: scanFrom none rest
    | some content =>
      if c = '>' then .tag content.reverse :: scanFrom none rest
      else scanFrom (some (c :: content)) rest

/-- What a reader finds in a text. -/
def scan (text : String) : List Token := scanFrom none text.toList

/-- No tag begins in the text. -/
def IsTagless (text : List Char) : Prop := ∀ c, beginsTag c → ¬ ['<', c] <:+: text

/-- No tag begins where there is nothing. -/
theorem isTagless_nil : IsTagless [] := by
  simp [IsTagless]

/-- A bracket is judged by the character behind it. -/
theorem isTagless_cons {c : Char} {rest : List Char} :
    IsTagless (c :: rest) ↔ ¬ (c = '<' ∧ rest.head?.any beginsTag) ∧ IsTagless rest := by
  have hhead : (c = '<' ∧ rest.head?.any beginsTag) ↔
      ∃ d, beginsTag d ∧ ['<', d] <+: c :: rest := by
    cases rest with
    | nil => simp [List.cons_prefix_cons]
    | cons d rest =>
      simp only [List.head?_cons, Option.any_some, List.cons_prefix_cons, List.nil_prefix,
        and_true]
      exact ⟨fun ⟨hc, hd⟩ => ⟨d, hd, hc.symm, rfl⟩, fun ⟨_, hd, hc, heq⟩ => ⟨hc.symm, heq ▸ hd⟩⟩
  simp only [IsTagless, List.infix_cons_iff, hhead, not_or, not_exists, not_and, forall_and]

instance decidableIsTagless : DecidablePred IsTagless
  | [] => isTrue isTagless_nil
  | _ :: rest =>
    have := decidableIsTagless rest
    decidable_of_iff _ isTagless_cons.symm

/-- An open tag comes before all else. -/
theorem exists_tag_of_scanFrom (content text : List Char) :
    ∃ tag rest, scanFrom (some content) text = .tag tag :: rest := by
  induction text generalizing content with
  | nil => exact ⟨_, _, rfl⟩
  | cons c text ih =>
    rw [scanFrom]
    split
    · exact ⟨_, _, rfl⟩
    · exact ih _

/-- A text in front of a tag is read as its characters exactly when no tag begins in it. -/
theorem scanFrom_text_iff (text rest : List Char) (tokens : List Token) :
    scanFrom none (text ++ '<' :: rest) = text.map .char ++ tokens ↔
      IsTagless text ∧ scanFrom none ('<' :: rest) = tokens := by
  induction text with
  | nil => simp [isTagless_nil]
  | cons c text ih =>
    have hnext : (text ++ '<' :: rest).head?.any beginsTag = text.head?.any beginsTag := by
      cases text with
      | nil => rfl
      | cons d text => rfl
    rw [List.cons_append, scanFrom, isTagless_cons]
    simp only [hnext]
    split
    · next htag =>
      -- What is read begins with a tag, not with the character.
      obtain ⟨tag, read, hread⟩ := exists_tag_of_scanFrom [] (text ++ '<' :: rest)
      simp [hread, htag]
    · next htag => simp [ih, htag]

/-- What can stand between the brackets of a tag. -/
def IsTagContent (content : List Char) : Prop := content.head?.any beginsTag ∧ '>' ∉ content

instance (content : List Char) : Decidable (IsTagContent content) :=
  inferInstanceAs (Decidable (_ ∧ _))

/-- A tag with its brackets. -/
def written (content : String) : List Char := '<' :: content.toList ++ ['>']

/-- A tag is read up to its closing bracket, whatever else stands in it. -/
theorem scanFrom_content {content : List Char} (h : '>' ∉ content) (before rest : List Char) :
    scanFrom (some before) (content ++ '>' :: rest) =
      .tag (before.reverse ++ content) :: scanFrom none rest := by
  induction content generalizing before with
  | nil => simp [scanFrom]
  | cons c content ih =>
    obtain ⟨hc, hcontent⟩ := List.ne_and_not_mem_of_not_mem_cons h
    simp [scanFrom, hc.symm, ih hcontent (c :: before)]

/-- A tag is read as one. -/
theorem scanFrom_written {content : String} (h : IsTagContent content.toList) (rest : List Char) :
    scanFrom none (written content ++ rest) = .tag content.toList :: scanFrom none rest := by
  have hhead : (content.toList ++ '>' :: rest).head?.any beginsTag := by
    rw [List.head?_append]
    obtain ⟨c, hc⟩ : ∃ c, content.toList.head? = some c := by
      cases hlist : content.toList.head? with
      | none => simpa [hlist] using h.1
      | some c => exact ⟨c, rfl⟩
    simpa [hc] using h.1
  have hsplit : written content ++ rest = '<' :: (content.toList ++ '>' :: rest) := by
    simp [written]
  rw [hsplit, scanFrom, if_pos ⟨rfl, hhead⟩, scanFrom_content h.2]
  rfl

/-! ## Tables -/

/-- A cell with a text. -/
def cell (text : String) : List Token :=
  .tag "td".toList :: (text.toList.map .char ++ [.tag "/td".toList])

/-- A row with a cell for each of two texts. -/
def row (texts : String × String) : List Token :=
  .tag "tr".toList :: (cell texts.1 ++ (cell texts.2 ++ [.tag "/tr".toList]))

/-- A table of such rows. -/
def table (rows : List (String × String)) : List Token :=
  .tag "table".toList :: (rows.flatMap row ++ [.tag "/table".toList])

/-- How a cell is written when its text stands in it as it is. -/
def writtenCell (text : String) : List Char :=
  written "td" ++ (text.toList ++ written "/td")

/-- How a row of such cells is written. -/
def writtenRow (texts : String × String) : List Char :=
  written "tr" ++ (writtenCell texts.1 ++ (writtenCell texts.2 ++ written "/tr"))

/-- How a table of such rows is written. -/
def writtenTable (rows : List (String × String)) : List Char :=
  written "table" ++ (rows.flatMap writtenRow ++ written "/table")

/-- The tags of tables. -/
theorem isTagContent_tags : IsTagContent "table".toList ∧ IsTagContent "/table".toList ∧
    IsTagContent "tr".toList ∧ IsTagContent "/tr".toList ∧
    IsTagContent "td".toList ∧ IsTagContent "/td".toList := by
  decide

/-- A cell is read as it is meant exactly when no tag begins in its text. -/
theorem scanFrom_writtenCell_iff (text : String) (rest : List Char) (tokens : List Token) :
    scanFrom none (writtenCell text ++ rest) = cell text ++ tokens ↔
      IsTagless text.toList ∧ scanFrom none rest = tokens := by
  obtain ⟨-, -, -, -, hopen, hclose⟩ := isTagContent_tags
  have hend : '<' :: ("/td>".toList ++ rest) = written "/td" ++ rest := rfl
  have htext := scanFrom_text_iff text.toList ("/td>".toList ++ rest) (.tag "/td".toList :: tokens)
  rw [hend, scanFrom_written hclose, List.cons_inj_right] at htext
  rw [writtenCell, List.append_assoc, List.append_assoc, scanFrom_written hopen, cell,
    List.cons_append, List.append_assoc, List.cons_inj_right]
  exact htext

/-- A row is read as its cells exactly when no tag begins in either of its texts. -/
theorem scanFrom_writtenRow_iff (texts : String × String) (rest : List Char)
    (tokens : List Token) :
    scanFrom none (writtenRow texts ++ rest) = row texts ++ tokens ↔
      (IsTagless texts.1.toList ∧ IsTagless texts.2.toList) ∧ scanFrom none rest = tokens := by
  obtain ⟨-, -, hopen, hclose, -, -⟩ := isTagContent_tags
  rw [writtenRow, row, List.cons_append, List.append_assoc, List.append_assoc, List.append_assoc,
    List.append_assoc, List.append_assoc, scanFrom_written hopen, List.cons_inj_right,
    scanFrom_writtenCell_iff, scanFrom_writtenCell_iff, scanFrom_written hclose,
    List.singleton_append, List.cons_inj_right, and_assoc]

/-- A table is read as it is meant exactly when no tag begins in one of its texts. -/
theorem scanFrom_writtenTable_iff (rows : List (String × String)) :
    scanFrom none (writtenTable rows) = table rows ↔
      ∀ texts ∈ rows, IsTagless texts.1.toList ∧ IsTagless texts.2.toList := by
  obtain ⟨hopen, hclose, -, -, -, -⟩ := isTagContent_tags
  rw [writtenTable, table, scanFrom_written hopen, List.cons_inj_right]
  induction rows with
  | nil => simpa [scanFrom] using scanFrom_written hclose []
  | cons texts rest ih =>
    rw [List.flatMap_cons, List.flatMap_cons, List.append_assoc, List.append_assoc,
      scanFrom_writtenRow_iff, ih, List.forall_mem_cons]

/-! ## Ends of texts -/

/-- No proper end of the mark is also its beginning, so two places of the mark never overlap. -/
def IsUnbordered (mark : List Char) : Prop :=
  ∀ rest ∈ mark.tails, rest <+: mark → rest = [] ∨ rest = mark

instance (mark : List Char) : Decidable (IsUnbordered mark) :=
  inferInstanceAs (Decidable (∀ _ ∈ _, _))

/-- A mark that stands somewhere and again behind a text that does not hold it stands there for the
first time: the text is empty. -/
theorem eq_nil_of_append_eq {mark text rest rest' : List Char} (hmark : IsUnbordered mark)
    (h : mark ++ rest = text ++ (mark ++ rest')) (htext : ¬ mark <:+: text) : text = [] := by
  rcases List.append_eq_append_iff.1 h with ⟨more, rfl, -⟩ | ⟨back, hback, hrest⟩
  · exact absurd (List.prefix_append mark more).isInfix htext
  · -- The mark ends with `back` and begins with it.
    have hlength : back.length ≤ mark.length := by
      rw [hback, List.length_append]
      omega
    have hboth : back <+: mark ++ rest' := hrest ▸ List.prefix_append back rest
    have hprefix : back <+: mark :=
      List.prefix_of_prefix_length_le hboth (List.prefix_append mark rest') hlength
    have hsuffix : back <:+ mark := hback ▸ List.suffix_append text back
    rcases hmark back ((List.mem_tails back mark).2 hsuffix) hprefix with rfl | hall
    · rw [List.append_nil] at hback
      exact absurd (hback ▸ List.infix_rfl) htext
    · exact List.append_left_eq_self.1 (hall ▸ hback).symm

/-- Of texts that do not hold it, a mark tells the ends. -/
theorem append_mark_inj {mark text text' rest rest' : List Char} (hmark : IsUnbordered mark)
    (htext : ¬ mark <:+: text) (htext' : ¬ mark <:+: text')
    (h : text ++ (mark ++ rest) = text' ++ (mark ++ rest')) : text = text' ∧ rest = rest' := by
  rcases List.append_eq_append_iff.1 h with ⟨more, rfl, hmore⟩ | ⟨more, rfl, hmore⟩
  · have hnil := eq_nil_of_append_eq hmark hmore fun hin =>
      htext' (hin.trans (List.suffix_append text more).isInfix)
    subst hnil
    exact ⟨(List.append_nil text).symm, List.append_cancel_left hmore⟩
  · have hnil := eq_nil_of_append_eq hmark hmore fun hin =>
      htext (hin.trans (List.suffix_append text' more).isInfix)
    subst hnil
    exact ⟨List.append_nil text', (List.append_cancel_left hmore).symm⟩

/-- What stands between a name and its value. -/
def behindName : List Char := written "/td" ++ written "td"

/-- What stands behind a value. -/
def behindValue : List Char := written "/td" ++ written "/tr"

/-- The ends of both texts can be told. -/
def IsSeparable (texts : String × String) : Prop :=
  ¬ behindName <:+: texts.1.toList ∧ ¬ behindValue <:+: texts.2.toList

instance (texts : String × String) : Decidable (IsSeparable texts) :=
  inferInstanceAs (Decidable (_ ∧ _))

/-- The marks behind a name and behind a value do not overlap with themselves. They are fixed texts,
so this is decided by looking at them. -/
theorem isUnbordered_marks : IsUnbordered behindName ∧ IsUnbordered behindValue := by
  decide

/-- A row, with the tags that stand behind each of its texts taken together. -/
theorem writtenRow_eq (texts : String × String) (rest : List Char) :
    writtenRow texts ++ rest = written "tr" ++ (written "td" ++
      (texts.1.toList ++ (behindName ++ (texts.2.toList ++ (behindValue ++ rest))))) := by
  simp only [writtenRow, writtenCell, behindName, behindValue, List.append_assoc]

/-- The end of a table is no row. -/
theorem writtenRow_append_ne (texts : String × String) (rest : List Char) :
    writtenRow texts ++ rest ≠ written "/table" := by
  rw [writtenRow_eq]
  simp [written]

/-- From separable texts a table can be written in one way only. -/
theorem writtenTable_inj {rows rows' : List (String × String)}
    (hrows : ∀ texts ∈ rows, IsSeparable texts) (hrows' : ∀ texts ∈ rows', IsSeparable texts)
    (h : writtenTable rows = writtenTable rows') : rows = rows' := by
  replace h := List.append_cancel_left h
  induction rows generalizing rows' with
  | nil =>
    cases rows' with
    | nil => rfl
    | cons texts' rest' =>
      rw [List.flatMap_cons, List.append_assoc] at h
      exact absurd h.symm (writtenRow_append_ne texts' _)
  | cons texts rest ih =>
    cases rows' with
    | nil =>
      rw [List.flatMap_cons, List.append_assoc] at h
      exact absurd h (writtenRow_append_ne texts _)
    | cons texts' rest' =>
      obtain ⟨⟨hname, hvalue⟩, hrest⟩ := List.forall_mem_cons.1 hrows
      obtain ⟨⟨hname', hvalue'⟩, hrest'⟩ := List.forall_mem_cons.1 hrows'
      rw [List.flatMap_cons, List.flatMap_cons, List.append_assoc, List.append_assoc,
        writtenRow_eq, writtenRow_eq] at h
      replace h := List.append_cancel_left (List.append_cancel_left h)
      obtain ⟨hnames, h⟩ := append_mark_inj isUnbordered_marks.1 hname hname' h
      obtain ⟨hvalues, h⟩ := append_mark_inj isUnbordered_marks.2 hvalue hvalue' h
      have htexts : texts = texts' :=
        Prod.ext (String.toList_inj.1 hnames) (String.toList_inj.1 hvalues)
      rw [htexts, ih hrest hrest' h]

end Html

end Cartouche
