import Cartouche.Proofs.Markup.Text

/-!
# Indenting characters again

A fragment that is put into indented markup line by line gets more blanks in front of every line. Of
characters this is `reindent`: each line feed, with a carriage return in front of it, becomes a line
break with blanks (`toList_inserted`). Pieces are indented one by one, unless an end of a line is
cut in two (`reindent_append`), and escaping makes no difference (`reindent_escape`).
-/

namespace Cartouche.Markup

/-! ## Characters -/

/-- Characters with blanks behind every line feed; a carriage return in front of a line feed is
dropped. -/
def reindent (blanks : Nat) : List Char → List Char
  | [] => []
  | '\r' :: '\n' :: rest => (lineBreak blanks).toList ++ reindent blanks rest
  | '\n' :: rest => (lineBreak blanks).toList ++ reindent blanks rest
  | c :: rest => c :: reindent blanks rest

/-- A line break is a line feed and blanks. -/
theorem toList_lineBreak (blanks : Nat) :
    (lineBreak blanks).toList = '\n' :: List.replicate blanks ' ' := by
  simp [lineBreak]

section

variable {blanks : Nat}

@[simp] theorem reindent_nil : reindent blanks [] = [] := by
  rw [reindent]

/-- A line feed is indented again. -/
@[simp] theorem reindent_feed (rest : List Char) :
    reindent blanks ('\n' :: rest) = (lineBreak blanks).toList ++ reindent blanks rest := by
  rw [reindent]

/-- A carriage return is dropped with the line feed that it stands in front of. -/
@[simp] theorem reindent_return_feed (rest : List Char) :
    reindent blanks ('\r' :: '\n' :: rest) = (lineBreak blanks).toList ++ reindent blanks rest := by
  rw [reindent]

/-- A character that ends no line stays as it is. -/
theorem reindent_cons {c : Char} {rest : List Char} (hc : c ≠ '\n')
    (h : c = '\r' → rest.head? ≠ some '\n') :
    reindent blanks (c :: rest) = c :: reindent blanks rest := by
  rw [reindent]
  · rintro tail rfl rfl
    exact h rfl rfl
  · exact hc

/-- Characters without line feeds stay as they are. -/
theorem reindent_eq_self {cs : List Char} (h : '\n' ∉ cs) : reindent blanks cs = cs := by
  induction cs with
  | nil => exact reindent_nil
  | cons c rest ih =>
    simp only [List.mem_cons, not_or] at h
    have hhead : rest.head? ≠ some '\n' := fun hhead => h.2 (List.mem_of_head? hhead)
    rw [reindent_cons (Ne.symm h.1) fun _ => hhead, ih h.2]

/-- Pieces of a text are indented one by one, unless an end of a line is cut in two. -/
theorem reindent_append {first second : List Char}
    (h : first.getLast? = some '\r' → second.head? ≠ some '\n') :
    reindent blanks (first ++ second) = reindent blanks first ++ reindent blanks second := by
  fun_induction reindent blanks first with
  | case1 => rfl
  | case2 rest ih =>
    have hrest := ih fun hlast => h (by simp [List.getLast?_cons, hlast])
    simp [hrest]
  | case3 rest ih =>
    have hrest := ih fun hlast => h (by simp [List.getLast?_cons, hlast])
    simp [hrest]
  | case4 c rest hreturn hfeed ih =>
    have hrest := ih fun hlast => h (by simp [List.getLast?_cons, hlast])
    rw [List.cons_append, reindent_cons hfeed, hrest, List.cons_append]
    rintro rfl
    cases rest with
    | nil => exact h rfl
    | cons d rest =>
      intro hhead
      obtain rfl : d = '\n' := by simpa using hhead
      exact hreturn rest rfl rfl

/-- A character that begins and ends no line stays as it is. -/
theorem reindent_cons_of_ne {c : Char} (hfeed : c ≠ '\n') (hreturn : c ≠ '\r')
    (rest : List Char) : reindent blanks (c :: rest) = c :: reindent blanks rest :=
  reindent_cons hfeed fun h => absurd h hreturn

/-- Characters that begin and end no lines stay as they are. -/
theorem reindent_plain {piece : List Char} (h : ∀ c ∈ piece, c ≠ '\n' ∧ c ≠ '\r')
    (rest : List Char) : reindent blanks (piece ++ rest) = piece ++ reindent blanks rest := by
  induction piece with
  | nil => rfl
  | cons c piece ih =>
    obtain ⟨hfeed, hreturn⟩ := h c (by simp)
    rw [List.cons_append, reindent_cons_of_ne hfeed hreturn,
      ih fun d hd => h d (by simp [hd]), List.cons_append]

/-- An escaped character has the line feed in it only if it is one. -/
theorem feed_notMem_escapeMarkupChar {c : Char} (h : c ≠ '\n') : '\n' ∉ escapeMarkupChar c := by
  unfold escapeMarkupChar
  split
  · decide
  · decide
  · decide
  · decide
  · decide
  · simpa using h.symm

/-- A line break gets more blanks. -/
theorem reindent_lineBreak (more : Nat) (rest : List Char) :
    reindent blanks ((lineBreak more).toList ++ rest) =
      (lineBreak (blanks + more)).toList ++ reindent blanks rest := by
  have hblanks : ∀ c ∈ List.replicate more ' ', c ≠ '\n' ∧ c ≠ '\r' := by
    intro c hc
    rw [List.eq_of_mem_replicate hc]
    decide
  rw [toList_lineBreak, List.cons_append, reindent_feed, reindent_plain hblanks, toList_lineBreak,
    toList_lineBreak, ← List.append_assoc, List.cons_append, List.replicate_append_replicate]

/-- A name stays as it is. -/
theorem reindent_name {name : List Char} (h : isName name) (rest : List Char) :
    reindent blanks (name ++ rest) = name ++ reindent blanks rest := by
  obtain ⟨first, others, rfl, hfirst, hothers⟩ := exists_of_isName h
  refine reindent_plain (fun c hc => ?_) rest
  have hchar : isNameChar c := by
    rcases List.mem_cons.1 hc with rfl | hc
    · exact isNameChar_of_isNameFirst hfirst
    · exact hothers c hc
  exact ⟨ne_of_isNameChar hchar (by decide), ne_of_isNameChar hchar (by decide)⟩

/-- Escaped characters begin with a line feed only if the characters do. -/
theorem head?_of_head?_escape {cs : List Char}
    (h : (cs.flatMap escapeMarkupChar).head? = some '\n') : cs.head? = some '\n' := by
  cases cs with
  | nil => simp at h
  | cons c rest =>
    by_cases hc : c = '\n'
    · simp [hc]
    · have hne : escapeMarkupChar c ≠ [] := by
        unfold escapeMarkupChar
        split <;> simp
      obtain ⟨d, ds, hd⟩ := List.exists_cons_of_ne_nil hne
      rw [List.flatMap_cons, hd, List.cons_append, List.head?_cons] at h
      exact absurd (List.mem_of_head? (hd ▸ h)) (feed_notMem_escapeMarkupChar hc)

/-- An escaped character ends with a carriage return only if it is one. -/
theorem eq_of_getLast?_escapeMarkupChar {c : Char}
    (h : (escapeMarkupChar c).getLast? = some '\r') : c = '\r' := by
  unfold escapeMarkupChar at h
  split at h
  · simp at h
  · simp at h
  · simp at h
  · simp at h
  · simp at h
  · simpa using h

/-- Escaping leaves ends of lines where they are. -/
theorem reindent_escape (cs : List Char) :
    reindent blanks (cs.flatMap escapeMarkupChar) =
      (reindent blanks cs).flatMap escapeMarkupChar := by
  have hbreak : (lineBreak blanks).toList.flatMap escapeMarkupChar = (lineBreak blanks).toList := by
    have h := escapeMarkup_lineBreak blanks
    rw [← String.toList_inj, escapeMarkup, String.toList_ofList] at h
    exact h
  have hfeed : escapeMarkupChar '\n' = ['\n'] := rfl
  have hreturn : escapeMarkupChar '\r' = ['\r'] := rfl
  fun_induction reindent blanks cs with
  | case1 => rfl
  | case2 rest ih =>
    simp [hfeed, hreturn, hbreak, ih]
  | case3 rest ih =>
    simp [hfeed, hbreak, ih]
  | case4 c rest hends hne ih =>
    have hcut : (escapeMarkupChar c).getLast? = some '\r' →
        (rest.flatMap escapeMarkupChar).head? ≠ some '\n' := by
      intro hlast hhead
      obtain ⟨tail, rfl⟩ := List.head?_eq_some_iff.1 (head?_of_head?_escape hhead)
      exact hends tail (eq_of_getLast?_escapeMarkupChar hlast) rfl
    rw [List.flatMap_cons, reindent_append hcut, ih, List.flatMap_cons,
      reindent_eq_self (feed_notMem_escapeMarkupChar hne)]

/-- Every line feed becomes some blanks more. -/
theorem count_reindent (cs : List Char) :
    (reindent blanks cs).count ' ' = cs.count ' ' + blanks * cs.count '\n' := by
  have hbreak : (lineBreak blanks).toList.count ' ' = blanks := by
    simp [toList_lineBreak]
  fun_induction reindent blanks cs with
  | case1 => rfl
  | case2 rest ih =>
    simp only [List.count_append, List.count_cons_self, List.count_cons_of_ne, hbreak, ih, ne_eq,
      Char.reduceEq, not_false_eq_true, Nat.mul_add, Nat.mul_one]
    omega
  | case3 rest ih =>
    simp only [List.count_append, List.count_cons_self, List.count_cons_of_ne, hbreak, ih, ne_eq,
      Char.reduceEq, not_false_eq_true, Nat.mul_add, Nat.mul_one]
    omega
  | case4 c rest hreturn hfeed ih =>
    have hne : ¬ c = '\n' := hfeed
    simp only [List.count_cons, ih, beq_iff_eq, hne, if_false, Nat.add_zero]
    omega

/-- Escaping changes no blanks. -/
theorem count_escape (cs : List Char) : (cs.flatMap escapeMarkupChar).count ' ' = cs.count ' ' := by
  have hchar : ∀ c, (escapeMarkupChar c).count ' ' = [c].count ' ' := by
    intro c
    unfold escapeMarkupChar
    split
    · rfl
    · rfl
    · rfl
    · rfl
    · rfl
    · rfl
  induction cs with
  | nil => rfl
  | cons c rest ih =>
    rw [List.flatMap_cons, List.count_append, hchar, ih, ← List.count_append, List.singleton_append]

/-! ## Lines -/

/-- There is a piece behind the last line feed, so there is one piece at least. -/
theorem splitLines_ne_nil (cs : List Char) : Writer.splitLines cs ≠ [] := by
  fun_cases Writer.splitLines cs <;> simp

/-- A character that ends no line begins the first piece. -/
theorem exists_splitLines_cons {c : Char} (hc : c ≠ '\n') (rest : List Char) :
    ∃ line lines, Writer.splitLines rest = line :: lines ∧
      Writer.splitLines (c :: rest) = (c :: line) :: lines := by
  obtain ⟨line, lines, heq⟩ := List.exists_cons_of_ne_nil (splitLines_ne_nil rest)
  refine ⟨line, lines, heq, ?_⟩
  rw [Writer.splitLines, heq]
  exact hc

/-- Only a line feed ends an empty piece. -/
theorem head?_of_splitLines {cs : List Char} {lines : List (List Char)} (hlines : lines ≠ [])
    (h : Writer.splitLines cs = [] :: lines) : cs.head? = some '\n' := by
  cases cs with
  | nil =>
    simp only [Writer.splitLines, List.cons.injEq] at h
    exact absurd h.2.symm hlines
  | cons c rest =>
    by_cases hc : c = '\n'
    · simp [hc]
    · obtain ⟨line, lines', -, heq⟩ := exists_splitLines_cons hc rest
      simp [heq] at h

/-- The pieces of characters, each behind a line break, are the characters with blanks behind every
line feed. -/
theorem flatMap_splitLines (cs : List Char) :
    ((Writer.splitLines cs).dropLast.map Writer.chopReturn ++
        (Writer.splitLines cs).getLast?.toList).flatMap ((lineBreak blanks).toList ++ ·) =
      (lineBreak blanks).toList ++ reindent blanks cs := by
  fun_induction reindent blanks cs with
  | case1 => simp [Writer.splitLines]
  | case2 rest ih =>
    obtain ⟨line, lines, heq⟩ := List.exists_cons_of_ne_nil (splitLines_ne_nil rest)
    rw [heq] at ih
    simp [Writer.splitLines, heq, Writer.chopReturn, ← ih]
  | case3 rest ih =>
    obtain ⟨line, lines, heq⟩ := List.exists_cons_of_ne_nil (splitLines_ne_nil rest)
    rw [heq] at ih
    simp [Writer.splitLines, heq, Writer.chopReturn, ← ih]
  | case4 c rest hreturn hfeed ih =>
    obtain ⟨line, lines, heq, hcons⟩ := exists_splitLines_cons hfeed rest
    rw [hcons]
    rw [heq] at ih
    cases lines with
    | nil => simpa using ih
    | cons second lines =>
      have hchop : Writer.chopReturn (c :: line) = c :: Writer.chopReturn line := by
        cases line with
        | nil =>
          obtain ⟨tail, rfl⟩ := List.head?_eq_some_iff.1 (head?_of_splitLines (by simp) heq)
          have hc : c ≠ '\r' := fun hc => hreturn tail hc rfl
          simp [Writer.chopReturn, hc]
        | cons d line =>
          unfold Writer.chopReturn
          rw [List.getLast?_cons_cons, List.dropLast_cons_cons]
          split
          · rfl
          · rfl
      simpa [hchop] using ih

/-- The last piece of a text that does not end with a line feed is not empty. -/
theorem exists_getLast?_splitLines {cs : List Char} {c : Char} (h : cs.getLast? = some c)
    (hc : c ≠ '\n') : ∃ line, (Writer.splitLines cs).getLast? = some line ∧ line ≠ [] := by
  induction cs with
  | nil => simp at h
  | cons d rest ih =>
    by_cases hd : d = '\n'
    · subst hd
      cases rest with
      | nil =>
        obtain rfl : '\n' = c := by simpa using h
        exact absurd rfl hc
      | cons e rest =>
        obtain ⟨line, hline, hne⟩ := ih (by simpa using h)
        exact ⟨line, by simp [Writer.splitLines, List.getLast?_cons, hline], hne⟩
    · obtain ⟨line, lines, heq, hcons⟩ := exists_splitLines_cons hd rest
      rw [hcons]
      cases lines with
      | nil => exact ⟨d :: line, rfl, by simp⟩
      | cons second lines =>
        have hrest : rest ≠ [] := by
          rintro rfl
          simp [Writer.splitLines] at heq
        obtain ⟨e, rest', rfl⟩ := List.exists_cons_of_ne_nil hrest
        rw [heq] at ih
        exact ih (by simpa using h)

end

/-- What is inserted in indented markup is the lines of the fragment, each behind a line break. -/
theorem inserted_eq_join {w : Writer} (hw : w.pretty) (depth : Nat) (fragment : String) :
    w.inserted depth fragment =
      String.join ((Writer.lines fragment).map (lineBreak (indentStep * depth) ++ ·)) := by
  have hfold : ∀ (lines : List String) (text : String),
      lines.foldl (fun text line => text ++ lineBreak (indentStep * depth) ++ line) text =
        text ++ String.join (lines.map (lineBreak (indentStep * depth) ++ ·)) := by
    intro lines
    induction lines with
    | nil => simp
    | cons line rest ih =>
      intro text
      rw [List.foldl_cons, ih]
      simp [String.append_assoc]
  rw [Writer.inserted, if_pos hw, hfold, String.empty_append]

/-- A fragment that does not end with a line feed is indented again where it is inserted. -/
theorem toList_inserted {w : Writer} (hw : w.pretty) (depth : Nat) {fragment : String} {c : Char}
    (h : fragment.toList.getLast? = some c) (hc : c ≠ '\n') :
    (w.inserted depth fragment).toList =
      (lineBreak (indentStep * depth)).toList ++
        reindent (indentStep * depth) fragment.toList := by
  obtain ⟨line, hline, hne⟩ := exists_getLast?_splitLines h hc
  have hlines : (Writer.lines fragment).map String.toList =
      (Writer.splitLines fragment.toList).dropLast.map Writer.chopReturn ++
        (Writer.splitLines fragment.toList).getLast?.toList := by
    simp [Writer.lines, hline, hne, Function.comp_def]
  rw [← flatMap_splitLines, ← hlines, inserted_eq_join hw, String.toList_join]
  simp [List.flatMap_map]

end Cartouche.Markup
