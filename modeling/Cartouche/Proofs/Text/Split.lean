/-!
# Texts between separators

`pieces` cuts a text at every occurrence of a separator, from left to right. Texts that are joined
with a separator and share no character with it are the pieces of the joined text
(`pieces_intercalate`): no occurrence can begin within one of them, so the search passes it
character by character up to the separator behind it.
-/

namespace Cartouche

open String.Slice.Pattern
open String.Slice.Pattern.Model (PatternModel StrictPatternModel MatchesAt IsLongestMatchAt
  split_eq_next_of_not_matchesAt split_eq_of_isLongestMatchAt split_endPos)
open String.Slice.Pattern.Model.ForwardStringSearcher (matchesAt_iff_splits
  isLongestMatchAt_iff_splits strictPatternModel lawfulToForwardSearcherModel)

/-- The texts in front of, between and behind the occurrences of a separator. -/
def pieces (text separator : String) : List String := (text.split separator).toList.map (·.copy)

section

variable {separator : String} {s : String.Slice}

/-- No occurrence of a separator begins with a character that it does not have. -/
theorem not_matchesAt_of_notMem {p : s.Pos} {before after : String} {c : Char}
    (hp : p.Splits before (String.singleton c ++ after)) (hseparator : separator ≠ "")
    (hc : c ∉ separator.toList) : ¬ MatchesAt separator p := by
  rw [matchesAt_iff_splits]
  rintro ⟨before', after', hp'⟩
  have htext : c :: after.toList = separator.toList ++ after'.toList := by
    have := congrArg String.toList (hp.eq_right hp')
    simpa using this
  obtain ⟨first, rest, hfirst⟩ :=
    List.exists_cons_of_ne_nil (mt String.toList_eq_nil_iff.1 hseparator)
  rw [hfirst, List.cons_append, List.cons.injEq] at htext
  exact hc (hfirst ▸ htext.1 ▸ List.mem_cons_self)

/-- The search passes a text that has no character of the separator. -/
theorem exists_split_passed [StrictPatternModel separator] (hseparator : separator ≠ "")
    {text : List Char} (htext : ∀ c ∈ text, c ∉ separator.toList) {start p : s.Pos}
    (hstart : start ≤ p) {before after : String}
    (hp : p.Splits before (String.ofList text ++ after)) :
    ∃ (q : s.Pos) (hq : start ≤ q), q.Splits (before ++ String.ofList text) after ∧
      Model.split separator start p hstart = Model.split separator start q hq := by
  induction text generalizing p before with
  | nil => exact ⟨p, hstart, by simpa using hp, rfl⟩
  | cons c rest ih =>
    have hc : String.ofList (c :: rest) = String.singleton c ++ String.ofList rest := by
      simp
    rw [hc, String.append_assoc] at hp
    have hnot := not_matchesAt_of_notMem hp hseparator (htext c List.mem_cons_self)
    have hend := hp.ne_endPos_of_singleton
    obtain ⟨q, hq, hsplits, hsplit⟩ := ih (fun d hd => htext d (List.mem_cons_of_mem c hd))
      (Std.le_trans hstart String.Slice.Pos.le_next) hp.next
    refine ⟨q, hq, ?_, ?_⟩
    · rw [hc, ← String.append_assoc]
      exact hsplits
    · rw [split_eq_next_of_not_matchesAt hend hnot]
      exact hsplit

/-- What lies between two positions. -/
theorem copy_subslice {p q : s.Pos} (h : p ≤ q) {before text after : String}
    (hp : p.Splits before (text ++ after)) (hq : q.Splits (before ++ text) after) :
    (s.subslice p q h).toSlice.copy = text := by
  obtain ⟨_, hcopy⟩ := String.Slice.copy_slice_eq_iff_splits.2 ⟨before, after, hp, hq⟩
  rw [String.Slice.toSlice_subslice]
  exact hcopy

/-- The pieces of what is left of a joined text are the texts that are left. -/
theorem map_copy_split_intercalate [StrictPatternModel separator] (hseparator : separator ≠ "")
    {first : String} {rest : List String}
    (hparts : ∀ part ∈ first :: rest, ∀ c ∈ part.toList, c ∉ separator.toList) {p : s.Pos}
    {before : String} (hp : p.Splits before (separator.intercalate (first :: rest))) :
    (Model.split separator p p (Std.le_refl p)).map (·.toSlice.copy) = first :: rest := by
  have hfirst := hparts first List.mem_cons_self
  induction rest generalizing first p before with
  | nil =>
    rw [String.intercalate_singleton, ← String.append_empty (s := first)] at hp
    obtain ⟨q, hq, hsplits, hsplit⟩ := exists_split_passed hseparator hfirst (Std.le_refl p)
      (by rwa [String.ofList_toList])
    rw [String.ofList_toList] at hsplits
    obtain rfl := hsplits.eq_endPos_iff.2 rfl
    rw [hsplit, split_endPos, List.map_singleton, copy_subslice _ hp hsplits]
  | cons second rest ih =>
    rw [String.intercalate_cons_cons, String.append_assoc] at hp
    obtain ⟨q, hq, hsplits, hsplit⟩ := exists_split_passed hseparator hfirst (Std.le_refl p)
      (by rwa [String.ofList_toList])
    rw [String.ofList_toList] at hsplits
    have hmatch : IsLongestMatchAt separator q hsplits.rotateRight :=
      isLongestMatchAt_iff_splits.2 ⟨_, _, hsplits, hsplits.splits_rotateRight⟩
    have hrest : ∀ part ∈ second :: rest, ∀ c ∈ part.toList, c ∉ separator.toList :=
      fun part hpart => hparts part (List.mem_cons_of_mem first hpart)
    rw [hsplit, split_eq_of_isLongestMatchAt hmatch, List.map_cons, copy_subslice _ hp hsplits,
      ih hrest hsplits.splits_rotateRight (hrest second List.mem_cons_self)]

end

/-- Texts that share no character with a separator are the pieces of what they are joined to. -/
theorem pieces_intercalate {separator : String} (hseparator : separator ≠ "")
    {parts : List String} (hne : parts ≠ [])
    (hparts : ∀ part ∈ parts, ∀ c ∈ part.toList, c ∉ separator.toList) :
    pieces (separator.intercalate parts) separator = parts := by
  obtain ⟨first, rest, rfl⟩ := List.exists_cons_of_ne_nil hne
  have := strictPatternModel hseparator
  have := lawfulToForwardSearcherModel hseparator
  have hstart := String.Slice.splits_startPos (separator.intercalate (first :: rest)).toSlice
  rw [String.copy_toSlice] at hstart
  rw [pieces, String.split_eq_split_toSlice, String.Slice.toList_split_eq_splitToSubslice,
    toList_splitToSubslice_eq_modelSplit, List.map_map]
  exact map_copy_split_intercalate hseparator hparts hstart

end Cartouche
