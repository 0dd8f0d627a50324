import Cartouche.Proofs.Markup.Layout
import Cartouche.Proofs.Markup.Reindent

/-!
# Drafts with a place for a fragment

A `Draft` is a writer and the place that was reserved in it until a fragment is put there. Its owner
may make any calls in any order: nothing asks for tags to be closed, for a place to be reserved only
once, or for a fragment to come before the end. Every call keeps the two counters of open elements
in step (`Draft.IsInStep.step`). A call that neither takes a place nor uses one only writes
(`Draft.foldl_step_of_idle`), so a run leaves behind what is written in front of the place, the
fragment, and what is written behind it (`Draft.holds_run`). In indented markup the fragment is put
there line by line (`Draft.isPlaced_inserted`), and its lines are what `IsLines` says.
-/

namespace Cartouche

/-! ## Lines -/

/-- Characters line by line. A line ends with a line feed, or a carriage return and a line feed;
what stands behind the last end of a line is a line as well, if there is something. -/
inductive IsLines : List Char → List (List Char) → Prop where
  | nil : IsLines [] []
  | last {line : List Char} (h : '\n' ∉ line) (hne : line ≠ []) : IsLines line [line]
  | feed {line rest : List Char} {lines : List (List Char)} (h : '\n' ∉ line)
    (hreturn : line.getLast? ≠ some '\r') (hrest : IsLines rest lines) :
    IsLines (line ++ '\n' :: rest) (line :: lines)
  | returnFeed {line rest : List Char} {lines : List (List Char)} (h : '\n' ∉ line)
    (hrest : IsLines rest lines) : IsLines (line ++ '\r' :: '\n' :: rest) (line :: lines)

namespace Writer

/-- Characters without a line feed are one piece. -/
theorem splitLines_of_notMem {cs : List Char} (h : '\n' ∉ cs) : splitLines cs = [cs] := by
  induction cs with
  | nil => rfl
  | cons c rest ih =>
    obtain ⟨line, lines, hrest, hcons⟩ :=
      Markup.exists_splitLines_cons (List.ne_of_not_mem_cons h).symm rest
    rw [ih (List.not_mem_of_not_mem_cons h)] at hrest
    obtain ⟨rfl, rfl⟩ := List.cons_eq_cons.1 hrest
    exact hcons

/-- The first piece ends at the first line feed. -/
theorem splitLines_append {line : List Char} (h : '\n' ∉ line) (rest : List Char) :
    splitLines (line ++ '\n' :: rest) = line :: splitLines rest := by
  induction line with
  | nil => rfl
  | cons c line ih =>
    obtain ⟨first, others, htail, hcons⟩ :=
      Markup.exists_splitLines_cons (List.ne_of_not_mem_cons h).symm (line ++ '\n' :: rest)
    rw [ih (List.not_mem_of_not_mem_cons h)] at htail
    obtain ⟨rfl, rfl⟩ := List.cons_eq_cons.1 htail
    exact hcons

/-- Splitting at line feeds, and taking the carriage returns off what was ended by one, gives the
lines. A line that nothing ends keeps its carriage return. -/
theorem isLines_splitLines (cs : List Char) :
    IsLines cs ((splitLines cs).dropLast.map chopReturn ++
      (splitLines cs).getLast?.toList.filter (· ≠ [])) := by
  by_cases h : '\n' ∈ cs
  · obtain ⟨line, rest, hcs, hline⟩ := List.eq_append_cons_of_mem h
    have hshorter : rest.length < cs.length := by
      rw [hcs, List.length_append, List.length_cons]
      omega
    have hrest := isLines_splitLines rest
    obtain ⟨first, others, hsplit⟩ := List.exists_cons_of_ne_nil (Markup.splitLines_ne_nil rest)
    rw [hcs, splitLines_append hline, hsplit, List.dropLast_cons_cons, List.getLast?_cons_cons,
      ← hsplit, List.map_cons, List.cons_append]
    unfold chopReturn
    split
    · next hreturn =>
      obtain ⟨init, rfl⟩ := List.getLast?_eq_some_iff.1 hreturn
      rw [List.dropLast_concat, List.append_assoc]
      exact .returnFeed (fun hmem => hline (List.mem_append_left _ hmem)) hrest
    · next hreturn => exact .feed hline hreturn hrest
  · rw [splitLines_of_notMem h]
    by_cases hne : cs = []
    · subst hne
      exact .nil
    · simpa [hne] using IsLines.last h hne
termination_by cs.length

/-- The lines of a text are its lines. -/
theorem isLines_lines (s : String) : IsLines s.toList ((lines s).map String.toList) := by
  simpa [lines, Function.comp_def] using isLines_splitLines s.toList

/-- The number of open elements goes up and down with the tags. -/
theorem depth_writeAll_eq_foldl (w : Writer) (events : List Event) :
    (w.writeAll events).depth = events.foldl Markup.openAfter w.depth := by
  induction events generalizing w with
  | nil => rfl
  | cons event rest ih =>
    have hevent : (w.write event).depth = Markup.openAfter w.depth event := by
      cases event <;> rfl
    rw [writeAll_cons, ih, hevent, List.foldl_cons]

end Writer

/-! ## Drafts -/

/-- A writer and the places in it. -/
structure Draft where
  writer : Writer
  /-- The place that waits for a fragment. -/
  held : Option Reservation := none
  /-- All places that were ever issued. -/
  issued : List Reservation := []

namespace Draft

/-- A call of the owner of a draft. -/
inductive Call where
  /-- Writes the declaration, a tag or a text. -/
  | write (event : Event)
  /-- Writes an element that holds a text. -/
  | writeElement (name : String) (attributes : Attributes) (content : String)
  /-- Asks for a place. -/
  | reserve
  /-- Puts a fragment at the place. -/
  | splice (fragment : String)
deriving DecidableEq

/-- The events that a call writes. -/
def Call.events : Call → List Event
  | .write event => [event]
  | .writeElement name attributes content => Event.textElement name attributes content
  | .reserve => []
  | .splice _ => []

/-- The fragment that a call puts at the place. -/
def Call.fragment? : Call → Option String
  | .splice fragment => some fragment
  | _ => none

/-- Events are written and change nothing else about the draft. -/
def writeAll (d : Draft) (events : List Event) : Draft :=
  { d with writer := d.writer.writeAll events }

/-- The place is kept if one is issued. -/
def reserve (d : Draft) : Draft :=
  match d.writer.reserve with
  | (some place, w) => { writer := w, held := some place, issued := d.issued ++ [place] }
  | (none, w) => { d with writer := w }

/-- The place is used up. Who has no place has nowhere to put a fragment. -/
def splice (d : Draft) (fragment : String) : Draft :=
  match d.held with
  | some place => { d with writer := d.writer.splice place fragment, held := none }
  | none => d

/-- What a call does. -/
def step (d : Draft) : Call → Draft
  | .write event => d.writeAll [event]
  | .writeElement name attributes content =>
    d.writeAll (Event.textElement name attributes content)
  | .reserve => d.reserve
  | .splice fragment => d.splice fragment

/-- The draft after calls. -/
def run (pretty : Bool) (calls : List Call) : Draft := calls.foldl step { writer := .new pretty }

/-! ## What the calls say -/

/-- The events that calls write. -/
def written (calls : List Call) : List Event := calls.flatMap Call.events

/-- The calls in front of the first one that asks for a place. -/
def front (calls : List Call) : List Call := calls.takeWhile (· ≠ .reserve)

/-- The calls from the first one on that asks for a place. -/
def behind (calls : List Call) : List Call := calls.dropWhile (· ≠ .reserve)

/-- The first fragment behind a call that asks for a place. -/
def fragment? (calls : List Call) : Option String := (behind calls).findSome? Call.fragment?

/-- A fragment as it stands at a place: in indented markup each of its lines behind a line break and
two blanks for each element that is open there. -/
def IsPlaced (pretty : Bool) (depth : Nat) (fragment text : String) : Prop :=
  if pretty then
    ∃ lines : List String, IsLines fragment.toList (lines.map String.toList) ∧
      text = String.join (lines.map fun line => lineBreak (2 * depth) ++ line)
  else
    text = fragment

/-- What stands at the place: nothing, or the fragment that was put there. -/
def IsInsertion (pretty : Bool) (calls : List Call) (text : String) : Prop :=
  match fragment? calls with
  | none => text = ""
  | some fragment => IsPlaced pretty (run pretty (front calls)).writer.depth fragment text

/-- No calls write nothing. -/
@[simp] theorem written_nil : written [] = [] := rfl

/-- Calls write one after the other. -/
@[simp] theorem written_cons (call : Call) (calls : List Call) :
    written (call :: calls) = call.events ++ written calls := rfl

/-- What calls write can be taken apart where the calls are. -/
@[simp] theorem written_append (first second : List Call) :
    written (first ++ second) = written first ++ written second :=
  List.flatMap_append

/-- All that is written is written in front of the place or behind it. -/
theorem written_front_append_behind (calls : List Call) :
    written (front calls) ++ written (behind calls) = written calls := by
  rw [← written_append, front, behind, List.takeWhile_append_dropWhile]

@[simp] theorem front_nil : front [] = [] := rfl

@[simp] theorem behind_nil : behind [] = [] := rfl

/-- The call that asks for the place is not in front of it, but the first one behind. -/
@[simp] theorem front_reserve (rest : List Call) : front (.reserve :: rest) = [] := rfl

@[simp] theorem behind_reserve (rest : List Call) :
    behind (.reserve :: rest) = .reserve :: rest := rfl

section

variable {first : List Call} (h : .reserve ∉ first) (rest : List Call)
include h

/-- Calls that ask for no place are all in front. -/
theorem front_append : front (first ++ rest) = first ++ front rest :=
  List.takeWhile_append_of_pos fun _ hcall => decide_eq_true fun heq => h (heq ▸ hcall)

/-- The place is the same when calls that ask for none come first. -/
theorem behind_append : behind (first ++ rest) = behind rest :=
  List.dropWhile_append_of_pos fun _ hcall => decide_eq_true fun heq => h (heq ▸ hcall)

end

/-! ## One call -/

variable {d : Draft}

/-- Events can be written in two runs. -/
theorem writeAll_append (d : Draft) (first second : List Event) :
    d.writeAll (first ++ second) = (d.writeAll first).writeAll second := by
  rw [writeAll, Writer.writeAll_append]
  rfl

/-- Asking for another place changes nothing: there is one place in a draft. -/
theorem reserve_of_reserved (h : d.writer.reserved = true) : d.reserve = d := by
  rw [reserve, Writer.reserve, if_pos h]

/-- The first place that is asked for is issued: it is the end of what was written. -/
theorem reserve_of_not_reserved (h : d.writer.reserved = false) :
    d.reserve =
      { writer := { d.writer with reserved := true }
        held := some { offset := d.writer.bytes.size, depth := d.writer.depth }
        issued := d.issued ++ [{ offset := d.writer.bytes.size, depth := d.writer.depth }] } := by
  rw [reserve, Writer.reserve, if_neg (by simp [h])]

/-- A fragment is put at the place that is held, and the place is used up. -/
theorem splice_of_held {place : Reservation} (h : d.held = some place) (fragment : String) :
    d.splice fragment = { d with writer := d.writer.splice place fragment, held := none } := by
  rw [splice, h]

/-- Without a place there is nothing to be done with a fragment. -/
theorem splice_of_held_eq_none (h : d.held = none) (fragment : String) : d.splice fragment = d := by
  rw [splice, h]

/-- Behind a fragment no place is held, whether there was one or not. -/
@[simp] theorem held_splice (d : Draft) (fragment : String) : (d.splice fragment).held = none := by
  cases hheld : d.held with
  | none => rw [splice_of_held_eq_none hheld, hheld]
  | some place => rw [splice_of_held hheld]

/-- A fragment does not make room for another place. -/
@[simp] theorem reserved_splice (d : Draft) (fragment : String) :
    (d.splice fragment).writer.reserved = d.writer.reserved := by
  cases hheld : d.held with
  | none => rw [splice_of_held_eq_none hheld]
  | some place => rw [splice_of_held hheld, Writer.splice]

/-- Writing takes no place. -/
@[simp] theorem reserved_writeAll (d : Draft) (events : List Event) :
    (d.writeAll events).writer.reserved = d.writer.reserved :=
  Writer.reserved_writeAll _ _

/-- A call only writes, unless it takes the place or uses it. -/
theorem step_of_idle {call : Call} (hreserve : call = .reserve → d.writer.reserved = true)
    (hsplice : d.held = none ∨ call.fragment? = none) : d.step call = d.writeAll call.events := by
  cases call with
  | write event => rfl
  | writeElement name attributes content => rfl
  | reserve => exact reserve_of_reserved (hreserve rfl)
  | splice fragment =>
    have hheld : d.held = none := hsplice.resolve_right (by simp [Call.fragment?])
    exact splice_of_held_eq_none hheld fragment

/-! ## Counters -/

/-- What every call keeps, when events were written so far. -/
structure IsInStep (d : Draft) (events : List Event) : Prop where
  depth : d.writer.depth = Markup.openElements events
  indent : d.writer.indent = indentStep * d.writer.depth
  issued : d.issued.length = if d.writer.reserved then 1 else 0

/-- Writing keeps both counters in step, also where tags are closed that were never opened. -/
theorem IsInStep.writeAll {events : List Event} (h : d.IsInStep events) (more : List Event) :
    (d.writeAll more).IsInStep (events ++ more) where
  depth := by
    rw [Draft.writeAll, Writer.depth_writeAll_eq_foldl, h.depth, Markup.openElements,
      Markup.openElements, List.foldl_append]
  indent := by
    have hindent := Markup.Spacing.indent_afterAll d.writer.spacing more h.indent
    rw [← Writer.spacing_writeAll, ← Writer.depth_writeAll_eq_foldl] at hindent
    exact hindent
  issued := by
    rw [Draft.writeAll, Writer.reserved_writeAll]
    exact h.issued

/-- Every call keeps both counters of open elements in step, and counts the places. -/
theorem IsInStep.step {events : List Event} (h : d.IsInStep events) (call : Call) :
    (d.step call).IsInStep (events ++ call.events) := by
  cases call with
  | write event => exact h.writeAll [event]
  | writeElement name attributes content => exact h.writeAll _
  | reserve =>
    rw [Call.events, List.append_nil, Draft.step]
    cases hreserved : d.writer.reserved with
    | true =>
      rw [reserve_of_reserved hreserved]
      exact h
    | false =>
      have hnone := h.issued
      rw [hreserved] at hnone
      rw [reserve_of_not_reserved hreserved]
      exact ⟨h.depth, h.indent, by simpa using hnone⟩
  | splice fragment =>
    rw [Call.events, List.append_nil, Draft.step]
    cases hheld : d.held with
    | none =>
      rw [splice_of_held_eq_none hheld]
      exact h
    | some place =>
      rw [splice_of_held hheld, Writer.splice]
      exact ⟨h.depth, h.indent, h.issued⟩

/-- A run of calls keeps what every call keeps. -/
theorem IsInStep.foldl_step {events : List Event} (h : d.IsInStep events) (calls : List Call) :
    (calls.foldl Draft.step d).IsInStep (events ++ written calls) := by
  induction calls generalizing d events with
  | nil =>
    rw [written_nil, List.append_nil]
    exact h
  | cons call rest ih =>
    rw [written_cons, ← List.append_assoc]
    exact ih (h.step call)

/-- A draft that starts empty is in step after any calls. -/
theorem isInStep_run (pretty : Bool) (calls : List Call) :
    (run pretty calls).IsInStep (written calls) := by
  have hnew : IsInStep { writer := .new pretty } [] := ⟨rfl, rfl, rfl⟩
  exact hnew.foldl_step calls

/-! ## Calls that only write -/

/-- Calls only write, as long as none of them takes the place or uses it. -/
theorem foldl_step_of_idle {calls : List Call}
    (hreserve : .reserve ∈ calls → d.writer.reserved = true)
    (hsplice : d.held = none ∨ ∀ call ∈ calls, call.fragment? = none) :
    calls.foldl step d = d.writeAll (written calls) := by
  induction calls generalizing d with
  | nil => rfl
  | cons call rest ih =>
    have hcall : d.step call = d.writeAll call.events :=
      step_of_idle (fun h => hreserve (by simp [h])) (hsplice.imp_right fun h => h call (by simp))
    rw [List.foldl_cons, hcall, written_cons, writeAll_append]
    refine ih (fun h => ?_) (hsplice.imp_right fun h other hother => h other (by simp [hother]))
    rw [reserved_writeAll]
    exact hreserve (List.mem_cons_of_mem _ h)

/-- Nothing but writing is done before a place is asked for. -/
theorem run_of_notMem {pretty : Bool} {calls : List Call} (h : .reserve ∉ calls) :
    run pretty calls = { writer := (Writer.new pretty).writeAll (written calls) } :=
  foldl_step_of_idle (fun hmem => absurd hmem h) (.inl rfl)

/-! ## The place -/

/-- A fragment is inserted line by line. -/
theorem isPlaced_inserted (w : Writer) (depth : Nat) (fragment : String) :
    IsPlaced w.pretty depth fragment (w.inserted depth fragment) := by
  rw [IsPlaced]
  split
  · next hpretty =>
    exact ⟨_, Writer.isLines_lines fragment, Markup.inserted_eq_join hpretty depth fragment⟩
  · next hcompact => rw [Writer.inserted, if_neg hcompact]

/-- The text of a draft, and where the next line would begin. -/
structure Holds (d : Draft) (text : String) (sp : Markup.Spacing) : Prop where
  bytes : d.writer.bytes = text.toByteArray
  spacing : d.writer.spacing = sp

/-- Writing appends the text of the events, laid out as it is behind what was written before. -/
theorem Holds.writeAll {text : String} {sp : Markup.Spacing} (h : d.Holds text sp)
    (events : List Event) :
    (d.writeAll events).Holds (text ++ sp.text events) (sp.afterAll events) where
  bytes := by
    rw [← h.spacing]
    exact Writer.bytes_writeAll h.bytes events
  spacing := by
    rw [← h.spacing]
    exact Writer.spacing_writeAll d.writer events

/-- A fragment is put at the place, also when something was written behind it. -/
theorem Holds.exists_splice {before behind : String} {sp : Markup.Spacing}
    (h : d.Holds (before ++ behind) sp) {depth : Nat}
    (hheld : d.held = some { offset := before.utf8ByteSize, depth }) (fragment : String) :
    ∃ inserted, IsPlaced sp.pretty depth fragment inserted ∧
      (d.splice fragment).Holds (before ++ inserted ++ behind) sp := by
  have hplaced := isPlaced_inserted d.writer depth fragment
  have hpretty : d.writer.pretty = sp.pretty := by
    rw [← h.spacing]
    rfl
  rw [hpretty] at hplaced
  refine ⟨_, hplaced, ?_⟩
  rw [splice_of_held hheld]
  refine ⟨Writer.bytes_splice h.bytes rfl fragment, ?_⟩
  rw [Writer.spacing, Writer.splice]
  exact h.spacing

/-- A new draft holds nothing, and nothing comes before its first line. -/
theorem holds_new (pretty : Bool) : Holds { writer := .new pretty } "" { pretty } := ⟨rfl, rfl⟩

/-- A place was issued at the end of a text. -/
structure IsOpened (d : Draft) (text : String) (sp : Markup.Spacing) (depth : Nat) : Prop
    extends d.Holds text sp where
  reserved : d.writer.reserved = true
  held : d.held = some { offset := text.utf8ByteSize, depth }

/-- The first call that asks for a place is granted one. -/
theorem isOpened_reserve (pretty : Bool) {calls : List Call} (h : .reserve ∉ calls) :
    (run pretty calls).reserve.IsOpened (Markup.render pretty (written calls))
      (({ pretty } : Markup.Spacing).afterAll (written calls)) (run pretty calls).writer.depth := by
  have hholds := (holds_new pretty).writeAll (written calls)
  rw [String.empty_append] at hholds
  have hreserved : ((Writer.new pretty).writeAll (written calls)).reserved = false :=
    Writer.reserved_writeAll _ _
  rw [run_of_notMem h, reserve_of_not_reserved hreserved]
  refine ⟨⟨hholds.bytes, hholds.spacing⟩, rfl, ?_⟩
  rw [Markup.render, ← String.size_toByteArray, ← hholds.bytes]
  rfl

section

variable {text : String} {sp : Markup.Spacing} {depth : Nat} {calls : List Call}

/-- Without a fragment the place stays empty. -/
theorem IsOpened.holds_of_eq_none (h : d.IsOpened text sp depth)
    (hnone : calls.findSome? Call.fragment? = none) :
    (calls.foldl step d).Holds (text ++ sp.text (written calls)) (sp.afterAll (written calls)) := by
  rw [foldl_step_of_idle (fun _ => h.reserved) (.inr (List.findSome?_eq_none_iff.1 hnone))]
  exact h.writeAll (written calls)

/-- The first fragment is put at the place, and everything else is written behind it. -/
theorem IsOpened.holds_of_eq_some (h : d.IsOpened text sp depth) {fragment : String}
    (hsome : calls.findSome? Call.fragment? = some fragment) :
    ∃ inserted, IsPlaced sp.pretty depth fragment inserted ∧
      (calls.foldl step d).Holds (text ++ inserted ++ sp.text (written calls))
        (sp.afterAll (written calls)) := by
  obtain ⟨middle, call, rest, rfl, hcall, hmiddle⟩ := List.findSome?_eq_some_iff.1 hsome
  obtain rfl : call = .splice fragment := by
    cases call <;> simp_all [Call.fragment?]
  -- What was written behind the place is moved by the fragment, and the rest follows it.
  obtain ⟨inserted, hplaced, hspliced⟩ :=
    (h.writeAll (written middle)).exists_splice h.held fragment
  have hrest := hspliced.writeAll (written rest)
  rw [Markup.Spacing.pretty_afterAll] at hplaced
  rw [String.append_assoc, ← Markup.Spacing.text_append, ← Markup.Spacing.afterAll_append] at hrest
  refine ⟨inserted, hplaced, ?_⟩
  rw [List.foldl_append, foldl_step_of_idle (fun _ => h.reserved) (.inr hmiddle), List.foldl_cons,
    step, foldl_step_of_idle (fun _ => by simp [h.reserved]) (.inl (held_splice _ _)),
    written_append, written_cons]
  exact hrest

end

/-- The text that calls leave behind. -/
theorem holds_run (pretty : Bool) (calls : List Call) :
    ∃ inserted, IsInsertion pretty calls inserted ∧
      (run pretty calls).Holds
        (Markup.render pretty (written (front calls)) ++ inserted ++
          (({ pretty } : Markup.Spacing).afterAll (written (front calls))).text
            (written (behind calls)))
        (({ pretty } : Markup.Spacing).afterAll (written calls)) := by
  by_cases hmem : .reserve ∈ calls
  · obtain ⟨before, rest, rfl, hbefore⟩ := List.eq_append_cons_of_mem hmem
    have hopened := isOpened_reserve pretty hbefore
    have hrun : run pretty (before ++ .reserve :: rest) =
        rest.foldl step (run pretty before).reserve := by
      rw [run, List.foldl_append]
      rfl
    have hfragment : fragment? (before ++ .reserve :: rest) = rest.findSome? Call.fragment? := by
      rw [fragment?, behind_append hbefore]
      rfl
    simp only [hrun, IsInsertion, hfragment, front_append hbefore, behind_append hbefore,
      front_reserve, behind_reserve, List.append_nil, written_append,
      Markup.Spacing.afterAll_append, written_cons, Call.events, List.nil_append]
    cases hrest : rest.findSome? Call.fragment? with
    | none =>
      refine ⟨"", rfl, ?_⟩
      rw [String.append_empty]
      exact hopened.holds_of_eq_none hrest
    | some fragment =>
      have hholds := hopened.holds_of_eq_some hrest
      rw [Markup.Spacing.pretty_afterAll] at hholds
      exact hholds
  · have hfront : front calls = calls := by simpa using front_append hmem []
    have hbehind : behind calls = [] := by simpa using behind_append hmem []
    have hnone : IsInsertion pretty calls "" := by
      rw [IsInsertion, fragment?, hbehind]
      rfl
    have hempty (sp : Markup.Spacing) : sp.text (written []) = "" := rfl
    have hholds := (holds_new pretty).writeAll (written calls)
    refine ⟨"", hnone, ?_⟩
    rw [String.empty_append] at hholds
    rw [run_of_notMem hmem, hfront, hbehind, hempty, String.append_empty, String.append_empty]
    exact hholds

/-- Whatever calls are made, in any order and whether or not the tags match: at most one place is
issued, both counters of open elements are in step, and what was written is a text. The text is what
was written in front of the place, the fragment, if one was put there, and all that was written
behind the place. Without the fragment it is the markup of all events. -/
theorem finish_run (pretty : Bool) (calls : List Call) :
    (run pretty calls).issued.length ≤ 1 ∧
      (run pretty calls).writer.depth = Markup.openElements (written calls) ∧
      (run pretty calls).writer.indent = 2 * (run pretty calls).writer.depth ∧
      ∃ inserted rest, IsInsertion pretty calls inserted ∧
        Markup.render pretty (written calls) =
          Markup.render pretty (written (front calls)) ++ rest ∧
        (run pretty calls).writer.finish =
          .ok (Markup.render pretty (written (front calls)) ++ inserted ++ rest) := by
  have hstep := isInStep_run pretty calls
  have hissued : (run pretty calls).issued.length ≤ 1 := by
    rw [hstep.issued]
    split
    · exact Nat.le_refl 1
    · exact Nat.zero_le 1
  have hsplit : Markup.render pretty (written calls) =
      Markup.render pretty (written (front calls)) ++
        (({ pretty } : Markup.Spacing).afterAll (written (front calls))).text
          (written (behind calls)) := by
    rw [← written_front_append_behind]
    exact Markup.Spacing.text_append _ _ _
  obtain ⟨inserted, hinserted, hholds⟩ := holds_run pretty calls
  exact ⟨hissued, hstep.depth, hstep.indent, inserted, _, hinserted, hsplit,
    Writer.finish_of_bytes hholds.bytes⟩

/-- An end tag too many, and calls behind the fragment. -/
example :
    (run true [.write (.endTag "a"), .write (.startTag "b" []), .reserve,
        .writeElement "c" [] "\n", .splice "<d>\r\n  <e/>\n</d>\n", .reserve, .splice "<f/>",
        .write (.emptyTag "g" [])]).writer.finish =
      .ok "</a>\n<b>\n  <d>\n    <e/>\n  </d>\n  <c>\n</c>\n  <g/>" := by
  rfl

end Draft

end Cartouche
