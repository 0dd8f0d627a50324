import Cartouche.Diagnostic
import Cartouche.Feature.Basic

/-!
# Feature sources

A source is opened once for each rendering and hands out features one by one. Its behaviour is
written down as a script, what the first reads deliver, and an ending for all reads behind them.
`Source.harvest` is the one loop by which documents are made. It asks whether to abort before every
read, stops at the first error and at the end of the features, and closes what it opened. The calls
it makes are part of its result.
-/

namespace Cartouche

/-- What a read delivers. -/
inductive Delivery where
  | feature (feature : Feature)
  | failure (reason : String)
  | exhausted

/-- What reads deliver when no features are left: nothing, for a while or for good. -/
structure Ending where
  /-- How many reads deliver nothing before the failure sets in. -/
  emptyReads : Nat := 0
  /-- What all further reads fail with; without it they deliver nothing either. -/
  failure : Option String := none
deriving DecidableEq, Repr

namespace Ending

/-- What the first read delivers. -/
def delivery (ending : Ending) : Delivery :=
  match ending.emptyReads, ending.failure with
  | 0, some reason => .failure reason
  | _, _ => .exhausted

/-- What is left behind the first read. -/
def next (ending : Ending) : Ending := { ending with emptyReads := ending.emptyReads - 1 }

end Ending

/-- The behaviour of a source. -/
structure Source where
  /-- Why it cannot be opened. -/
  refusal : Option String := none
  /-- What the first reads deliver. -/
  script : List Delivery
  /-- What all further reads deliver. -/
  ending : Ending := {}

/-- A source that delivers features from memory. -/
def Source.ofFeatures (features : List Feature) : Source where
  script := features.map .feature

/-- A source that was opened, with the reads that are still to come. -/
structure Reader where
  script : List Delivery
  ending : Ending

namespace Reader

/-- Opens a source. -/
def ofSource (source : Source) : Except SourceError Reader :=
  match source.refusal with
  | some reason => .error (.openFailed reason)
  | none => .ok { script := source.script, ending := source.ending }

/-- Reads once. -/
def next (reader : Reader) : Delivery × Reader :=
  match reader.script with
  | [] => (reader.ending.delivery, { reader with ending := reader.ending.next })
  | delivery :: rest => (delivery, { reader with script := rest })

end Reader

/-- Readers that are open under names. A reader is closed once, when it is released or when another
one takes its name. -/
structure ReaderTable where
  readers : List (String × Reader) := []
  /-- How many readers were closed. -/
  closed : Nat := 0

namespace ReaderTable

/-- Releases the reader under a name, and tells whether there was one. -/
def release (table : ReaderTable) (name : String) : Bool × ReaderTable :=
  match table.readers.lookup name with
  | some _ =>
    (true,
      { readers := table.readers.filter (·.1 != name)
        closed := table.closed + 1 })
  | none => (false, table)

/-- Opens a source under a name. The name is given over only when the source could be opened. -/
def openAs (table : ReaderTable) (name : String) (source : Source) :
    Except SourceError ReaderTable :=
  (Reader.ofSource source).map fun reader =>
    let (_, table) := table.release name
    { table with readers := (name, reader) :: table.readers }

/-- Reads once from the reader under a name; without one nothing is delivered. -/
def next (table : ReaderTable) (name : String) : Delivery × ReaderTable :=
  match table.readers.lookup name with
  | some reader =>
    let (delivery, reader) := reader.next
    (delivery,
      { table with
        readers := table.readers.map fun entry =>
          if entry.1 == name then (name, reader) else entry })
  | none => (.exhausted, table)

end ReaderTable

/-- A call made while a document is rendered, with its answer. -/
inductive Call where
  | opened
  | refused
  | checked (abort : Bool)
  | read (delivery : Delivery)
  | closed

/-- The call asked whether to abort. -/
def Call.isCheck : Call → Bool
  | .checked _ => true
  | _ => false

/-- The call closed the source. -/
def Call.isClose : Call → Bool
  | .closed => true
  | _ => false

/-- A result with the calls that led to it. -/
structure Run (α : Type u) where
  result : Except RenderError α
  calls : List Call

namespace Run

/-- How often it was asked whether to abort. -/
def checks {α : Type u} (run : Run α) : Nat := run.calls.countP Call.isCheck

/-- How often the source was closed. -/
def closings {α : Type u} (run : Run α) : Nat := run.calls.countP Call.isClose

/-- Goes on with a result. -/
def andThen {α : Type u} {β : Type v} (run : Run α) (f : α → Except RenderError β) : Run β where
  result :=
    match run.result with
    | .ok a => f a
    | .error error => .error error
  calls := run.calls

/-- The run with a call before it. -/
def after {α : Type u} (call : Call) (run : Run α) : Run α where
  result := run.result
  calls := call :: run.calls

end Run

/-- The answers to the questions whether to abort, by their number. -/
abbrev AbortCheck := Nat → Bool

namespace Source

variable {σ : Type u}

/-- Notes the question whether to abort, if it is asked at all, and that the answer was no. -/
def noteCheck (abort : Option AbortCheck) (run : Run σ) : Run σ :=
  if abort.isSome then run.after (.checked false) else run

/-- The last read: it fails or delivers nothing. -/
def lastRead (state : σ) (delivery : Delivery) : Run σ where
  result :=
    match delivery with
    | .failure reason => .error (.source (.readFailed reason))
    | _ => .ok state
  calls := [.read delivery]

/-- Reads to the end and folds the features into a state; `asked` questions were answered before. -/
def harvestFrom (abort : Option AbortCheck) (step : σ → Feature → σ) (final : Delivery)
    (asked : Nat) (state : σ) (script : List Delivery) : Run σ :=
  if abort.any (· asked) then
    { result := .error .aborted, calls := [.checked true] }
  else
    match script with
    | [] => noteCheck abort (lastRead state final)
    | .feature feature :: rest =>
      let run := harvestFrom abort step final (asked + 1) (step state feature) rest
      noteCheck abort (run.after (.read (.feature feature)))
    | delivery :: _ => noteCheck abort (lastRead state delivery)

/-- Opens a source, folds its features into a state and closes it again. -/
def harvest (source : Source) (abort : Option AbortCheck) (step : σ → Feature → σ) (init : σ) :
    Run σ :=
  match source.refusal with
  | some reason => { result := .error (.source (.openFailed reason)), calls := [.refused] }
  | none =>
    let run := harvestFrom abort step source.ending.delivery 0 init source.script
    { result := run.result, calls := .opened :: run.calls ++ [.closed] }

end Source

end Cartouche
