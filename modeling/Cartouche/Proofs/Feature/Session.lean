import Cartouche.Proofs.Feature.Harvest

/-!
# Sessions with a source

A `Session` is what goes on between a rendering and a source that could be opened: the features that
were read, and why no more were. Its calls (`Session.calls`) are the opening, then for each feature
the question whether to abort and one read, then the question that was answered with yes or the read
that gave no feature, and at last the closing. Answers and reads lead to exactly one session
(`Session.IsLedBy`), which looks at none of those behind its end. A harvest that is completed to a
document makes the calls of this session and has its outcome (`keepsProtocol_harvest`).
-/

namespace Cartouche

/-- Why a source is read no further. -/
inductive Stop where
  | aborted
  | failed (reason : String)
  | exhausted

namespace Stop

/-- The question whether to abort, answered with no, if anyone is there to answer it. -/
def goAhead (asks : Bool) : List Call := if asks then [.checked false] else []

/-- The last calls before the source is closed. -/
def calls (asks : Bool) : Stop → List Call
  | .aborted => [.checked true]
  | .failed reason => goAhead asks ++ [.read (.failure reason)]
  | .exhausted => goAhead asks ++ [.read .exhausted]

/-- What is given instead of a document, unless the source was read to its end. -/
def outcome {α : Type u} (document : α) : Stop → Except RenderError α
  | .aborted => .error .aborted
  | .failed reason => .error (.source (.readFailed reason))
  | .exhausted => .ok document

/-- The answer or the read of a number makes the source be read no further. A read is made only
after the answer no. -/
def At (answer : Nat → Bool) (delivery : Nat → Delivery) (number : Nat) : Stop → Prop
  | .aborted => answer number = true
  | .failed reason => answer number = false ∧ delivery number = .failure reason
  | .exhausted => answer number = false ∧ delivery number = .exhausted

end Stop

/-- What goes on with a source that was opened. -/
structure Session where
  features : List Feature
  stop : Stop

namespace Session

/-- The calls between the opening and the closing. -/
def innerCalls (asks : Bool) (session : Session) : List Call :=
  (session.features.flatMap fun feature => Stop.goAhead asks ++ [.read (.feature feature)]) ++
    session.stop.calls asks

/-- All calls. -/
def calls (asks : Bool) (session : Session) : List Call :=
  .opened :: session.innerCalls asks ++ [.closed]

/-- A rendering that consists of the session, with the document of its features. -/
def run {α : Type u} (asks : Bool) (session : Session) (document : α) : Run α where
  result := session.stop.outcome document
  calls := session.calls asks

/-- The answers and the reads, each by its number, lead to the session. -/
structure IsLedBy (session : Session) (answer : Nat → Bool) (delivery : Nat → Delivery) :
    Prop where
  feature : ∀ n, (h : n < session.features.length) →
    answer n = false ∧ delivery n = .feature session.features[n]
  stop : session.stop.At answer delivery session.features.length

end Session

/-- What the read of a number delivers when it is made after all reads before it. -/
def Reader.delivery (reader : Reader) : Nat → Delivery
  | 0 => reader.next.1
  | n + 1 => reader.next.2.delivery n

/-- The answer to the question of a number; it is no when nobody answers. -/
def answer (abort : Option AbortCheck) (number : Nat) : Bool := abort.any (· number)

namespace Session

/-- A session without features stops at once. -/
theorem isLedBy_nil {stop : Stop} {answer : Nat → Bool} {delivery : Nat → Delivery} :
    IsLedBy ⟨[], stop⟩ answer delivery ↔ stop.At answer delivery 0 :=
  ⟨fun h => h.stop, fun h => ⟨fun n hn => absurd hn (Nat.not_lt_zero n), h⟩⟩

/-- The answer yes stops a session, and so does a read that delivers no feature. -/
theorem exists_isLedBy_nil {answer : Nat → Bool} {delivery : Nat → Delivery}
    (h : answer 0 = true ∨ ∀ feature, delivery 0 ≠ .feature feature) :
    ∃ stop, IsLedBy ⟨[], stop⟩ answer delivery := by
  cases hanswer : answer 0 with
  | true => exact ⟨.aborted, isLedBy_nil.2 hanswer⟩
  | false =>
    cases hread : delivery 0 with
    | feature feature =>
      rcases h with h | h
      · rw [hanswer] at h
        cases h
      · exact absurd hread (h feature)
    | failure reason => exact ⟨.failed reason, isLedBy_nil.2 ⟨hanswer, hread⟩⟩
    | exhausted => exact ⟨.exhausted, isLedBy_nil.2 ⟨hanswer, hread⟩⟩

/-- A session goes on with what comes after the first feature. -/
theorem isLedBy_cons {feature : Feature} {features : List Feature} {stop : Stop}
    {answer : Nat → Bool} {delivery : Nat → Delivery} :
    IsLedBy ⟨feature :: features, stop⟩ answer delivery ↔
      (answer 0 = false ∧ delivery 0 = .feature feature) ∧
        IsLedBy ⟨features, stop⟩ (fun n => answer (n + 1)) (fun n => delivery (n + 1)) := by
  constructor
  · intro h
    refine ⟨h.feature 0 (by simp), fun n hn => h.feature (n + 1) (by simpa using hn), ?_⟩
    cases stop <;> exact h.stop
  · rintro ⟨hfirst, hrest⟩
    refine ⟨fun n hn => ?_, ?_⟩
    · cases n with
      | zero => exact hfirst
      | succ n => exact hrest.feature n (by simpa using hn)
    · cases stop <;> exact hrest.stop

end Session

/-! ## Harvests -/

namespace Source

variable {σ : Type u} {abort : Option AbortCheck} {step : σ → Feature → σ}

/-- A question that was answered with no is noted in front of the other calls. -/
theorem noteCheck_eq (abort : Option AbortCheck) (run : Run σ) :
    noteCheck abort run =
      { result := run.result, calls := Stop.goAhead abort.isSome ++ run.calls } := by
  unfold noteCheck Stop.goAhead
  split
  · rfl
  · rfl

/-- Nothing is read after the answer yes. -/
theorem harvestFrom_of_answer {ending : Delivery} {script : List Delivery} {asked : Nat}
    {state : σ} (h : answer abort asked = true) :
    harvestFrom abort step ending asked state script =
      { result := .error .aborted, calls := [.checked true] } := by
  have hyes : abort.any (· asked) = true := h
  unfold harvestFrom
  rw [if_pos hyes]

/-- After the answer no, a feature is folded and the harvest goes on. -/
theorem harvestFrom_feature {ending : Delivery} {script : List Delivery} {asked : Nat} {state : σ}
    (h : answer abort asked = false) (feature : Feature) :
    harvestFrom abort step ending asked state (.feature feature :: script) =
      noteCheck abort
        ((harvestFrom abort step ending (asked + 1) (step state feature) script).after
          (.read (.feature feature))) := by
  have hno : ¬ abort.any (· asked) = true := by simpa [answer] using h
  rw [harvestFrom, if_neg hno]

/-- After the answer no, a read that delivers no feature is the last one. -/
theorem harvestFrom_last {ending : Ending} {script : List Delivery} {asked : Nat} {state : σ}
    (h : answer abort asked = false)
    (hlast : ∀ feature, Reader.delivery ⟨script, ending⟩ 0 ≠ .feature feature) :
    harvestFrom abort step ending.delivery asked state script =
      noteCheck abort (lastRead state (Reader.delivery ⟨script, ending⟩ 0)) := by
  have hno : ¬ abort.any (· asked) = true := by simpa [answer] using h
  unfold harvestFrom
  rw [if_neg hno]
  cases script with
  | nil => rfl
  | cons delivery rest =>
    cases delivery with
    | feature feature => exact absurd rfl (hlast feature)
    | failure reason => rfl
    | exhausted => rfl

/-- Behind a script nothing delivers a feature. -/
theorem exists_of_delivery_zero {script : List Delivery} {ending : Ending} {feature : Feature}
    (h : Reader.delivery ⟨script, ending⟩ 0 = .feature feature) :
    ∃ rest, script = .feature feature :: rest := by
  cases script with
  | nil =>
    have hending : ending.delivery = .feature feature := h
    unfold Ending.delivery at hending
    split at hending
    · cases hending
    · cases hending
  | cons delivery rest => exact ⟨rest, by rw [← h]; rfl⟩

/-- A harvest makes the calls of the session that the answers and the reads lead to, and folds its
features. -/
theorem harvestFrom_of_isLedBy {ending : Ending} {script : List Delivery} {session : Session}
    {asked : Nat} {state : σ}
    (h : session.IsLedBy (fun n => answer abort (asked + n)) (Reader.delivery ⟨script, ending⟩)) :
    harvestFrom abort step ending.delivery asked state script =
      { result := session.stop.outcome (session.features.foldl step state)
        calls := session.innerCalls abort.isSome } := by
  obtain ⟨features, stop⟩ := session
  induction features generalizing script asked state with
  | nil =>
    cases stop with
    | aborted =>
      have hyes : answer abort asked = true := h.stop
      rw [harvestFrom_of_answer hyes]
      rfl
    | failed reason =>
      obtain ⟨hno, hread⟩ : answer abort asked = false ∧
        Reader.delivery ⟨script, ending⟩ 0 = .failure reason := h.stop
      rw [harvestFrom_last hno (by simp [hread]), hread, noteCheck_eq]
      rfl
    | exhausted =>
      obtain ⟨hno, hread⟩ : answer abort asked = false ∧
        Reader.delivery ⟨script, ending⟩ 0 = .exhausted := h.stop
      rw [harvestFrom_last hno (by simp [hread]), hread, noteCheck_eq]
      rfl
  | cons feature features ih =>
    obtain ⟨⟨hno, hread⟩, hrest⟩ := Session.isLedBy_cons.1 h
    obtain ⟨rest, rfl⟩ := exists_of_delivery_zero hread
    rw [Nat.add_zero] at hno
    have hshift : (fun n => answer abort (asked + (n + 1))) =
        fun n => answer abort (asked + 1 + n) := by
      funext n
      rw [Nat.add_comm n 1, Nat.add_assoc]
    rw [hshift] at hrest
    rw [harvestFrom_feature hno, ih hrest, noteCheck_eq]
    simp [Run.after, Session.innerCalls]

/-- Answers and reads lead to a session: a script has an end, and nothing behind it delivers a
feature. -/
theorem exists_isLedBy (script : List Delivery) (ending : Ending) (answer : Nat → Bool) :
    ∃ session : Session, session.IsLedBy answer (Reader.delivery ⟨script, ending⟩) := by
  induction script generalizing answer with
  | nil =>
    have hend : ∀ feature, Reader.delivery ⟨[], ending⟩ 0 ≠ .feature feature := by
      intro feature hread
      obtain ⟨rest, hscript⟩ := exists_of_delivery_zero hread
      cases hscript
    obtain ⟨stop, h⟩ := @Session.exists_isLedBy_nil answer _ (.inr hend)
    exact ⟨_, h⟩
  | cons delivery rest ih =>
    by_cases hstop : answer 0 = true ∨ ∀ feature, delivery ≠ .feature feature
    · obtain ⟨stop, h⟩ :=
        @Session.exists_isLedBy_nil answer (Reader.delivery ⟨delivery :: rest, ending⟩) hstop
      exact ⟨_, h⟩
    · simp only [not_or, Classical.not_forall, Classical.not_not, Bool.not_eq_true] at hstop
      obtain ⟨hno, feature, rfl⟩ := hstop
      obtain ⟨⟨features, stop⟩, h⟩ := ih fun n => answer (n + 1)
      exact ⟨⟨feature :: features, stop⟩, Session.isLedBy_cons.2 ⟨⟨hno, rfl⟩, h⟩⟩

/-- A harvest of a source that can be opened consists of the session. -/
theorem harvest_of_isLedBy {source : Source} {reader : Reader}
    (hopen : Reader.ofSource source = .ok reader) {session : Session}
    (h : session.IsLedBy (answer abort) reader.delivery) (init : σ) :
    source.harvest abort step init =
      session.run abort.isSome (session.features.foldl step init) := by
  unfold Reader.ofSource at hopen
  unfold harvest
  split at hopen
  · cases hopen
  · cases hopen
    have hrun := @harvestFrom_of_isLedBy _ abort step _ _ session 0 init (by simpa using h)
    simp only [hrun]
    rfl

/-- Of a source that cannot be opened nothing is read. -/
theorem harvest_of_error {source : Source} {error : SourceError}
    (hopen : Reader.ofSource source = .error error) (init : σ) :
    source.harvest abort step init =
      { result := .error (.source error), calls := [.refused] } := by
  unfold Reader.ofSource at hopen
  unfold harvest
  split at hopen
  · cases hopen
    rfl
  · cases hopen

end Source

/-! ## Renderings -/

/-- An encoding keeps to the protocol of sources: of one that cannot be opened, the failure is all
that is seen, and with any other one a session is held that the answers and the reads lead to. It
ends with the document of the features, with the failure of a read or with the answer yes. Every
other source that leads to this session is seen in the same way, whatever it would have delivered
later. -/
def KeepsProtocol {α : Type u} (encode : Option AbortCheck → Source → Run α)
    (document : List Feature → α) : Prop :=
  ∀ abort source,
    match Reader.ofSource source with
    | .error error =>
      encode abort source = { result := .error (.source error), calls := [.refused] }
    | .ok reader =>
      ∃ session : Session, session.IsLedBy (answer abort) reader.delivery ∧
        encode abort source = session.run abort.isSome (document session.features) ∧
        ∀ abort' source' reader', abort'.isSome = abort.isSome →
          Reader.ofSource source' = .ok reader' →
          session.IsLedBy (answer abort') reader'.delivery →
          encode abort' source' = encode abort source

/-- A harvest that is completed to the document of its features keeps to the protocol. -/
theorem keepsProtocol_harvest {σ : Type u} {α : Type v} {step : σ → Feature → σ} {init : σ}
    {finish : σ → Except RenderError α} {document : List Feature → α}
    (h : ∀ features, finish (features.foldl step init) = .ok (document features)) :
    KeepsProtocol (fun abort source => (source.harvest abort step init).andThen finish)
      document := by
  have hrun : ∀ {abort source reader} {session : Session}, Reader.ofSource source = .ok reader →
      session.IsLedBy (answer abort) reader.delivery →
      (source.harvest abort step init).andThen finish =
        session.run abort.isSome (document session.features) := by
    intro abort source reader session hopen hled
    rw [Source.harvest_of_isLedBy hopen hled]
    obtain ⟨features, stop⟩ := session
    cases stop with
    | aborted => rfl
    | failed reason => rfl
    | exhausted => simp [Run.andThen, Session.run, Stop.outcome, h]
  intro abort source
  cases hopen : Reader.ofSource source with
  | error error =>
    simp only [Source.harvest_of_error hopen]
    rfl
  | ok reader =>
    obtain ⟨session, hled⟩ :=
      Source.exists_isLedBy reader.script reader.ending (answer abort)
    refine ⟨session, hled, hrun hopen hled, fun abort' source' reader' hasks hopen' hled' => ?_⟩
    show (source'.harvest abort' step init).andThen finish =
      (source.harvest abort step init).andThen finish
    rw [hrun hopen hled, hrun hopen' hled', hasks]

end Cartouche
