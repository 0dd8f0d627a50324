import Cartouche.Proofs.Feature.Harvest
import Cartouche.Proofs.Kml.Placemark

/-!
# Placemark documents as a whole

A document is faithful (`Encoder.IsFaithful`) when it is well-formed, has one placemark for each
feature that is not reported, the one that the feature has by itself, and nothing at all of the
features that are reported. It is so as long as no feature breaks off (`isFaithful_document`), and
never otherwise: the elements that a placemark leaves open are never closed, and what follows stands
inside them (`nestingAll_features`), so the document cannot be read (`read?_document_of_breaksOff`).
-/

namespace Cartouche.Kml.Encoder

open Markup (IsForest IsSound isTag_nil nestingAll)

variable (encoder : Encoder)

/-! ## The document -/

/-- What a document records about a feature. -/
def ownDiagnostics (feature : Feature) : List Diagnostic :=
  (encoder.placemark feature).diagnostics ++
    (encoder.placemark feature).failure.toList.map fun error =>
      { featureId := feature.id, skipped := .geometry error }

/-- A diagnostic about the geometry of the feature is recorded. -/
def isReported (feature : Feature) : Bool := (encoder.ownDiagnostics feature).any isGeometryStage

/-- The document of features. -/
def document (features : List Feature) : Document where
  markup := Markup.render encoder.context.verbose
    (encoder.opening ++ (features.flatMap fun feature => (encoder.placemark feature).events) ++
      closing)
  diagnostics := features.flatMap encoder.ownDiagnostics

/-- A feature is reported when its placemark fails. -/
theorem isReported_iff (feature : Feature) :
    encoder.isReported feature ↔ (encoder.placemark feature).failure ≠ none := by
  have hlabels : (encoder.placemark feature).diagnostics.any isGeometryStage = false := by
    rw [List.any_eq_false]
    intro d hd
    simp [encoder.not_isGeometryStage_of_mem hd]
  unfold isReported ownDiagnostics
  rw [List.any_append, hlabels, Bool.false_or]
  cases (encoder.placemark feature).failure with
  | none => simp
  | some error => simp [isGeometryStage, Skipped.stage]

/-- Features are added one after the other: each writes its placemark, as far as it gets, and adds
what is recorded about it. -/
theorem foldl_add (progress : Progress) (features : List Feature) :
    features.foldl encoder.add progress =
      { writer := progress.writer.writeAll
          (features.flatMap fun feature => (encoder.placemark feature).events)
        diagnostics := progress.diagnostics ++ features.flatMap encoder.ownDiagnostics } := by
  induction features generalizing progress with
  | nil => simp
  | cons feature rest ih =>
    rw [List.foldl_cons, ih]
    simp [add, ownDiagnostics, Writer.writeAll_append]

/-- What features are folded to is completed to their document. -/
theorem finish_foldl_add (features : List Feature) :
    ((features.foldl encoder.add
      { writer := (Writer.new encoder.context.verbose).writeAll encoder.opening
        diagnostics := [] }).writer.writeAll closing).finish =
      .ok (encoder.document features).markup := by
  rw [foldl_add, document, ← Writer.finish_writeAll, Writer.writeAll_append,
    Writer.writeAll_append]

/-- What a harvest gives is completed to the document of the features. -/
theorem result_andThen {run : Run Progress} {features : List Feature}
    (h : run.result = .ok (features.foldl encoder.add
      { writer := (Writer.new encoder.context.verbose).writeAll encoder.opening
        diagnostics := [] })) :
    (run.andThen fun progress => do
      let writer := progress.writer.writeAll closing
      return {
        markup := ← writer.finish.mapError (.encode ∘ .write)
        diagnostics := progress.diagnostics }).result = .ok (encoder.document features) := by
  simp only [Run.andThen, h, finish_foldl_add, bind, Except.bind, pure, Except.pure]
  rw [foldl_add]
  rfl

/-- A document that was encoded is that of the features of the source. -/
theorem eq_of_encode {source : Source} {document : Document}
    (h : (encoder.encode source).result = .ok document) :
    document = encoder.document source.features := by
  unfold encode at h
  cases hrun : (source.harvest encoder.abort encoder.add
      { writer := (Writer.new encoder.context.verbose).writeAll encoder.opening
        diagnostics := [] }).result with
  | error error =>
    simp only [Run.andThen, hrun] at h
    cases h
  | ok progress =>
    rw [Source.eq_of_harvest hrun] at hrun
    rw [encoder.result_andThen hrun] at h
    cases h
    rfl

/-- Features from memory are always encoded. -/
theorem encode_ofFeatures (habort : encoder.abort = none) (features : List Feature) :
    (encoder.encode (.ofFeatures features)).result = .ok (encoder.document features) := by
  unfold encode
  rw [habort]
  exact encoder.result_andThen (Source.harvest_ofFeatures features _)

/-! ## Nesting -/

/-- A feature that does not break off leaves the open elements as they are. -/
theorem nestingAll_of_not_breaksOff (names : List String) {feature : Feature}
    (h : ¬ BreaksOff feature) :
    nestingAll names (encoder.placemark feature).events = some names := by
  by_cases hfin : feature.geometry.isFinite
  · obtain ⟨-, -, members, hevents⟩ := encoder.exists_tree hfin h
    rw [hevents, Markup.nestingAll_tree]
  · rw [encoder.placemark_of_not_isFinite hfin]
    rfl

/-- A feature that breaks off leaves two more elements open. -/
theorem nestingAll_of_breaksOff (names : List String) {feature : Feature} (h : BreaksOff feature) :
    nestingAll names (encoder.placemark feature).events =
      some ("MultiGeometry" :: "Placemark" :: names) := by
  obtain ⟨⟨trees, htrees⟩, -⟩ := encoder.isForest_front feature
  rw [(encoder.placemark_of_breaksOff h).2, List.cons_append, Markup.nestingAll_cons, ← htrees]
  simp [Markup.nesting, Markup.nestingAll_append, Markup.nestingAll_trees]

/-- Behind features, the innermost element is one that should have ended, unless no feature breaks
off. -/
theorem nestingAll_features (names : List String) (features : List Feature) :
    ∃ inner, nestingAll names
        (features.flatMap fun feature => (encoder.placemark feature).events) =
          some (inner ++ names) ∧
      ((inner = [] ∧ ∀ feature ∈ features, ¬ BreaksOff feature) ∨
        (inner.head? = some "MultiGeometry" ∧ ∃ feature ∈ features, BreaksOff feature)) := by
  induction features generalizing names with
  | nil => exact ⟨[], rfl, .inl ⟨rfl, by simp⟩⟩
  | cons feature rest ih =>
    rw [List.flatMap_cons, Markup.nestingAll_append]
    by_cases h : BreaksOff feature
    · obtain ⟨inner, hrest, hinner⟩ := ih ("MultiGeometry" :: "Placemark" :: names)
      rw [encoder.nestingAll_of_breaksOff names h, Option.bind_some, hrest]
      refine ⟨inner ++ ["MultiGeometry", "Placemark"], by simp, .inr ⟨?_, feature, by simp, h⟩⟩
      rcases hinner with ⟨rfl, -⟩ | ⟨hhead, -⟩
      · rfl
      · rw [List.head?_append, hhead]
        rfl
    · obtain ⟨inner, hrest, hinner⟩ := ih names
      rw [encoder.nestingAll_of_not_breaksOff names h, Option.bind_some, hrest]
      refine ⟨inner, rfl, ?_⟩
      rcases hinner with ⟨rfl, hnone⟩ | ⟨hhead, other, hmem, hother⟩
      · refine .inl ⟨rfl, fun other hmem => ?_⟩
        rcases List.mem_cons.1 hmem with rfl | hmem
        · exact h
        · exact hnone other hmem
      · exact .inr ⟨hhead, other, by simp [hmem], hother⟩

/-! ## Trees -/

/-- The name of a document as trees. -/
def nameTrees : List Markup.Tree :=
  if encoder.style.name.isEmpty then [] else [.text "name" [] encoder.style.name]

/-- A document of placemarks as a tree. -/
def documentTree (placemarks : List Markup.Tree) : Markup.Tree :=
  .element "kml" [("xmlns", kmlNamespace)]
    [.element "Document" [] (encoder.nameTrees ++ placemarks)]

/-- The events of a document behind its declaration. -/
def content (features : List Feature) : List Event :=
  .startTag "kml" [("xmlns", kmlNamespace)] :: .startTag "Document" [] ::
    Markup.Tree.allEvents encoder.nameTrees ++
    (features.flatMap fun feature => (encoder.placemark feature).events) ++ closing

/-- A document is the declaration and its content, written at once. -/
theorem markup_document (features : List Feature) :
    (encoder.document features).markup =
      Markup.render encoder.context.verbose (.declaration :: encoder.content features) := by
  have hname : (if encoder.style.name.isEmpty then [] else textElement "name" encoder.style.name) =
      Markup.Tree.allEvents encoder.nameTrees := by
    unfold nameTrees
    split
    · rfl
    · simp [textElement]
  simp only [document, opening, content, hname]
  rfl

/-- The name of a document can be read, whatever it is. -/
theorem isForest_nameTrees : IsForest (Markup.Tree.allEvents encoder.nameTrees) := by
  unfold nameTrees
  split
  · exact .nil
  · simp only [Markup.Tree.allEvents_cons, Markup.Tree.allEvents_nil, List.append_nil,
      Markup.Tree.events_text]
    exact isForest_textElement (by decide) encoder.style.name

/-- Every tag and every text that is written of a feature can be read by itself, also when the
elements do not fit together. -/
theorem isSound_placemark (feature : Feature) :
    ∀ e ∈ (encoder.placemark feature).events, IsSound e := by
  by_cases hfin : feature.geometry.isFinite
  · by_cases h : BreaksOff feature
    · rw [(encoder.placemark_of_breaksOff h).2, List.cons_append, List.forall_mem_cons,
        List.forall_mem_append, List.forall_mem_singleton]
      exact ⟨isTag_id feature.id (by decide), (encoder.isForest_front feature).2,
        isTag_nil.2 (by decide)⟩
    · exact (encoder.exists_tree hfin h).2.1.2
  · rw [encoder.placemark_of_not_isFinite hfin]
    simp

/-- The outermost tag is proper, with the namespace as its only attribute. -/
theorem isTag_kml : Markup.IsTag "kml" [("xmlns", kmlNamespace)] :=
  ⟨by decide, by simp; decide, by simp⟩

/-- The names in a document are names, also behind a feature that breaks off. -/
theorem isSound_content (features : List Feature) :
    ∀ e ∈ encoder.content features, IsSound e := by
  have hfeatures : ∀ e ∈ features.flatMap fun feature => (encoder.placemark feature).events,
      IsSound e := by
    intro e he
    obtain ⟨feature, -, he⟩ := List.mem_flatMap.1 he
    exact encoder.isSound_placemark feature e he
  have hend : ∀ name ∈ ["Document", "kml"], Markup.isName name.toList := by decide
  simp only [content, closing, List.cons_append, List.forall_mem_cons, List.forall_mem_append]
  exact ⟨isTag_kml, isTag_nil.2 (by decide), ⟨encoder.isForest_nameTrees.2, hfeatures⟩,
    hend "Document" (by simp), hend "kml" (by simp), by simp⟩

/-- A document in which a feature breaks off cannot be read. -/
theorem read?_document_of_breaksOff {features : List Feature}
    (h : ∃ feature ∈ features, BreaksOff feature) :
    Markup.read? (encoder.document features).markup = none := by
  rw [markup_document]
  refine Markup.read?_eq_none _ (encoder.isSound_content features) ?_
  obtain ⟨inner, hnesting, hinner⟩ := encoder.nestingAll_features ["Document", "kml"] features
  rcases hinner with ⟨-, hnone⟩ | ⟨hhead, -⟩
  · obtain ⟨feature, hmem, hbreak⟩ := h
    exact absurd hbreak (hnone feature hmem)
  · obtain ⟨outer, rfl⟩ := List.head?_eq_some_iff.1 hhead
    simp [content, closing, Markup.nesting, Markup.nestingAll_append, Markup.nestingAll_trees,
      hnesting]

/-- When no feature breaks off, nothing is written of those that are reported. -/
theorem events_eq_nil_of_isReported {feature : Feature} (h : ¬ BreaksOff feature)
    (hreported : encoder.isReported feature) : (encoder.placemark feature).events = [] := by
  by_cases hfin : feature.geometry.isFinite
  · rw [isReported_iff, ne_eq, failure_eq_none_iff] at hreported
    exact absurd ⟨hfin, h⟩ hreported
  · rw [encoder.placemark_of_not_isFinite hfin]

/-- A document whose placemarks are trees is a tree. -/
theorem content_of_allEvents {features : List Feature} {trees : List Markup.Tree}
    (h : Markup.Tree.allEvents trees =
      features.flatMap fun feature => (encoder.placemark feature).events) :
    encoder.content features = (encoder.documentTree trees).events := by
  simp [content, closing, documentTree, Markup.Tree.allEvents_append, Event.element, ← h]

/-- When no feature breaks off, a document consists of the trees of the features that are not
reported. -/
theorem content_eq_events {features : List Feature}
    (h : ∀ feature ∈ features, ¬ BreaksOff feature) {placemark : Feature → Markup.Tree}
    (hplacemark : ∀ feature ∈ features, encoder.isReported feature = false →
      (encoder.placemark feature).events = (placemark feature).events) :
    encoder.content features = (encoder.documentTree
      ((features.filter fun feature => !encoder.isReported feature).map placemark)).events := by
  have hfeatures : (features.flatMap fun feature => (encoder.placemark feature).events) =
      Markup.Tree.allEvents
        ((features.filter fun feature => !encoder.isReported feature).map placemark) := by
    induction features with
    | nil => rfl
    | cons feature rest ih =>
      have hrest := ih (fun other hmem => h other (by simp [hmem]))
        fun other hmem => hplacemark other (by simp [hmem])
      rw [List.flatMap_cons, List.filter_cons, hrest]
      cases hreported : encoder.isReported feature with
      | true => simp [encoder.events_eq_nil_of_isReported (h feature (by simp)) hreported]
      | false => simp [hplacemark feature (by simp) hreported]
  exact encoder.content_of_allEvents hfeatures.symm

/-! ## Faithful documents -/

/-- The document is well-formed, with one placemark for each feature that is not reported, in their
order and with the tree that the feature has by itself; and reported features leave the writer as it
is. -/
structure IsFaithful (features : List Feature) (document : Document) : Prop where
  reads : ∃ placemark : Feature → Markup.Tree,
    Markup.read? document.markup =
      some (Markup.breaks (Markup.margin encoder.context.verbose) ++
        [(encoder.documentTree ((features.filter fun feature => !encoder.isReported feature).map
          placemark)).node (Markup.margin encoder.context.verbose)]) ∧
    ∀ feature ∈ features, encoder.isReported feature = false →
      (∃ members, placemark feature = .element "Placemark" [("id", feature.id)] members) ∧
      ∃ alone, encoder.encodeFeature feature = .ok alone ∧
        Markup.read? alone.markup =
          some [(placemark feature).node (Markup.margin encoder.context.verbose)]
  untouched : ∀ feature ∈ features, encoder.isReported feature →
    ∀ progress, (encoder.add progress feature).writer = progress.writer

/-- A feature that does not break off and is not reported has a placemark of its own. -/
theorem exists_placemark (feature : Feature) : ∃ members,
    encoder.isReported feature = false →
      (encoder.placemark feature).events =
        (Markup.Tree.element "Placemark" [("id", feature.id)] members).events ∧
      ∃ alone, encoder.encodeFeature feature = .ok alone ∧
        Markup.read? alone.markup =
          some [(Markup.Tree.element "Placemark" [("id", feature.id)] members).node
            (Markup.margin encoder.context.verbose)] := by
  by_cases hreported : encoder.isReported feature
  · exact ⟨[], fun h => absurd hreported (by simp [h])⟩
  · have hnone : (encoder.placemark feature).failure = none := by
      rw [isReported_iff] at hreported
      exact Classical.not_not.1 hreported
    obtain ⟨hfin, h⟩ := (encoder.failure_eq_none_iff feature).1 hnone
    obtain ⟨-, hforest, members, hevents⟩ := encoder.exists_tree hfin h
    refine ⟨members, fun _ => ⟨hevents, ?_⟩⟩
    refine ⟨{
      markup := Markup.render encoder.context.verbose (encoder.placemark feature).events
      diagnostics := (encoder.placemark feature).diagnostics }, ?_, ?_⟩
    · rw [encodeFeature_eq, hnone]
    · rw [hevents] at hforest ⊢
      exact Markup.read?_fragment _ hforest.2

/-- A document in which no feature breaks off is faithful. -/
theorem isFaithful_document {features : List Feature}
    (h : ∀ feature ∈ features, ¬ BreaksOff feature) :
    encoder.IsFaithful features (encoder.document features) := by
  obtain ⟨members, hmembers⟩ := Classical.axiomOfChoice encoder.exists_placemark
  let placemark : Feature → Markup.Tree := fun feature =>
    .element "Placemark" [("id", feature.id)] (members feature)
  have hplacemark : ∀ feature ∈ features, encoder.isReported feature = false →
      (encoder.placemark feature).events = (placemark feature).events :=
    fun feature _ hreported => (hmembers feature hreported).1
  have hcontent := encoder.content_eq_events h hplacemark
  refine ⟨⟨placemark, ?_, fun feature _ hreported =>
    ⟨⟨members feature, rfl⟩, (hmembers feature hreported).2⟩⟩, ?_⟩
  · have hsound := encoder.isSound_content features
    rw [hcontent] at hsound
    rw [markup_document, hcontent]
    exact Markup.read?_document _ hsound
  · intro feature hmem hreported progress
    simp [add, encoder.events_eq_nil_of_isReported (h feature hmem) hreported]

/-- A document that was encoded is faithful, and can be read at all, exactly when no feature of the
source breaks off. In any case all diagnostics of the features are recorded, in their order. -/
theorem isFaithful_iff {source : Source} {document : Document}
    (h : (encoder.encode source).result = .ok document) :
    document.diagnostics = source.features.flatMap encoder.ownDiagnostics ∧
      (encoder.IsFaithful source.features document ↔
        ∀ feature ∈ source.features, ¬ BreaksOff feature) ∧
      ((Markup.read? document.markup).isSome ↔
        ∀ feature ∈ source.features, ¬ BreaksOff feature) := by
  obtain rfl := encoder.eq_of_encode h
  by_cases hbreak : ∀ feature ∈ source.features, ¬ BreaksOff feature
  · have hfaithful := encoder.isFaithful_document hbreak
    obtain ⟨_, hread, -⟩ := hfaithful.reads
    refine ⟨rfl, iff_of_true hfaithful hbreak, iff_of_true ?_ hbreak⟩
    rw [hread]
    rfl
  · have hread : Markup.read? (encoder.document source.features).markup = none := by
      refine encoder.read?_document_of_breaksOff ?_
      simpa using hbreak
    refine ⟨rfl, iff_of_false (fun hfaithful => ?_) hbreak, iff_of_false ?_ hbreak⟩
    · obtain ⟨_, hsome, -⟩ := hfaithful.reads
      rw [hread] at hsome
      cases hsome
    · simp [hread]

/-- A point, and a feature whose geometry is not finite. -/
def near : List Feature :=
  [{ id := "a", geometry := .point { x := 1.5, y := -2.0 } },
    { id := "b", geometry := .lineString { points := [{ x := 0.0 / 0.0, y := 0.0 }] } }]

/-- A feature whose geometry is not finite is left out and reported, and the document is faithful
and can be read. -/
theorem isFaithful_iff_near : ∃ document,
    (encode { context := {} } (.ofFeatures near)).result = .ok document ∧
      IsFaithful { context := {} } near document ∧ (Markup.read? document.markup).isSome := by
  have hok := encode_ofFeatures { context := {} } rfl near
  have hnear : ∀ feature ∈ (Source.ofFeatures near).features, ¬ BreaksOff feature := by
    have hfinite : ¬ (Geometry.lineString { points := [{ x := 0.0 / 0.0, y := 0.0 }] } :
        Geometry Float).isFinite := by
      decide +kernel
    rintro feature hmem ⟨hfin, hne, -⟩
    rw [Source.features_ofFeatures] at hmem
    rcases List.mem_cons.1 hmem with rfl | hmem
    · exact hne _ rfl
    · obtain rfl := List.mem_singleton.1 hmem
      exact hfinite hfin
  obtain ⟨-, hfaithful, hread⟩ := isFaithful_iff _ hok
  exact ⟨_, hok, hfaithful.2 hnear, hread.2 hnear⟩

/-- A feature with a center that is too far away to be a double. -/
def far : Feature where
  id := "a"
  geometry := .multiPoint [{ x := 1e308, y := 0.0 }, { x := 1e308, y := 0.0 }]

/-- Two finite points whose sum is not finite: a center is found, and it is infinite. -/
theorem breaksOff_far : BreaksOff far := by
  have hcenter : far.geometry.centroid?.any (fun center => !center.isFinite) := by
    decide +kernel
  refine ⟨by decide +kernel, by simp [far], ?_⟩
  cases hc : far.geometry.centroid? with
  | none => simp [hc] at hcenter
  | some center => exact ⟨center, rfl, by simpa [hc] using hcenter⟩

/-- Not every document is faithful: that of `far` is not well-formed, and the feature is reported
although the writer is not as it was before. -/
theorem not_isFaithful_far : ∃ document,
    (encode { context := {} } (.ofFeatures [far])).result = .ok document ∧
      document.diagnostics =
        [{ featureId := "a", skipped := .geometry .nonFiniteCoordinate }] ∧
      Markup.read? document.markup = none ∧ ¬ IsFaithful { context := {} } [far] document := by
  let encoder : Encoder := { context := {} }
  have hread :=
    encoder.read?_document_of_breaksOff ⟨far, List.mem_singleton_self far, breaksOff_far⟩
  refine ⟨encoder.document [far], encoder.encode_ofFeatures rfl [far], ?_, hread, fun h => ?_⟩
  · decide +kernel
  · obtain ⟨_, hsome, -⟩ := h.reads
    rw [hread] at hsome
    cases hsome

end Cartouche.Kml.Encoder
