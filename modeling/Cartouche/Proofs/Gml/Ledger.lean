import Cartouche.Proofs.Gml.Collection

/-!
# Nothing is lost without a report

A feature consists of parts: its attributes that have a value, and its geometry. A part is written
when it can be, and reported otherwise. So what is written of a feature are its writable parts in
order, and what is reported are the others in order (`member_eq`); as no part occurs twice, each is
accounted for once. A feature has its own place among the members and its own place among the
diagnostics, so when it is replaced by another one, the documents differ there and in the header
only (`exists_document_insert`).
-/

namespace Cartouche.Gml

/-! ## Parts -/

/-- What is to be written of a feature: an attribute or the geometry. -/
inductive Part where
  | attribute (name : String) (value : AttributeValue)
  | geometry (geometry : Geometry Float)

namespace Part

/-- The part can be written. -/
def isWritable : Part → Bool
  | .attribute name _ => isLocalName name
  | .geometry g => g.isFinite

/-- Why the part cannot be written. -/
def obstacle : Part → Skipped
  | .attribute name _ => .attribute (.invalidName name)
  | .geometry _ => .geometry .nonFiniteCoordinate

/-- The part as events, if it can be written. -/
def events (encoder : Encoder) : Part → List Event
  | .attribute name value =>
    Event.textElement (encoder.featureType.qualified name) [] value.display
  | .geometry g =>
    Event.element (encoder.featureType.qualified encoder.featureType.geometryName) []
      (encoder.geometryEncoder.events g)

end Part

/-- Attributes as parts; those without a value are none. -/
def attributeParts (entries : List (String × AttributeValue)) : List Part :=
  (entries.filter fun (_, value) => !value.isNull).map fun (name, value) => .attribute name value

/-- The parts of a feature: its attributes in the order of their names, and its geometry. -/
def parts (feature : Feature) : List Part :=
  attributeParts feature.attributes.entries ++ [.geometry feature.geometry]

/-- An attribute is a part when it has a value. -/
theorem mem_attributeParts {entries : List (String × AttributeValue)} {part : Part} :
    part ∈ attributeParts entries ↔
      ∃ name value, (name, value) ∈ entries ∧ value.isNull = false ∧
        part = .attribute name value := by
  constructor
  · intro h
    obtain ⟨⟨name, value⟩, hmem, rfl⟩ := List.mem_map.1 h
    obtain ⟨hentry, hvalue⟩ := List.mem_filter.1 hmem
    exact ⟨name, value, hentry, by simpa using hvalue, rfl⟩
  · rintro ⟨name, value, hentry, hvalue, rfl⟩
    exact List.mem_map.2 ⟨(name, value), List.mem_filter.2 ⟨hentry, by simp [hvalue]⟩, rfl⟩

/-- Names in ascending order do not occur twice. -/
theorem nodup_attributeParts {entries : List (String × AttributeValue)}
    (h : entries.Pairwise fun a b => a.1 < b.1) : (attributeParts entries).Nodup := by
  refine List.pairwise_map.2 ((h.filter _).imp ?_)
  rintro ⟨name, value⟩ ⟨other, value'⟩ hlt heq
  cases heq
  exact String.lt_irrefl _ hlt

/-- No part of a feature occurs twice. -/
theorem nodup_parts (feature : Feature) : (parts feature).Nodup := by
  refine List.nodup_append.2
    ⟨nodup_attributeParts feature.attributes.ordered, List.pairwise_singleton _ _, ?_⟩
  intro part hpart other hother heq
  obtain ⟨name, value, -, -, rfl⟩ := mem_attributeParts.1 hpart
  rw [List.mem_singleton, ← heq] at hother
  cases hother

/-- The parts of a feature that are written. -/
def writtenParts (feature : Feature) : List Part := (parts feature).filter Part.isWritable

/-- The parts of a feature that are reported. -/
def reportedParts (feature : Feature) : List Part := (parts feature).filter (!·.isWritable)

/-- The report on a part of a feature. -/
def report (feature : Feature) (part : Part) : Diagnostic where
  featureId := feature.id
  skipped := part.obstacle

namespace Encoder

variable (encoder : Encoder)

/-! ## Members -/

/-- Attributes are written or reported one by one. -/
theorem attributeElements_eq (featureId : String) (entries : List (String × AttributeValue)) :
    (entries.flatMap fun (name, value) => (encoder.attributeElement featureId name value).1) =
        ((attributeParts entries).filter Part.isWritable).flatMap (Part.events encoder) ∧
      (entries.flatMap fun (name, value) => (encoder.attributeElement featureId name value).2) =
        ((attributeParts entries).filter (!·.isWritable)).map fun part =>
          { featureId, skipped := part.obstacle } := by
  induction entries with
  | nil => exact ⟨rfl, rfl⟩
  | cons entry rest ih =>
    obtain ⟨name, value⟩ := entry
    obtain ⟨hevents, hdiagnostics⟩ := ih
    rw [List.flatMap_cons, List.flatMap_cons, hevents, hdiagnostics]
    unfold attributeParts attributeElement
    by_cases hnull : value.isNull
    · simp [hnull]
    · by_cases hname : isLocalName name
      · simp [hnull, hname, Part.isWritable, Part.events]
      · simp [hnull, hname, Part.isWritable, Part.obstacle]

/-- What is written of a feature are its writable parts, and what is reported are the others. -/
theorem member_eq (feature : Feature) :
    encoder.member feature =
      (Event.element memberTag []
        (Event.element (encoder.featureType.qualified encoder.featureType.typeName)
          [("fid", feature.id)] ((writtenParts feature).flatMap (Part.events encoder))),
        (reportedParts feature).map (report feature)) := by
  obtain ⟨hevents, hdiagnostics⟩ :=
    encoder.attributeElements_eq feature.id feature.attributes.entries
  have hgeometry : encoder.geometryProperty feature =
      ([Part.geometry feature.geometry].filter Part.isWritable |>.flatMap (Part.events encoder),
        [Part.geometry feature.geometry].filter (!·.isWritable) |>.map (report feature)) := by
    unfold geometryProperty GeometryEncoder.validate
    by_cases hfinite : feature.geometry.isFinite
    · simp [hfinite, Part.isWritable, Part.events]
    · simp [hfinite, Part.isWritable, report, Part.obstacle]
  unfold member
  simp only [List.flatMap_map, hevents, hdiagnostics, hgeometry]
  unfold writtenParts reportedParts parts
  rw [List.filter_append, List.filter_append, List.flatMap_append, List.map_append]
  rfl

/-! ## Documents -/

/-- A member is a tree of its own, so the next one begins a line like the one before. -/
theorem afterAll_member (feature : Feature) :
    encoder.openingSpacing.afterAll (encoder.member feature).1 = encoder.openingSpacing := by
  rw [← events_memberTree, Markup.Spacing.afterAll_tree]
  rfl

/-- The text of a member with the line break in front of it. -/
def memberText (feature : Feature) : String :=
  encoder.openingSpacing.text (encoder.member feature).1

/-- The text of the end of a document. -/
def closingText : String := encoder.openingSpacing.text [.endTag collectionTag]

/-- The members stand one after the other, each with the same text wherever it stands. -/
theorem text_body (features : List Feature) :
    encoder.openingSpacing.text (encoder.body features) =
      String.join (features.map encoder.memberText) ++ encoder.closingText := by
  induction features with
  | nil => simp [body, closingText]
  | cons feature rest ih =>
    have hbody : encoder.body (feature :: rest) =
        (encoder.member feature).1 ++ encoder.body rest := by
      simp [body]
    rw [hbody, Markup.Spacing.text_append, afterAll_member, ih, List.map_cons, String.join_cons,
      String.append_assoc]
    rfl

end Encoder

/-! ## The ledger of a feature -/

/-- A coordinate is not finite, an elevation being one. -/
def HasNonFinite (g : Geometry Float) : Prop :=
  ∃ p ∈ g.points, ¬ p.x.isFinite ∨ ¬ p.y.isFinite ∨ ∃ z, p.z = some z ∧ ¬ z.isFinite

/-- A point is finite when its two coordinates are, and its elevation if it has one. -/
theorem isFinite_of_coordinates {p : Point Float} (hx : p.x.isFinite) (hy : p.y.isFinite)
    (hz : p.z.all Scalar.isFinite) : p.isFinite := by
  simp only [Point.isFinite, Bool.and_eq_true]
  exact ⟨⟨hx, hy⟩, hz⟩

/-- A geometry has a coordinate that is not finite exactly when it does not pass the check of the
encoder. -/
theorem hasNonFinite_iff {g : Geometry Float} : HasNonFinite g ↔ g.isFinite = false := by
  rw [← Bool.not_eq_true, Geometry.isFinite_iff]
  constructor
  · rintro ⟨p, hp, hcoordinate⟩ hfinite
    have hpoint := hfinite p hp
    simp only [Point.isFinite, Bool.and_eq_true] at hpoint
    obtain ⟨⟨hx, hy⟩, hz⟩ := hpoint
    rcases hcoordinate with h | h | ⟨z, hsome, h⟩
    · exact h hx
    · exact h hy
    · rw [hsome] at hz
      exact h hz
  · intro h
    obtain ⟨p, hp, hpoint⟩ : ∃ p ∈ g.points, ¬ p.isFinite := by simpa using h
    refine ⟨p, hp, ?_⟩
    by_cases hx : p.x.isFinite
    · by_cases hy : p.y.isFinite
      · refine .inr (.inr ?_)
        cases hsome : p.z with
        | none => exact absurd (isFinite_of_coordinates hx hy (by simp [hsome])) hpoint
        | some z =>
          refine ⟨z, rfl, fun hz => hpoint (isFinite_of_coordinates hx hy ?_)⟩
          rw [hsome]
          exact hz
      · exact .inr (.inl hy)
    · exact .inl hx

/-- The names of the attributes that have a value, but cannot be elements. -/
def unnamable (feature : Feature) : List String :=
  (feature.attributes.entries.filter fun (name, value) => !value.isNull && !isLocalName name).map
    Prod.fst

/-- Attributes that cannot be elements are named in the order of their names, and so once each. -/
theorem ascending_unnamable (feature : Feature) : (unnamable feature).Pairwise (· < ·) :=
  List.pairwise_map.2 (feature.attributes.ordered.filter _)

/-- What is reported of a feature: its unnamable attributes and a geometry that is not finite. -/
def reports (feature : Feature) : List Diagnostic :=
  (unnamable feature).map (fun name =>
      { featureId := feature.id, skipped := .attribute (.invalidName name) }) ++
    if feature.geometry.isFinite then []
    else [{ featureId := feature.id, skipped := .geometry .nonFiniteCoordinate }]

/-- The reports on the parts that are not written are those that are listed. -/
theorem map_report (feature : Feature) :
    (reportedParts feature).map (report feature) = reports feature := by
  have hattributes : ∀ entries : List (String × AttributeValue),
      ((attributeParts entries).filter (!·.isWritable)).map (report feature) =
        ((entries.filter fun (name, value) => !value.isNull && !isLocalName name).map
          Prod.fst).map fun name =>
            { featureId := feature.id, skipped := .attribute (.invalidName name) } := by
    intro entries
    induction entries with
    | nil => rfl
    | cons entry rest ih =>
      obtain ⟨name, value⟩ := entry
      unfold attributeParts at ih ⊢
      by_cases hnull : value.isNull
      · simpa [hnull] using ih
      · by_cases hname : isLocalName name
        · simpa [hnull, hname, Part.isWritable] using ih
        · simpa [hnull, hname, Part.isWritable, report, Part.obstacle] using ih
  unfold reportedParts parts reports unnamable
  rw [List.filter_append, List.map_append, hattributes]
  by_cases hfinite : feature.geometry.isFinite
  · simp [hfinite, Part.isWritable]
  · simp [hfinite, Part.isWritable, report, Part.obstacle]

/-- What is said in the reports on a feature. -/
theorem texts_reports (feature : Feature) :
    (reports feature).map (fun d => (d.featureId, d.skipped.stage, d.skipped.message)) =
      (unnamable feature).map (fun name =>
          (feature.id, "Attribute", "'" ++ name ++ "' is not a valid element name")) ++
        if feature.geometry.isFinite then []
        else [(feature.id, "Geometry", "geometry contains a non-finite coordinate")] := by
  unfold reports
  rw [List.map_append, List.map_map]
  split
  · rfl
  · rfl

/-- The ledger of a feature balances: every attribute with a value and the geometry is one part,
which is either written, as events that stand in the member once, or reported, as one diagnostic. -/
structure Balances (encoder : Encoder) (feature : Feature) : Prop where
  attribute_mem : ∀ name value, .attribute name value ∈ parts feature ↔
    (name, value) ∈ feature.attributes.entries ∧ value.isNull = false
  geometry_mem : ∀ g, .geometry g ∈ parts feature ↔ g = feature.geometry
  nodup : (parts feature).Nodup
  settled : ∀ part ∈ parts feature,
    (part ∈ writtenParts feature ∧ part ∉ reportedParts feature) ∨
      (part ∉ writtenParts feature ∧ part ∈ reportedParts feature)
  sublists : (writtenParts feature).Sublist (parts feature) ∧
    (reportedParts feature).Sublist (parts feature)
  written : (encoder.member feature).1 =
    Event.element memberTag []
      (Event.element (encoder.featureType.qualified encoder.featureType.typeName)
        [("fid", feature.id)] ((writtenParts feature).flatMap (Part.events encoder)))
  visible : ∀ part, Part.events encoder part ≠ []
  reported : reports feature = (reportedParts feature).map (report feature)

/-- The ledger of every feature balances, with every encoder. -/
theorem balances (encoder : Encoder) (feature : Feature) : Balances encoder feature where
  attribute_mem name value := by
    unfold parts
    rw [List.mem_append, mem_attributeParts]
    constructor
    · rintro (⟨name', value', hmem, hvalue, heq⟩ | hgeometry)
      · cases heq
        exact ⟨hmem, hvalue⟩
      · cases List.mem_singleton.1 hgeometry
    · rintro ⟨hmem, hvalue⟩
      exact .inl ⟨name, value, hmem, hvalue, rfl⟩
  geometry_mem g := by
    unfold parts
    rw [List.mem_append, mem_attributeParts]
    constructor
    · rintro (⟨name, value, -, -, heq⟩ | hgeometry)
      · cases heq
      · cases List.mem_singleton.1 hgeometry
        rfl
    · rintro rfl
      exact .inr (List.mem_singleton.2 rfl)
  nodup := nodup_parts feature
  settled part hpart := by
    have hwritten : part ∈ writtenParts feature ↔ part.isWritable := by
      simp [writtenParts, hpart]
    have hreported : part ∈ reportedParts feature ↔ part.isWritable = false := by
      simp [reportedParts, hpart]
    rw [hwritten, hreported]
    cases part.isWritable with
    | false => exact .inr ⟨Bool.false_ne_true, rfl⟩
    | true => exact .inl ⟨rfl, nofun⟩
  sublists := ⟨List.filter_sublist, List.filter_sublist⟩
  written := by rw [encoder.member_eq]
  visible part := by
    rcases part with ⟨name, value⟩ | g
    · exact List.cons_ne_nil _ _
    · exact List.cons_ne_nil _ _
  reported := (map_report feature).symm

namespace Encoder

variable (encoder : Encoder)

/-- What a document is made of: the members and the reports of the features, in their order. -/
theorem document_eq (features : List Feature) :
    encoder.document features =
      { markup := Markup.render encoder.context.verbose encoder.opening ++
          encoder.header (envelope features) ++
            (String.join (features.map encoder.memberText) ++ encoder.closingText)
        diagnostics := features.flatMap reports } := by
  have hdiagnostics : ∀ feature, (encoder.member feature).2 = reports feature := by
    intro feature
    rw [member_eq, map_report]
  simp only [document, text_body, hdiagnostics]

/-- A feature among others has its own place among the members. -/
theorem markup_document_insert (before : List Feature) (feature : Feature)
    (after : List Feature) :
    (encoder.document (before ++ feature :: after)).markup =
      Markup.render encoder.context.verbose encoder.opening ++
        encoder.header (envelope (before ++ feature :: after)) ++
          (String.join (before.map encoder.memberText) ++ encoder.memberText feature ++
            (String.join (after.map encoder.memberText) ++ encoder.closingText)) := by
  simp only [document_eq, List.map_append, List.map_cons, String.join_append, String.join_cons,
    String.append_assoc]

/-- A document of features from memory loses nothing without a report. Its diagnostics are, feature
by feature, those of the attributes that have a value but a name that cannot be that of an element,
in the order of the names, and one more if the geometry has a coordinate that is not finite. Every
attribute with a value and every geometry is either written once or reported once. And each feature
has its own place among the members and the diagnostics: replacing it changes what stands there, and
the header, and nothing else. -/
theorem encode_accounts (context : RenderContext) (featureType : FeatureType)
    (features : List Feature) :
    let encoder : Encoder := { context, featureType }
    (∃ document,
      (encoder.encode (.ofFeatures features)).result = .ok document ∧
      document.diagnostics = features.flatMap reports) ∧
    (∀ feature ∈ features,
      Balances encoder feature ∧ (unnamable feature).Pairwise (· < ·) ∧
      (feature.geometry.isFinite = false ↔ HasNonFinite feature.geometry) ∧
      (reports feature).map (fun d => (d.featureId, d.skipped.stage, d.skipped.message)) =
        (unnamable feature).map (fun name =>
            (feature.id, "Attribute", "'" ++ name ++ "' is not a valid element name")) ++
          if feature.geometry.isFinite then []
          else [(feature.id, "Geometry", "geometry contains a non-finite coordinate")]) ∧
    ∀ before after, ∃ front back early late, ∀ feature, ∃ document,
      (encoder.encode (.ofFeatures (before ++ feature :: after))).result = .ok document ∧
      document.markup = Markup.render context.verbose encoder.opening ++
        encoder.header (envelope (before ++ feature :: after)) ++
          (front ++ encoder.openingSpacing.text (encoder.member feature).1 ++ back) ∧
      document.diagnostics = early ++ reports feature ++ late := by
  intro encoder
  refine ⟨⟨_, encoder.encode_ofFeatures rfl features, ?_⟩, ?_, ?_⟩
  · rw [document_eq]
  · intro feature _
    exact ⟨balances encoder feature, ascending_unnamable feature, hasNonFinite_iff.symm,
      texts_reports feature⟩
  · intro before after
    refine ⟨String.join (before.map encoder.memberText),
      String.join (after.map encoder.memberText) ++ encoder.closingText,
      before.flatMap reports, after.flatMap reports, ?_⟩
    intro feature
    refine ⟨_, encoder.encode_ofFeatures rfl (before ++ feature :: after), ?_, ?_⟩
    · exact encoder.markup_document_insert before feature after
    · simp [document_eq]

end Encoder

end Cartouche.Gml
