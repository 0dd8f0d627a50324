import Cartouche.Proofs.Gml.Document
import Cartouche.Proofs.Markup.Name

/-!
# Reading tabular documents

Reading undoes encoding. A compact document is the text of one tree (`compact_document`), in which
the header stands between the opening and the first member; so a reader finds one feature collection
with one member for each feature (`isMember_memberTree`). Ids, values, separators and names of
reference systems are arbitrary texts and cannot break out of the places where they stand.
-/

namespace Cartouche.Gml

open Markup (Node IsTag IsForest isName isTag_nil isNCName isName_qualified)

/-- The names that become element names are names without colon, and the abbreviation is not one of
the two that documents declare themselves. -/
structure IsPlain (type : FeatureType) : Prop where
  abbreviation : isNCName type.abbreviation.toList
  typeName : isNCName type.typeName.toList
  geometryName : isNCName type.geometryName.toList
  ne_wfs : type.abbreviation ≠ "wfs"
  ne_gml : type.abbreviation ≠ "gml"

/-- The attributes of a feature that are written: those with a value and a name that can be the name
of an element. -/
def writtenAttributes (feature : Feature) : List (String × AttributeValue) :=
  feature.attributes.entries.filter fun (name, value) => !value.isNull && isLocalName name

namespace Encoder

variable (encoder : Encoder)

/-! ## Trees -/

/-- The written attributes of a feature as trees. -/
def attributeTrees (feature : Feature) : List Markup.Tree :=
  (writtenAttributes feature).map fun (name, value) =>
    .text (encoder.featureType.qualified name) [] value.display

/-- The geometry of a feature as a tree, if it is written. -/
def geometryTrees (feature : Feature) : List Markup.Tree :=
  if feature.geometry.isFinite then
    [.element (encoder.featureType.qualified encoder.featureType.geometryName) []
      [encoder.geometryEncoder.tree feature.geometry]]
  else
    []

/-- A feature as a tree. -/
def memberTree (feature : Feature) : Markup.Tree :=
  .element memberTag []
    [.element (encoder.featureType.qualified encoder.featureType.typeName) [("fid", feature.id)]
      (encoder.attributeTrees feature ++ encoder.geometryTrees feature)]

/-- The bounds of a document as a tree. -/
def boundsTree (envelope : Envelope Float) : Markup.Tree :=
  match envelope.rect with
  | some rect =>
    .element "gml:Box" (srsAttributes encoder.featureType.srsName)
      [.text "gml:coordinates" encoder.context.coordinateAttributes
        (encoder.context.formatCoordinates
          [{ x := rect.xMin, y := rect.yMin }, { x := rect.xMax, y := rect.yMax }])]
  | none => .text "gml:null" [] "unknown"

/-- The namespaces of a document. -/
def namespaces : Attributes :=
  [("xmlns:wfs", wfsNamespace), ("xmlns:gml", gmlNamespace),
    ("xmlns:" ++ encoder.featureType.abbreviation, encoder.featureType.namespaceUri)]

/-- A document as a tree. -/
def documentTree (features : List Feature) : Markup.Tree :=
  .element collectionTag encoder.namespaces
    (.element "gml:boundedBy" [] [encoder.boundsTree (envelope features)] ::
      features.map encoder.memberTree)

/-- The trees of the attributes are what the encoder writes for them. It goes through all attributes
and writes nothing for some, the trees are those of the written ones. -/
theorem allEvents_attributeTrees (feature : Feature) :
    Markup.Tree.allEvents (encoder.attributeTrees feature) =
      (feature.attributes.entries.map fun (name, value) =>
        encoder.attributeElement feature.id name value).flatMap (·.1) := by
  unfold attributeTrees writtenAttributes
  induction feature.attributes.entries with
  | nil => rfl
  | cons entry rest ih =>
    obtain ⟨name, value⟩ := entry
    rw [List.map_cons, List.flatMap_cons, ← ih, List.filter_cons]
    by_cases hnull : value.isNull
    · simp [attributeElement, hnull]
    · by_cases hname : isLocalName name
      · simp [attributeElement, hnull, hname]
      · simp [attributeElement, hnull, hname]

/-- The tree of the geometry is what the encoder writes for it: a geometry that is not finite is
left out, and has no tree. -/
theorem allEvents_geometryTrees (feature : Feature) :
    Markup.Tree.allEvents (encoder.geometryTrees feature) =
      (encoder.geometryProperty feature).1 := by
  unfold geometryTrees geometryProperty GeometryEncoder.validate
  split
  · simp [GeometryEncoder.events_tree]
  · rfl

/-- The tree of a feature is the member that the encoder writes. -/
theorem events_memberTree (feature : Feature) :
    (encoder.memberTree feature).events = (encoder.member feature).1 := by
  simp [memberTree, member, Markup.Tree.allEvents_append,
    allEvents_attributeTrees, allEvents_geometryTrees]

/-- The tree of the bounds is the header that the encoder writes, with bounds and without. -/
theorem events_boundsTree (envelope : Envelope Float) :
    Event.element "gml:boundedBy" [] (encoder.boundsTree envelope).events =
      encoder.boundedBy envelope := by
  unfold boundsTree boundedBy
  cases envelope.rect with
  | none => simp
  | some rect => simp

/-- The bounds stand between the opening and the first member. -/
theorem events_collection (bounds : Markup.Tree) (features : List Feature) :
    .declaration :: (Markup.Tree.element collectionTag encoder.namespaces
        (.element "gml:boundedBy" [] [bounds] :: features.map encoder.memberTree)).events =
      encoder.opening ++ Event.element "gml:boundedBy" [] bounds.events ++
        encoder.body features := by
  have hmembers : Markup.Tree.allEvents (features.map encoder.memberTree) =
      features.flatMap fun feature => (encoder.member feature).1 := by
    simp [Markup.Tree.allEvents_eq_flatMap, List.flatMap_map, events_memberTree]
  simp only [Markup.Tree.events_element, Markup.Tree.allEvents_cons, Markup.Tree.allEvents_nil,
    List.append_nil, hmembers]
  simp [Event.element, opening, namespaces, body]

/-- The header stands between the opening and the first member. -/
theorem events_documentTree (features : List Feature) :
    .declaration :: (encoder.documentTree features).events =
      encoder.opening ++ encoder.boundedBy (envelope features) ++ encoder.body features := by
  rw [documentTree, events_collection, events_boundsTree]

/-- A compact document is the text of its tree. -/
theorem compact_document (hcompact : encoder.context.verbose = false) (features : List Feature) :
    (encoder.document features).markup =
      Markup.render false (.declaration :: (encoder.documentTree features).events) := by
  have hheader : encoder.header (envelope features) =
      Markup.render false (encoder.boundedBy (envelope features)) := by
    simp [header, Writer.inserted, Writer.new, hcompact]
  have hbody : encoder.openingSpacing.text (encoder.body features) =
      Markup.render false (encoder.body features) := by
    refine Markup.Spacing.text_compact ?_ _
    simp [openingSpacing, opening, Markup.Spacing.afterAll, Markup.Spacing.after, hcompact]
  rw [events_documentTree, Markup.render_false_append, Markup.render_false_append, ← hheader,
    ← hbody, document, hcompact]

/-! ## Names -/

section

variable {encoder} (h : IsPlain encoder.featureType)

include h

/-- A name without colon is a name with the abbreviation in front of it, too. -/
theorem isName_qualified_of_isNCName {name : String} (hname : isNCName name.toList) :
    isName (encoder.featureType.qualified name).toList :=
  isName_qualified h.abbreviation (Markup.forall_isNameFirst_of_isNCName hname).2

/-- The attributes of a feature can be read, whatever they are called: names that do not pass the
test of the encoder are left out. -/
theorem isForest_attributeTrees (feature : Feature) :
    IsForest (Markup.Tree.allEvents (encoder.attributeTrees feature)) := by
  rw [Markup.Tree.allEvents_eq_flatMap, attributeTrees, List.flatMap_map]
  refine .flatMap fun (name, value) hentry => ?_
  have hwritten := (List.mem_filter.1 hentry).2
  simp only [Bool.and_eq_true] at hwritten
  rw [Markup.Tree.events_text]
  exact .textElement (isTag_nil.2 (isName_qualified h.abbreviation
    (Markup.forall_isNameFirst_of_isLocalName hwritten.2))) _

/-- The geometry of a feature can be read behind the name of its property. -/
theorem isForest_geometryTrees (feature : Feature) :
    IsForest (Markup.Tree.allEvents (encoder.geometryTrees feature)) := by
  unfold geometryTrees
  split
  · simp only [Markup.Tree.allEvents_cons, Markup.Tree.allEvents_nil, List.append_nil,
      Markup.Tree.events_element, GeometryEncoder.events_tree]
    exact .element (isTag_nil.2 (isName_qualified_of_isNCName h h.geometryName))
      (GeometryEncoder.isForest_events Dialect.isSound_gml feature.geometry)
  · exact .nil

/-- A member can be read. Its id stands in a value, where every text can stand. -/
theorem isForest_memberTree (feature : Feature) : IsForest (encoder.memberTree feature).events := by
  simp only [memberTree, Markup.Tree.events_element, Markup.Tree.allEvents_cons,
    Markup.Tree.allEvents_nil, List.append_nil, Markup.Tree.allEvents_append]
  refine .element (isTag_nil.2 (by decide)) (.element ⟨?_, ?_, ?_⟩
    (.append (isForest_attributeTrees h feature) (isForest_geometryTrees h feature)))
  · exact isName_qualified_of_isNCName h h.typeName
  · simp
    decide
  · simp

omit h in
/-- The bounds can be read. All their names are fixed, so this holds of every feature type. -/
theorem isForest_boundsTree (envelope : Envelope Float) :
    IsForest (encoder.boundsTree envelope).events := by
  unfold boundsTree
  cases envelope.rect with
  | none =>
    rw [Markup.Tree.events_text]
    exact .textElement (isTag_nil.2 (by decide)) _
  | some rect =>
    simp only [Markup.Tree.events_element, Markup.Tree.events_text, Markup.Tree.allEvents_cons,
      Markup.Tree.allEvents_nil, List.append_nil]
    exact .element (isTag_srsAttributes _ (by decide))
      (.textElement (isTag_coordinateAttributes _ (by decide)) _)

/-- The namespaces of a document are distinct. -/
theorem isTag_namespaces : IsTag collectionTag encoder.namespaces := by
  have hkey : isName ("xmlns:" ++ encoder.featureType.abbreviation).toList := by
    obtain ⟨-, hall⟩ := Markup.forall_isNameFirst_of_isNCName h.abbreviation
    have hfixed : ∀ c ∈ "xmlns:".toList, Markup.isNameFirst c :=
      List.all_eq_true.1 (by decide)
    refine Markup.isName_of_forall (by simp) fun c hc => ?_
    rw [String.toList_append] at hc
    rcases List.mem_append.1 hc with hc | hc
    · exact hfixed c hc
    · exact hall c hc
  refine ⟨by decide, ?_, ?_⟩
  · intro a ha
    simp only [namespaces, List.mem_cons, List.not_mem_nil, or_false] at ha
    rcases ha with rfl | rfl | rfl
    · decide
    · decide
    · exact hkey
  · have hne : ∀ {other : String}, encoder.featureType.abbreviation ≠ other →
        "xmlns:" ++ other ≠ "xmlns:" ++ encoder.featureType.abbreviation := by
      intro other hother heq
      exact hother ((String.append_right_inj _).1 heq).symm
    have hwfs := hne h.ne_wfs
    have hgml := hne h.ne_gml
    simp only [namespaces, List.map_cons, List.map_nil, List.nodup_cons, List.mem_cons,
      List.not_mem_nil, or_false, not_or, not_false_eq_true, List.nodup_nil, and_true]
    exact ⟨⟨by decide, hwfs⟩, hgml⟩

/-- Bounds that can be read stand in a collection that can be read. -/
theorem isForest_collection {bounds : Markup.Tree} (hbounds : IsForest bounds.events)
    (features : List Feature) :
    IsForest (Markup.Tree.element collectionTag encoder.namespaces
      (.element "gml:boundedBy" [] [bounds] :: features.map encoder.memberTree)).events := by
  simp only [Markup.Tree.events_element, Markup.Tree.allEvents_cons, Markup.Tree.allEvents_nil,
    List.append_nil]
  rw [Markup.Tree.allEvents_eq_flatMap, List.flatMap_map]
  exact .element (isTag_namespaces h)
    (.append (.element (isTag_nil.2 (by decide)) hbounds)
      (.flatMap fun feature _ => isForest_memberTree h feature))

/-- A document can be read, whatever its features are. -/
theorem isForest_documentTree (features : List Feature) :
    IsForest (encoder.documentTree features).events :=
  isForest_collection h (isForest_boundsTree _) features

end

/-! ## Reading -/

/-- The node is a feature as a member of a collection: an element with the id of the feature, in
which stand the written attributes, in the order of their names and each with the text of its value,
and then the geometry, if it is finite, as what it is read as by itself. -/
structure IsMember (feature : Feature) (node : Node) : Prop where
  ordered : (writtenAttributes feature).Pairwise fun a b => a.1 < b.1
  content : ∃ geometry,
    node = .element "gml:featureMember" []
      [.element (encoder.featureType.qualified encoder.featureType.typeName) [("fid", feature.id)]
        ((writtenAttributes feature).map (fun (name, value) =>
          .element (encoder.featureType.qualified name) []
            (Markup.textNodes value.display.toList)) ++ geometry)] ∧
    if feature.geometry.isFinite then
      ∃ text content, encoder.geometryEncoder.encodeToString feature.geometry = .ok text ∧
        Markup.read? text = some content ∧
        geometry =
          [.element (encoder.featureType.qualified encoder.featureType.geometryName) [] content]
    else
      geometry = []

/-- The tree of a feature is read as the feature: its id, its written attributes in order, and its
geometry as what this is read as by itself. -/
theorem isMember_memberTree (hcompact : encoder.context.verbose = false) (feature : Feature) :
    encoder.IsMember feature ((encoder.memberTree feature).node none) where
  ordered := feature.attributes.ordered.filter _
  content := by
    refine ⟨(encoder.geometryTrees feature).map (Markup.Tree.node none), ?_, ?_⟩
    · have hattributes : (encoder.attributeTrees feature).map (Markup.Tree.node none) =
          (writtenAttributes feature).map fun (name, value) =>
            .element (encoder.featureType.qualified name) []
              (Markup.textNodes value.display.toList) := by
        simp [attributeTrees]
      simp only [memberTree, Markup.Tree.node_element_none, List.map_cons, List.map_nil,
        List.map_append, hattributes, memberTag]
    · split
      · next hfin =>
        refine ⟨_, _, encoder.geometryEncoder.encodeToString_eq hfin,
          encoder.geometryEncoder.read?_render_tree Dialect.isSound_gml _ _, ?_⟩
        simp [geometryTrees, hfin, geometryEncoder, hcompact, Markup.margin]
      · next hfin => simp [geometryTrees, hfin]

end Encoder

/-- A compact document of features from memory is read as one feature collection, with the bounding
box in front of one member for each feature, in their order. -/
theorem read_encode (context : RenderContext) (hcompact : context.verbose = false)
    (type : FeatureType) (htype : IsPlain type) (features : List Feature) :
    let encoder : Encoder := { context, featureType := type }
    ∃ document bounds member,
      (encoder.encode (.ofFeatures features)).result = .ok document ∧
      Markup.read? document.markup = some [.element "wfs:FeatureCollection" encoder.namespaces
        (.element "gml:boundedBy" [] bounds :: features.map member)] ∧
      ∀ feature ∈ features, encoder.IsMember feature (member feature) := by
  intro encoder
  have hplain : IsPlain encoder.featureType := htype
  have hread := Markup.read?_compactDocument (Encoder.isForest_documentTree hplain features).2
  rw [← Encoder.compact_document encoder hcompact, Encoder.documentTree,
    Markup.Tree.node_element_none, List.map_cons, Markup.Tree.node_element_none,
    List.map_map] at hread
  exact ⟨encoder.document features, _, Markup.Tree.node none ∘ encoder.memberTree,
    encoder.encode_ofFeatures rfl features, hread,
    fun feature _ => encoder.isMember_memberTree hcompact feature⟩

/-- A feature with special characters in its id and in the value of an attribute. -/
def spiked : Feature where
  id := "<a> & \"b\""
  attributes := .ofList [("name", .text "]]>"), ("not a name", .bool true), ("void", .null)]
  geometry := .point { x := 1.5, y := -2.0 }

/-- Texts full of special characters come back from a document as they were. -/
theorem read_encode_spiked :
    ({} : RenderContext).verbose = false ∧ IsPlain {} ∧
      ∃ document bounds member,
        (Encoder.encode { context := {}, featureType := {} } (.ofFeatures [spiked])).result =
          .ok document ∧
        Markup.read? document.markup = some [.element "wfs:FeatureCollection"
          [("xmlns:wfs", wfsNamespace), ("xmlns:gml", gmlNamespace),
            ("xmlns:feature", "http://www.opengis.net/feature")]
          [.element "gml:boundedBy" [] bounds, member]] ∧
        Encoder.IsMember { context := {}, featureType := {} } spiked member := by
  have hplain : IsPlain {} := ⟨by decide, by decide, by decide, by decide, by decide⟩
  obtain ⟨document, bounds, member, hok, hread, hmember⟩ := read_encode {} rfl {} hplain [spiked]
  exact ⟨rfl, hplain, document, bounds, member spiked, hok, hread, hmember spiked (by simp)⟩

end Cartouche.Gml
