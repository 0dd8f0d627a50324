import Cartouche.Proofs.Gml.InPlace
import Cartouche.Proofs.Kml.Document
import Cartouche.Proofs.Markup.Layout

/-!
# Documents in both layouts

Whether a document is indented makes no difference to what stands in it. An encoder decides about
events without looking at the layout (`GeometryEncoder.tree_inLayout`,
`Kml.Encoder.placemark_inLayout`, `Gml.Encoder.memberTree_inLayout`), so both layouts have the same
events, and nothing but gaps is between them.
-/

namespace Cartouche

open Markup (IsDocument IsFragment IsLaidOut breaks margin read?)

/-- The options with the layout that is asked for. -/
def RenderContext.inLayout (context : RenderContext) (verbose : Bool) : RenderContext :=
  { context with verbose }

/-! ## Geometries -/

namespace GeometryEncoder

/-- The encoder with the layout that is asked for. -/
def inLayout (encoder : GeometryEncoder) (verbose : Bool) : GeometryEncoder :=
  { encoder with context := encoder.context.inLayout verbose }

section

variable {encoder other : GeometryEncoder}

section

variable (hdialect : encoder.dialect = other.dialect)
  (hlists : encoder.coordinatesTree = other.coordinatesTree)

include hdialect hlists

/-- A point has the same tree where the words of the dialect and the coordinate lists are the
same. -/
theorem pointTree_congr : encoder.pointTree = other.pointTree := by
  funext attributes p
  simp only [pointTree, hdialect, hlists]

/-- So has a line. -/
theorem lineStringTree_congr : encoder.lineStringTree = other.lineStringTree := by
  funext attributes line
  simp only [lineStringTree, hdialect, hlists]

/-- So has an area, because its rings have. -/
theorem polygonTree_congr : encoder.polygonTree = other.polygonTree := by
  have hring : encoder.ringTree = other.ringTree := by
    funext boundary ring
    simp only [ringTree, hdialect, hlists]
  funext attributes area
  simp only [polygonTree, hdialect, hring]

end

mutual

/-- The tree of a geometry depends on the words and on the coordinate lists only. -/
theorem treeWith_congr (hdialect : encoder.dialect = other.dialect)
    (hlists : encoder.coordinatesTree = other.coordinatesTree) (attributes : Attributes) :
    (g : Geometry Float) → encoder.treeWith attributes g = other.treeWith attributes g
  | .point p => by simp only [treeWith, pointTree_congr hdialect hlists]
  | .lineString line => by simp only [treeWith, lineStringTree_congr hdialect hlists]
  | .polygon area => by simp only [treeWith, polygonTree_congr hdialect hlists]
  | .multiPoint parts => by simp only [treeWith, hdialect, pointTree_congr hdialect hlists]
  | .multiLineString parts => by
    simp only [treeWith, hdialect, lineStringTree_congr hdialect hlists]
  | .multiPolygon parts => by simp only [treeWith, hdialect, polygonTree_congr hdialect hlists]
  | .collection members => by
    rw [treeWith, treeWith, hdialect, memberTrees_congr hdialect hlists members]

/-- The trees of the members of a collection depend on the words and on the coordinate lists only.
-/
theorem memberTrees_congr (hdialect : encoder.dialect = other.dialect)
    (hlists : encoder.coordinatesTree = other.coordinatesTree) :
    (members : List (Geometry Float)) → encoder.memberTrees members = other.memberTrees members
  | [] => by rw [memberTrees, memberTrees]
  | g :: rest => by
    rw [memberTrees, memberTrees, hdialect, treeWith_congr hdialect hlists [] g,
      memberTrees_congr hdialect hlists rest]

end

end

variable (encoder : GeometryEncoder)

/-- The tree of a geometry does not depend on the layout. -/
theorem tree_inLayout (verbose : Bool) : (encoder.inLayout verbose).tree = encoder.tree := by
  funext g
  exact @treeWith_congr (encoder.inLayout verbose) encoder rfl rfl _ g

/-- The events of a geometry do not depend on the layout. -/
theorem events_inLayout (verbose : Bool) : (encoder.inLayout verbose).events = encoder.events := by
  funext g
  rw [← events_tree, tree_inLayout, events_tree]

/-- The encoder gives the same in both layouts: a finite geometry has one tree, which both texts
are read as, and a geometry that is not finite has no text in either of them. -/
structure LayoutsAgree : Prop where
  fragment : ∀ g : Geometry Float, g.isFinite → ∃ tree markup,
    tree.events = encoder.events g ∧
    (∀ verbose, (encoder.inLayout verbose).encodeToString g = .ok (markup verbose)) ∧
    IsFragment tree markup
  failure : ∀ g : Geometry Float, ¬ g.isFinite → ∀ verbose,
    (encoder.inLayout verbose).encodeToString g = .error .nonFiniteCoordinate

/-- An encoder of geometries gives the same in both layouts when the words of its dialect are
names. -/
theorem layoutsAgree_of_isSound (h : encoder.dialect.IsSound) : encoder.LayoutsAgree where
  fragment g hfin := by
    have hsound : ∀ e ∈ (encoder.tree g).events, Markup.IsSound e := by
      rw [events_tree]
      exact (isForest_events h g).2
    refine ⟨encoder.tree g, fun verbose => Markup.render verbose (encoder.tree g).events,
      encoder.events_tree g, fun verbose => ?_, Markup.isFragment_render hsound⟩
    rw [encodeToString_eq _ hfin, tree_inLayout]
    rfl
  failure g hfin verbose := by
    simp [encodeToString, encode, validate, hfin, bind, Except.bind]

end GeometryEncoder

/-! ## Placemarks -/

namespace Kml.Encoder

variable (encoder : Encoder)

/-- The encoder with the layout that is asked for. -/
def inLayout (verbose : Bool) : Encoder :=
  { encoder with context := encoder.context.inLayout verbose }

/-- What is written of a feature does not depend on the layout. -/
theorem placemark_inLayout (verbose : Bool) (feature : Feature) :
    (encoder.inLayout verbose).placemark feature = encoder.placemark feature := by
  have hevents : (encoder.inLayout verbose).geometryEncoder.events =
      encoder.geometryEncoder.events := encoder.geometryEncoder.events_inLayout verbose
  have hshape : (encoder.inLayout verbose).shape = encoder.shape := by
    funext center g
    simp only [shape, hevents]
    rfl
  unfold placemark
  rw [hshape]
  rfl

/-- The content of a document does not depend on the layout. -/
theorem content_inLayout (verbose : Bool) (features : List Feature) :
    (encoder.inLayout verbose).content features = encoder.content features := by
  simp only [content, placemark_inLayout]
  rfl

/-- The layout of a document decides about its text, and about nothing else. -/
theorem document_inLayout (verbose : Bool) (features : List Feature) :
    (encoder.inLayout verbose).document features =
      { markup := Markup.render verbose (.declaration :: encoder.content features)
        diagnostics := (encoder.document features).diagnostics } := by
  have hdiagnostics : (encoder.inLayout verbose).ownDiagnostics = encoder.ownDiagnostics := by
    funext feature
    simp only [ownDiagnostics, placemark_inLayout]
  have hmarkup := (encoder.inLayout verbose).markup_document features
  rw [content_inLayout] at hmarkup
  have hverbose : (encoder.inLayout verbose).context.verbose = verbose := rfl
  rw [hverbose] at hmarkup
  rw [← hmarkup]
  simp only [document, hdiagnostics]

/-- When no feature breaks off, the events of a document are those of a tree. -/
theorem exists_tree_content {features : List Feature}
    (h : ∀ feature ∈ features, ¬ BreaksOff feature) :
    ∃ tree : Markup.Tree, tree.events = encoder.content features ∧
      ∀ e ∈ tree.events, Markup.IsSound e := by
  have hforest : Markup.IsForest
      (features.flatMap fun feature => (encoder.placemark feature).events) := by
    refine .flatMap fun feature hmem => ?_
    by_cases hfin : feature.geometry.isFinite
    · exact (encoder.exists_tree hfin (h feature hmem)).2.1
    · rw [encoder.placemark_of_not_isFinite hfin]
      exact .nil
  obtain ⟨⟨trees, htrees⟩, -⟩ := hforest
  have hcontent := encoder.content_of_allEvents htrees
  refine ⟨encoder.documentTree trees, hcontent.symm, ?_⟩
  rw [← hcontent]
  exact encoder.isSound_content features

/-- The encoder gives the same in both layouts. All features together have one sequence of events;
if none of them breaks off, these are the events of a tree, which both documents are read as, and
otherwise neither can be read. A feature by itself has one tree as well, unless it is skipped, and
then it has no text in either layout. -/
structure LayoutsAgree : Prop where
  document : ∀ features, ∃ markup diagnostics,
    (∀ verbose, ((encoder.inLayout verbose).encode (.ofFeatures features)).result =
      .ok { markup := markup verbose, diagnostics }) ∧
    IsLaidOut [] (.declaration :: encoder.content features) markup ∧
    ((∀ feature ∈ features, ¬ BreaksOff feature) →
      ∃ tree : Markup.Tree, tree.events = encoder.content features ∧ IsDocument tree markup) ∧
    ((∃ feature ∈ features, BreaksOff feature) → ∀ verbose, read? (markup verbose) = none)
  placemark : ∀ feature, feature.geometry.isFinite → ¬ BreaksOff feature →
    ∃ tree markup diagnostics,
      tree.events = (encoder.placemark feature).events ∧
      (∀ verbose, (encoder.inLayout verbose).encodeFeature feature =
        .ok { markup := markup verbose, diagnostics }) ∧
      IsFragment tree markup
  failure : ∀ feature, ¬ feature.geometry.isFinite ∨ BreaksOff feature → ∀ verbose,
    (encoder.inLayout verbose).encodeFeature feature = .error (.encode .nonFiniteCoordinate)

/-- An encoder of placemarks gives the same in both layouts when nobody asks to abort. -/
theorem layoutsAgree (habort : encoder.abort = none) : encoder.LayoutsAgree where
  document features := by
    refine ⟨fun verbose => Markup.render verbose (.declaration :: encoder.content features),
      (encoder.document features).diagnostics, fun verbose => ?_, Markup.isLaidOut_render _, ?_, ?_⟩
    · rw [(encoder.inLayout verbose).encode_ofFeatures habort, document_inLayout]
    · intro h
      obtain ⟨tree, htree, hsound⟩ := encoder.exists_tree_content h
      refine ⟨tree, htree, ?_⟩
      rw [← htree]
      exact Markup.isDocument_render hsound
    · intro h verbose
      have hread := (encoder.inLayout verbose).read?_document_of_breaksOff h
      rw [document_inLayout] at hread
      exact hread
  placemark feature hfin h := by
    obtain ⟨hnone, hforest, members, hevents⟩ := encoder.exists_tree hfin h
    rw [hevents] at hforest
    refine ⟨_, _, (encoder.placemark feature).diagnostics, hevents.symm, fun verbose => ?_,
      Markup.isFragment_render hforest.2⟩
    rw [encodeFeature_eq, placemark_inLayout, hnone, ← hevents]
    rfl
  failure feature h verbose := by
    have hfailure : (encoder.placemark feature).failure = some .nonFiniteCoordinate := by
      rcases h with h | h
      · rw [encoder.placemark_of_not_isFinite h]
      · exact (encoder.placemark_of_breaksOff h).1
    rw [encodeFeature_eq, placemark_inLayout, hfailure]

end Kml.Encoder

/-! ## Members -/

namespace Gml.Encoder

variable (encoder : Encoder)

/-- The encoder with the layout that is asked for. -/
def inLayout (verbose : Bool) : Encoder :=
  { encoder with context := encoder.context.inLayout verbose }

/-- What is written of a feature does not depend on the layout. -/
theorem member_inLayout (verbose : Bool) (feature : Feature) :
    (encoder.inLayout verbose).member feature = encoder.member feature := by
  have hevents : (encoder.inLayout verbose).geometryEncoder.events =
      encoder.geometryEncoder.events := encoder.geometryEncoder.events_inLayout verbose
  unfold member geometryProperty
  rw [hevents]
  rfl

/-- The tree of a feature does not depend on the layout. -/
theorem memberTree_inLayout (verbose : Bool) (feature : Feature) :
    (encoder.inLayout verbose).memberTree feature = encoder.memberTree feature := by
  have htree : (encoder.inLayout verbose).geometryEncoder.tree = encoder.geometryEncoder.tree :=
    encoder.geometryEncoder.tree_inLayout verbose
  unfold memberTree geometryTrees
  rw [htree]
  rfl

/-- The layout of a document decides about its text, and about nothing else. -/
theorem document_inLayout (verbose : Bool) (features : List Feature) :
    (encoder.inLayout verbose).document features =
      { markup := Markup.render verbose encoder.opening ++
          (encoder.inLayout verbose).header (envelope features) ++
          (({ pretty := verbose } : Markup.Spacing).afterAll
            (encoder.opening ++ encoder.boundedBy (envelope features))).text (encoder.body features)
        diagnostics := (encoder.document features).diagnostics } := by
  have hbody : (encoder.inLayout verbose).body features = encoder.body features := by
    simp only [body, member_inLayout]
  have hspacing : ({ pretty := verbose } : Markup.Spacing).afterAll
      (encoder.opening ++ encoder.boundedBy (envelope features)) =
        (encoder.inLayout verbose).openingSpacing := by
    rw [Markup.Spacing.afterAll_append]
    exact (encoder.inLayout verbose).afterAll_boundedBy (envelope features)
  rw [hspacing, ← hbody]
  simp only [document, member_inLayout]
  rfl

/-- The encoder gives the same in both layouts behind the header: the members and the diagnostics
are the same, and both documents are read as collections of the same members. -/
structure LayoutsAgree : Prop where
  collection : ∀ features, ∃ behind diagnostics,
    (∀ verbose, ((encoder.inLayout verbose).encode (.ofFeatures features)).result =
      .ok {
        markup := Markup.render verbose encoder.opening ++
          (encoder.inLayout verbose).header (envelope features) ++ behind verbose
        diagnostics }) ∧
    IsLaidOut (encoder.opening ++ encoder.boundedBy (envelope features)) (encoder.body features)
      behind
  reads : IsPlain encoder.featureType → ∀ features verbose, ∃ document bounds,
    ((encoder.inLayout verbose).encode (.ofFeatures features)).result = .ok document ∧
    read? document.markup = some (breaks (margin verbose) ++
      [(Markup.Tree.element collectionTag encoder.namespaces
        (.element "gml:boundedBy" [] [bounds] :: features.map encoder.memberTree)).node
          (margin verbose)])

/-- An encoder of tabular documents gives the same in both layouts behind the header when nobody
asks to abort. -/
theorem layoutsAgree (habort : encoder.abort = none) : encoder.LayoutsAgree where
  collection features := by
    refine ⟨_, (encoder.document features).diagnostics, fun verbose => ?_,
      Markup.isLaidOut_text _ _⟩
    rw [(encoder.inLayout verbose).encode_ofFeatures habort, document_inLayout]
  reads hplain features verbose := by
    have hplain' : IsPlain (encoder.inLayout verbose).featureType := hplain
    have hsound := (isForest_collection hplain'
      ((encoder.inLayout verbose).isForest_splicedBounds (envelope features)) features).2
    have hread := Markup.read?_document verbose hsound
    have hmembers : (encoder.inLayout verbose).memberTree = encoder.memberTree := by
      funext feature
      exact encoder.memberTree_inLayout verbose feature
    rw [events_collection, events_splicedBounds, hmembers] at hread
    refine ⟨_, (encoder.inLayout verbose).splicedBounds (envelope features),
      (encoder.inLayout verbose).encode_ofFeatures habort features, ?_⟩
    rw [markup_document]
    exact hread

end Gml.Encoder

/-- Whether markup is indented makes no difference to what stands in it: both layouts consist of the
same events, with nothing between them but line breaks in front of tags that follow tags, they are
read as the same trees, and the diagnostics are the same. -/
theorem layouts_agree (context : RenderContext) (style : Style) (labeller : Labeller)
    (featureType : FeatureType) (srsName : Option String) :
    Kml.Encoder.LayoutsAgree { context, style, labeller } ∧
      Gml.Encoder.LayoutsAgree { context, featureType } ∧
      ∀ dialect ∈ [Dialect.gml, Dialect.kml],
        GeometryEncoder.LayoutsAgree { context, dialect, srsName } := by
  refine ⟨Kml.Encoder.layoutsAgree _ rfl, Gml.Encoder.layoutsAgree _ rfl, fun dialect h => ?_⟩
  refine GeometryEncoder.layoutsAgree_of_isSound _ ?_
  rcases List.mem_cons.1 h with rfl | h
  · exact Dialect.isSound_gml
  · obtain rfl := List.mem_singleton.1 h
    exact Dialect.isSound_kml

end Cartouche
