import Cartouche.Proofs.Markup.Geometry
import Cartouche.Proofs.Plane.Envelope

/-!
# All of a geometry or nothing

`GeometryEncoder.encodeInPlace` encodes a geometry by steps that change a writer and an envelope and
can fail in between: first the coordinates are checked, the members of a collection one by one
before the collection as a whole, then the events are written one after the other, and then the
envelope is widened point by point. Nothing takes a step back when a later one fails. It has the
same result as `GeometryEncoder.encode` nevertheless (`run_encodeInPlace`): the check fails exactly
for geometries that hold a coordinate which is not finite, at any depth, and behind the check no
step fails. `encodeInPlace_isAtomic` says what is left behind in both cases.
-/

namespace Cartouche

open Float.Model (UnpackedFloat)

/-! ## Points at any depth -/

/-- The coordinates of a point, with the elevation if there is one. -/
def Point.coordinates {α : Type u} (p : Point α) : List α := p.x :: p.y :: p.z.toList

/-- A point is finite when its coordinates are, the elevation included if there is one. -/
theorem Point.isFinite_iff_coordinates {α : Type u} [Scalar α] {p : Point α} :
    p.isFinite ↔ ∀ c ∈ p.coordinates, Scalar.isFinite c := by
  obtain ⟨x, y, z⟩ := p
  cases z <;> simp [Point.isFinite, Point.coordinates, and_assoc]

namespace Geometry

variable {α : Type u}

/-- The geometry holds a point: as its own, or in a part or member of it at any depth. -/
inductive Holds : Geometry α → Point α → Prop where
  | point (p : Point α) : Holds (.point p) p
  | lineString {line : LineString α} {p : Point α} (hp : p ∈ line.points) :
    Holds (.lineString line) p
  | exterior {area : Polygon α} {p : Point α} (hp : p ∈ area.exterior.points) :
    Holds (.polygon area) p
  | interior {area : Polygon α} {ring : LinearRing α} {p : Point α} (hring : ring ∈ area.interiors)
    (hp : p ∈ ring.points) : Holds (.polygon area) p
  | multiPoint {parts : List (Point α)} {p : Point α} (hp : p ∈ parts) :
    Holds (.multiPoint parts) p
  | multiLineString {parts : List (LineString α)} {line : LineString α} {p : Point α}
    (hline : line ∈ parts) (hp : Holds (.lineString line) p) : Holds (.multiLineString parts) p
  | multiPolygon {parts : List (Polygon α)} {area : Polygon α} {p : Point α}
    (harea : area ∈ parts) (hp : Holds (.polygon area) p) : Holds (.multiPolygon parts) p
  | collection {members : List (Geometry α)} {member : Geometry α} {p : Point α}
    (hmember : member ∈ members) (hp : Holds member p) : Holds (.collection members) p

/-- An area holds the points of its exterior and of its interiors. -/
theorem holds_polygon {area : Polygon α} {p : Point α} (h : p ∈ area.points) :
    (polygon area).Holds p := by
  rcases List.mem_append.1 h with h | h
  · exact .exterior h
  · obtain ⟨ring, hring, hp⟩ := List.mem_flatMap.1 h
    exact .interior hring hp

mutual

/-- The points that are visited are held. -/
theorem holds_of_mem_points {p : Point α} : (g : Geometry α) → p ∈ g.points → g.Holds p
  | .point q, h => by
    obtain rfl : p = q := by simpa using h
    exact .point p
  | .lineString line, h => .lineString (by simpa using h)
  | .polygon area, h => holds_polygon (by simpa using h)
  | .multiPoint parts, h => .multiPoint (by simpa using h)
  | .multiLineString parts, h => by
    obtain ⟨line, hline, hp⟩ := List.mem_flatMap.1 (points_multiLineString parts ▸ h)
    exact .multiLineString hline (.lineString hp)
  | .multiPolygon parts, h => by
    obtain ⟨area, harea, hp⟩ := List.mem_flatMap.1 (points_multiPolygon parts ▸ h)
    exact .multiPolygon harea (holds_polygon hp)
  | .collection members, h => by
    rw [points] at h
    obtain ⟨member, hmember, hp⟩ := exists_holds_of_mem_memberPoints members h
    exact .collection hmember hp

/-- The points that are visited in members are held by one of them. -/
theorem exists_holds_of_mem_memberPoints {p : Point α} :
    (members : List (Geometry α)) → p ∈ memberPoints members → ∃ member ∈ members, member.Holds p
  | [], h => by simp [memberPoints] at h
  | member :: rest, h => by
    rw [memberPoints] at h
    rcases List.mem_append.1 h with h | h
    · exact ⟨member, by simp, holds_of_mem_points member h⟩
    · obtain ⟨other, hother, hp⟩ := exists_holds_of_mem_memberPoints rest h
      exact ⟨other, by simp [hother], hp⟩

end

/-- The points that are visited are those that are held. -/
theorem mem_points_iff_holds {g : Geometry α} {p : Point α} : p ∈ g.points ↔ g.Holds p := by
  refine ⟨holds_of_mem_points g, fun h => ?_⟩
  induction h with
  | point p => simp
  | lineString hp => simpa using hp
  | exterior hp => simp [Polygon.points, hp]
  | interior hring hp =>
    simp only [points_polygon, Polygon.points]
    exact List.mem_append_right _ (List.mem_flatMap.2 ⟨_, hring, hp⟩)
  | multiPoint hp => simpa using hp
  | multiLineString hline _ ih =>
    rw [points_multiLineString]
    exact List.mem_flatMap.2 ⟨_, hline, by simpa using ih⟩
  | multiPolygon harea _ ih =>
    rw [points_multiPolygon]
    exact List.mem_flatMap.2 ⟨_, harea, by simpa using ih⟩
  | collection hmember _ ih =>
    rw [points_collection]
    exact List.mem_flatMap.2 ⟨_, hmember, ih⟩

/-- The geometry holds a point with a coordinate that is infinite or not a number. -/
def HoldsNonFinite (g : Geometry Float) : Prop :=
  ∃ p, g.Holds p ∧ ∃ c ∈ p.coordinates, c.isNaN ∨ c.isInf

/-- A geometry is finite unless it holds a coordinate that is not. -/
theorem not_isFinite_iff_holdsNonFinite {g : Geometry Float} :
    ¬ g.isFinite ↔ g.HoldsNonFinite := by
  simp only [isFinite_iff, Point.isFinite_iff_coordinates, mem_points_iff_holds, HoldsNonFinite,
    ← Binary64.not_isFinite_iff, not_forall, exists_prop]
  rfl

end Geometry

/-! ## What writing leaves alone -/

namespace Writer

/-- The bytes that are there stay where they are. -/
theorem bytes_writeAll_append (w : Writer) (events : List Event) :
    (w.writeAll events).bytes = w.bytes ++ (w.spacing.text events).toByteArray := by
  induction events generalizing w with
  | nil => simp [Markup.Spacing.text, Markup.Spacing.spacedAll]
  | cons event rest ih =>
    rw [writeAll_cons, ih, spacing_write, Markup.Spacing.text_cons, ← addition_eq]
    simp only [write, String.toByteArray_append, ByteArray.append_assoc]

/-- The number of open elements goes up and down with their names. -/
theorem depth_writeAll {w : Writer} {events : List Event} {names inner : List String} {outer : Nat}
    (h : Markup.nestingAll names events = some inner) (hw : w.depth = outer + names.length) :
    (w.writeAll events).depth = outer + inner.length := by
  induction events generalizing w names with
  | nil =>
    obtain rfl : names = inner := by simpa using h
    exact hw
  | cons event rest ih =>
    rw [Markup.nestingAll_cons] at h
    obtain ⟨middle, hevent, hrest⟩ := Option.bind_eq_some_iff.1 h
    refine ih hrest ?_
    cases event with
    | declaration => cases hevent
    | startTag name attributes =>
      obtain rfl : name :: names = middle := by simpa [Markup.nesting] using hevent
      simp only [write, depthAfter, hw, List.length_cons, Nat.add_assoc]
    | endTag name =>
      cases names with
      | nil => cases hevent
      | cons innermost rest =>
        obtain ⟨-, rfl⟩ : innermost = name ∧ rest = middle := by
          simpa [Markup.nesting] using hevent
        simp only [write, depthAfter, hw, List.length_cons]
        omega
    | emptyTag name attributes =>
      obtain rfl : names = middle := by simpa [Markup.nesting] using hevent
      exact hw
    | text content =>
      obtain rfl : names = middle := by simpa [Markup.nesting] using hevent
      exact hw

/-- The second writer is the first one with events appended: its bytes begin with those of the
first one, and as many elements are open. -/
structure IsExtension (before after : Writer) (events : List Event) : Prop where
  bytes : after.bytes = before.bytes ++ (before.spacing.text events).toByteArray
  depth : after.depth = before.depth
  indent : after.indent = before.indent
  pretty : after.pretty = before.pretty
  reserved : after.reserved = before.reserved

/-- A tree is appended. -/
theorem isExtension_writeAll_tree (w : Writer) (tree : Markup.Tree) :
    w.IsExtension (w.writeAll tree.events) tree.events where
  bytes := w.bytes_writeAll_append tree.events
  depth := depth_writeAll (Markup.nestingAll_tree [] tree) (Nat.add_zero w.depth).symm
  indent := by
    have h := w.spacing_writeAll tree.events
    rw [Markup.Spacing.afterAll_tree] at h
    exact congrArg Markup.Spacing.indent h
  pretty := w.pretty_writeAll tree.events
  reserved := w.reserved_writeAll tree.events

end Writer

/-! ## Encoding in place -/

namespace GeometryEncoder

/-- What encoding changes. -/
structure Sink where
  writer : Writer
  envelope : Envelope Float

/-- A step that changes the sink and may fail. A failure does not undo what was changed before. -/
abbrev Step (α : Type) := ExceptT EncodeError (StateM Sink) α

namespace Step

/-- Writes an event. -/
def put (event : Event) : Step Unit :=
  modify fun sink => { sink with writer := sink.writer.write event }

/-- Widens the envelope to a point. -/
def visit (p : Point Float) : Step Unit :=
  modify fun sink => { sink with envelope := sink.envelope.insert p }

/-- Fails when a point of the geometry is not finite. -/
def checkPoints (g : Geometry Float) : Step Unit :=
  if g.isFinite then pure () else throw .nonFiniteCoordinate

mutual

/-- Checks the members of a collection, and then all points. -/
def check : Geometry Float → Step Unit
  | .collection members => do
    checkMembers members
    checkPoints (.collection members)
  | .point p => checkPoints (.point p)
  | .lineString line => checkPoints (.lineString line)
  | .polygon area => checkPoints (.polygon area)
  | .multiPoint parts => checkPoints (.multiPoint parts)
  | .multiLineString parts => checkPoints (.multiLineString parts)
  | .multiPolygon parts => checkPoints (.multiPolygon parts)

/-- Checks the members of a collection one after the other. -/
def checkMembers : List (Geometry Float) → Step Unit
  | [] => pure ()
  | member :: rest => do
    check member
    checkMembers rest

end

/-- The outcome of a step on a sink, and the sink behind it. -/
def run {α : Type} (step : Step α) (sink : Sink) : Except EncodeError α × Sink :=
  StateT.run (ExceptT.run step) sink

/-- A step follows one that succeeds on the sink the first one leaves. -/
theorem run_bind_ok {α β : Type} {step : Step α} {sink behind : Sink} {a : α}
    (h : step.run sink = (.ok a, behind)) (next : α → Step β) :
    run (step >>= next) sink = (next a).run behind := by
  change StateT.run (ExceptT.run step) sink = _ at h
  show StateT.run (ExceptT.run (step >>= next)) sink = _
  simp only [ExceptT.run_bind, StateT.run_bind, h]
  rfl

/-- No step follows one that fails. -/
theorem run_bind_error {α β : Type} {step : Step α} {sink behind : Sink} {error : EncodeError}
    (h : step.run sink = (.error error, behind)) (next : α → Step β) :
    run (step >>= next) sink = (.error error, behind) := by
  change StateT.run (ExceptT.run step) sink = _ at h
  show StateT.run (ExceptT.run (step >>= next)) sink = _
  simp only [ExceptT.run_bind, StateT.run_bind, h]
  rfl

/-- Writing an event succeeds, and leaves the envelope as it is. -/
theorem run_put (event : Event) (sink : Sink) :
    run (put event) sink = (.ok (), { sink with writer := sink.writer.write event }) := rfl

/-- Widening the envelope succeeds, and leaves the writer as it is. -/
theorem run_visit (p : Point Float) (sink : Sink) :
    run (visit p) sink = (.ok (), { sink with envelope := sink.envelope.insert p }) := rfl

/-- Events are written one after the other. -/
theorem run_forM_put (events : List Event) (sink : Sink) :
    run (events.forM put) sink =
      (.ok (), { sink with writer := sink.writer.writeAll events }) := by
  induction events generalizing sink with
  | nil => rfl
  | cons event rest ih =>
    rw [List.forM, run_bind_ok (run_put event sink), ih]
    rfl

/-- The envelope is widened to one point after the other. -/
theorem run_forM_visit (points : List (Point Float)) (sink : Sink) :
    run (points.forM visit) sink =
      (.ok (), { sink with envelope := points.foldl Envelope.insert sink.envelope }) := by
  induction points generalizing sink with
  | nil => rfl
  | cons p rest ih =>
    rw [List.forM, run_bind_ok (run_visit p sink), ih]
    rfl

/-- Checking points changes nothing, whether or not it fails. -/
theorem run_checkPoints (g : Geometry Float) (sink : Sink) :
    run (checkPoints g) sink = (validate g, sink) := by
  unfold checkPoints validate
  split
  · rfl
  · rfl

mutual

/-- The check fails when any point is not finite, and changes nothing. -/
theorem run_check (sink : Sink) :
    (g : Geometry Float) → run (check g) sink = (validate g, sink)
  | .collection members => by
    have hmembers := run_checkMembers sink members
    have hfinite : (Geometry.collection members).isFinite = members.all Geometry.isFinite := by
      rw [Geometry.isFinite, Geometry.points_collection, List.all_flatMap]
      rfl
    rw [check]
    cases hall : members.all Geometry.isFinite with
    | true =>
      rw [hall] at hmembers
      rw [run_bind_ok hmembers, run_checkPoints]
    | false =>
      rw [hall] at hmembers
      rw [run_bind_error hmembers, validate, hfinite, hall]
      rfl
  | .point p => by rw [check, run_checkPoints]
  | .lineString line => by rw [check, run_checkPoints]
  | .polygon area => by rw [check, run_checkPoints]
  | .multiPoint parts => by rw [check, run_checkPoints]
  | .multiLineString parts => by rw [check, run_checkPoints]
  | .multiPolygon parts => by rw [check, run_checkPoints]

/-- The check of members fails at the first one that is not finite. -/
theorem run_checkMembers (sink : Sink) :
    (members : List (Geometry Float)) → run (checkMembers members) sink =
      (if members.all Geometry.isFinite then .ok () else .error .nonFiniteCoordinate, sink)
  | [] => by
    rw [checkMembers]
    rfl
  | member :: rest => by
    have hmember := run_check sink member
    rw [checkMembers, List.all_cons]
    unfold validate at hmember
    cases hfinite : member.isFinite with
    | true =>
      rw [hfinite] at hmember
      rw [run_bind_ok hmember, run_checkMembers sink rest, Bool.true_and]
    | false =>
      rw [hfinite] at hmember
      rw [run_bind_error hmember]
      rfl

end

end Step

variable (encoder : GeometryEncoder)

/-- Encodes a geometry step by step. -/
def encodeInPlace (g : Geometry Float) : Step Unit := do
  Step.check g
  (encoder.events g).forM Step.put
  g.points.forM Step.visit

/-- Encoding step by step has the result that encoding has at once, and a failure changes nothing.
-/
theorem run_encodeInPlace (g : Geometry Float) (sink : Sink) :
    (encoder.encodeInPlace g).run sink =
      match encoder.encode g sink.writer sink.envelope with
      | .ok (writer, envelope) => (.ok (), { writer, envelope })
      | .error error => (.error error, sink) := by
  have hcheck := Step.run_check sink g
  unfold encodeInPlace encode
  cases hvalid : validate g with
  | error error =>
    rw [hvalid] at hcheck
    exact Step.run_bind_error hcheck _
  | ok _ =>
    rw [hvalid] at hcheck
    rw [Step.run_bind_ok hcheck, Step.run_bind_ok (Step.run_forM_put _ sink), Step.run_forM_visit]
    rfl

/-- Encoding fails for geometries that hold a coordinate which is not finite. -/
theorem encode_eq_error {g : Geometry Float} (h : g.HoldsNonFinite) (writer : Writer)
    (envelope : Envelope Float) :
    encoder.encode g writer envelope = .error .nonFiniteCoordinate := by
  have hfinite := Geometry.not_isFinite_iff_holdsNonFinite.2 h
  simp only [encode, validate, hfinite]
  rfl

/-- All other geometries are encoded. -/
theorem encode_eq_ok {g : Geometry Float} (h : ¬ g.HoldsNonFinite) (writer : Writer)
    (envelope : Envelope Float) :
    encoder.encode g writer envelope =
      .ok (writer.writeAll (encoder.events g), envelope.merge (.ofGeometry g)) := by
  have hfinite : g.isFinite := Classical.not_not.1 (mt Geometry.not_isFinite_iff_holdsNonFinite.1 h)
  rw [encode, validate_eq_ok hfinite, Envelope.expand_eq_merge envelope hfinite]
  rfl

/-- Encoding a geometry does one of two things, and does them to the writer and the envelope it is
given, whichever way it is run. When a coordinate at any depth is infinite or not a number, it fails
and both stay as they are. Otherwise it succeeds: the markup of the geometry is appended to the
writer, as many elements are open as before, and the envelope is merged with the one of the
geometry. -/
theorem encodeInPlace_isAtomic (g : Geometry Float) (before : Sink) :
    (g.HoldsNonFinite ∧
      encoder.encode g before.writer before.envelope = .error .nonFiniteCoordinate ∧
      (encoder.encodeInPlace g).run before = (.error .nonFiniteCoordinate, before)) ∨
    (¬ g.HoldsNonFinite ∧ ∃ after : Sink,
      encoder.encode g before.writer before.envelope = .ok (after.writer, after.envelope) ∧
      (encoder.encodeInPlace g).run before = (.ok (), after) ∧
      before.writer.IsExtension after.writer (encoder.events g) ∧
      after.envelope = before.envelope.merge (.ofGeometry g)) := by
  have hrun := encoder.run_encodeInPlace g before
  by_cases h : g.HoldsNonFinite
  · have herror := encoder.encode_eq_error h before.writer before.envelope
    rw [herror] at hrun
    exact .inl ⟨h, herror, hrun⟩
  · have hok := encoder.encode_eq_ok h before.writer before.envelope
    have hextension := before.writer.isExtension_writeAll_tree (encoder.tree g)
    rw [events_tree] at hextension
    rw [hok] at hrun
    exact .inr ⟨h, ⟨_, _⟩, hok, hrun, hextension, rfl⟩

end GeometryEncoder

end Cartouche
