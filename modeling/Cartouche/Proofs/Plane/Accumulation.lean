import Mathlib.Data.List.Basic
import Mathlib.Data.List.Induction
import Cartouche.Proofs.Plane.Envelope

/-!
# Envelopes that are put together

An `Assembly` says how an envelope is put together: points and geometries are added to it, and
envelopes that were put together elsewhere are merged into it. Where the points are finite, nothing
but their order counts, since merging can be rearranged: the envelope is the one that is widened to
the points one by one (`Assembly.envelope_eq`). And the order matters for the sign of a zero at most
(`Assembly.beq_of_perm`), which the comparison of doubles does not see.
-/

namespace Cartouche

open Binary64 (beq_iff_rank_eq isNaN_of_isFinite rank)

/-! ## Equality up to the sign of zero -/

namespace Rect

/-- Rectangles are compared bound by bound, as doubles are compared: zeros of either sign are equal,
and what is not a number is not even equal to itself. -/
theorem beq_iff {r s : Rect Float} :
    r == s ↔ r.xMin == s.xMin ∧ r.yMin == s.yMin ∧ r.xMax == s.xMax ∧ r.yMax == s.yMax := by
  have heq : (r == s) =
      (r.xMin == s.xMin && (r.yMin == s.yMin && (r.xMax == s.xMax && r.yMax == s.yMax))) := rfl
  rw [heq]
  simp only [Bool.and_eq_true]

/-- Finite rectangles are equal when their bounds have the same ranks. -/
theorem beq_of_sameRanks {r s : Rect Float} (hr : r.IsFinite) (hs : s.IsFinite)
    (h : r.SameRanks s) : r == s := by
  have hbound {a b : Float} (ha : a.isFinite) (hb : b.isFinite) (h : rank a = rank b) : a == b :=
    (beq_iff_rank_eq (isNaN_of_isFinite ha) (isNaN_of_isFinite hb)).2 h
  exact beq_iff.2 ⟨hbound hr.xMin hs.xMin h.xMin, hbound hr.yMin hs.yMin h.yMin,
    hbound hr.xMax hs.xMax h.xMax, hbound hr.yMax hs.yMax h.yMax⟩

/-- It does not matter for the bounds which of two rectangles is merged into the other. -/
theorem merge_beq_merge {r s : Rect Float} (hr : r.IsFinite) (hs : s.IsFinite) :
    r.merge s == s.merge r := by
  obtain ⟨hx, hy, hx', hy'⟩ := rank_merge hr hs
  obtain ⟨kx, ky, kx', ky'⟩ := rank_merge hs hr
  refine beq_of_sameRanks (hr.merge hs) (hs.merge hr) ⟨?_, ?_, ?_, ?_⟩
  · rw [hx, kx, min_comm]
  · rw [hy, ky, min_comm]
  · rw [hx', kx', max_comm]
  · rw [hy', ky', max_comm]

/-- Merging a rectangle into itself changes nothing, whatever its bounds are. -/
theorem merge_self (r : Rect Float) : r.merge r = r := by
  simp only [merge, ite_self]

end Rect

namespace Envelope

variable {e f : Envelope Float}

/-- Finite envelopes are equal when their bounds have the same ranks. -/
theorem rect_beq_of_sameRanks (he : e.IsFinite) (hf : f.IsFinite)
    (h : Option.Rel Rect.SameRanks e.rect f.rect) : e.rect == f.rect := by
  cases hr : e.rect with
  | none =>
    rw [hr] at h
    cases hs : f.rect with
    | none => rfl
    | some s => rw [hs] at h; cases h
  | some r =>
    rw [hr] at h
    cases hs : f.rect with
    | none => rw [hs] at h; cases h
    | some s =>
      rw [hs] at h
      cases h with
      | some h => exact Rect.beq_of_sameRanks (he r hr) (hf s hs) h

/-- It does not matter for the bounds which of two finite envelopes is merged into the other. -/
theorem merge_beq_merge (he : e.IsFinite) (hf : f.IsFinite) : e.merge f == f.merge e := by
  have hself {r : Rect Float} (hr : r.IsFinite) : r == r :=
    Rect.beq_of_sameRanks hr hr ⟨rfl, rfl, rfl, rfl⟩
  rcases e with ⟨_ | r⟩ <;> rcases f with ⟨_ | s⟩
  · rfl
  · exact hself (hf s rfl)
  · exact hself (he r rfl)
  · exact Rect.merge_beq_merge (he r rfl) (hf s rfl)

/-- Merging an envelope into itself changes nothing, bounds that are not numbers included. -/
theorem merge_self (e : Envelope Float) : e.merge e = e := by
  rcases e with ⟨_ | r⟩
  · rfl
  · simp only [merge, Rect.merge_self]

/-- The rectangle around points is that of the envelope which is widened to them one by one. -/
theorem rect_foldl_insert (points : List (Point Float)) :
    (points.foldl insert empty).rect = Rect.ofPoints? points := by
  have hsome (rest : List (Point Float)) (r : Rect Float) :
      (rest.foldl insert { rect := some r }).rect =
        some (rest.foldl (fun r p => r.merge (Rect.ofPoint p)) r) := by
    induction rest generalizing r with
    | nil => rfl
    | cons p rest ih => exact ih _
  cases points with
  | nil => rfl
  | cons first rest => exact hsome rest (.ofPoint first)

/-- Widening to points in another order gives the same bounds. -/
theorem foldl_insert_beq_of_perm {points others : List (Point Float)}
    (hfin : ∀ p ∈ points, p.isFinite) (h : points.Perm others) :
    (points.foldl insert empty).rect == (others.foldl insert empty).rect := by
  have hfin' : ∀ p ∈ others, p.isFinite := fun p hp => hfin p (h.mem_iff.2 hp)
  exact rect_beq_of_sameRanks (isFinite_foldl_insert hfin) (isFinite_foldl_insert hfin')
    ((isTight_foldl_insert hfin).sameRanks (isTight_foldl_insert hfin') hfin fun _ => h.mem_iff)

/-- The envelope of a collection is merged from those of its members. -/
theorem ofGeometry_collection {members : List (Geometry Float)}
    (hfin : (Geometry.collection members).isFinite) :
    ofGeometry (.collection members) = (members.map ofGeometry).foldl merge empty := by
  rw [ofGeometry, expand_collection, List.foldl_map]
  refine List.foldl_ext _ _ _ fun e member hmember => expand_eq_merge e ?_
  rw [Geometry.isFinite_iff, Geometry.points_collection] at hfin
  exact Geometry.isFinite_iff.2 fun p hp => hfin p (List.mem_flatMap.2 ⟨member, hmember, hp⟩)

end Envelope

/-! ## Putting together -/

/-- How an envelope is put together. -/
inductive Assembly where
  | empty
  | insert (part : Assembly) (p : Point Float)
  | expand (part : Assembly) (g : Geometry Float)
  | merge (part other : Assembly)

namespace Assembly

/-- The envelope. -/
def envelope : Assembly → Envelope Float
  | empty => .empty
  | insert part p => part.envelope.insert p
  | expand part g => part.envelope.expand g
  | merge part other => part.envelope.merge other.envelope

/-- All points that go into it, in the order in which they are added. -/
def points : Assembly → List (Point Float)
  | empty => []
  | insert part p => part.points ++ [p]
  | expand part g => part.points ++ g.points
  | merge part other => part.points ++ other.points

/-- Every point is finite. -/
def IsFinite (a : Assembly) : Prop := ∀ p ∈ a.points, p.isFinite

/-- The envelope is the one that is widened to all points one by one. -/
theorem envelope_eq {a : Assembly} (h : a.IsFinite) :
    a.envelope = a.points.foldl Envelope.insert .empty := by
  induction a with
  | empty => rfl
  | insert part p ih =>
    obtain ⟨hpart, -⟩ := List.forall_mem_append.1 h
    rw [envelope, points, List.foldl_concat, ih hpart]
  | expand part g ih =>
    obtain ⟨hpart, -⟩ := List.forall_mem_append.1 h
    rw [envelope, points, List.foldl_append, ih hpart, Envelope.expand]
  | merge part other ih ih' =>
    obtain ⟨hpart, hother⟩ := List.forall_mem_append.1 h
    rw [envelope, points, List.foldl_append, ih hpart, ih' hother,
      ← Envelope.foldl_insert_eq_merge _ hother]

/-- The envelope that is put together from finite points has finite bounds. -/
theorem isFinite_envelope {a : Assembly} (h : a.IsFinite) : a.envelope.IsFinite := by
  rw [envelope_eq h]
  exact Envelope.isFinite_foldl_insert h

/-- The rectangle is that around the points, in any order. -/
theorem rect_beq_ofPoints? {a : Assembly} (h : a.IsFinite) {points : List (Point Float)}
    (hperm : a.points.Perm points) : a.envelope.rect == Rect.ofPoints? points := by
  rw [envelope_eq h, ← Envelope.rect_foldl_insert]
  exact Envelope.foldl_insert_beq_of_perm h hperm

/-- What is put together from the same points is the same. -/
theorem beq_of_perm {a b : Assembly} (h : a.IsFinite) (hperm : a.points.Perm b.points) :
    a.envelope == b.envelope := by
  have hb : b.IsFinite := fun p hp => h p (hperm.mem_iff.2 hp)
  rw [envelope_eq h, envelope_eq hb]
  exact Envelope.foldl_insert_beq_of_perm h hperm

/-- Putting finite envelopes together depends on the points only, up to the sign of zeros: neither
on their order nor on how they are split into geometries and partial envelopes, and the rectangle is
that around the points. Merging is commutative up to the sign of zeros, and it is associative and
idempotent with the envelope of nothing as its neutral element; the envelope of a collection is
merged from those of its members. -/
theorem envelope_isIndependent :
    (∀ a b : Assembly, a.IsFinite → a.points.Perm b.points → a.envelope == b.envelope) ∧
      (∀ (a : Assembly) (points : List (Point Float)), a.IsFinite → a.points.Perm points →
        a.envelope.IsFinite ∧ a.envelope.rect == Rect.ofPoints? points) ∧
      (∀ e f : Envelope Float, e.IsFinite → f.IsFinite → e.merge f == f.merge e) ∧
      (∀ e f g : Envelope Float, f.IsFinite → (e.merge f).merge g = e.merge (f.merge g)) ∧
      (∀ e : Envelope Float, e.merge e = e ∧ e.merge .empty = e ∧ Envelope.empty.merge e = e) ∧
      ∀ members : List (Geometry Float), (Geometry.collection members).isFinite →
        Envelope.ofGeometry (.collection members) =
          (members.map Envelope.ofGeometry).foldl Envelope.merge .empty :=
  ⟨fun _ _ => beq_of_perm,
    fun _ _ h hperm => ⟨isFinite_envelope h, rect_beq_ofPoints? h hperm⟩,
    fun _ _ => Envelope.merge_beq_merge,
    fun e _ g hf => Envelope.merge_assoc e hf g,
    fun e => ⟨e.merge_self, e.merge_empty, e.empty_merge⟩,
    fun _ => Envelope.ofGeometry_collection⟩

/-- Two orders of the same points, one of them split in two: the envelopes are equal, though the
zeros in them have different signs, and they can be merged in any way. -/
theorem envelope_isIndependent_zeros :
    let p : Point Float := ⟨0.0, 1.0, none⟩
    let q : Point Float := ⟨-0.0, 2.0, some 3.0⟩
    let a := (empty.insert p).insert q
    let b := (empty.insert q).merge (empty.expand (.multiPoint [p]))
    a.IsFinite ∧ a.points.Perm b.points ∧ a.envelope == b.envelope ∧
      a.envelope.rect.map (·.xMin.toBits) ≠ b.envelope.rect.map (·.xMin.toBits) ∧
      a.envelope.rect == Rect.ofPoints? [q, p] ∧
      a.envelope.merge b.envelope == b.envelope.merge a.envelope ∧
      (a.envelope.merge b.envelope).merge a.envelope =
        a.envelope.merge (b.envelope.merge a.envelope) ∧
      Envelope.ofGeometry (.collection [.point p, .multiPoint [q]]) =
        ([.point p, .multiPoint [q]].map Envelope.ofGeometry).foldl Envelope.merge .empty := by
  intro p q a b
  obtain ⟨hperms, hrects, hswap, hassoc, -, hcollection⟩ := envelope_isIndependent
  have hfinite : a.IsFinite := by
    intro r hr
    rcases List.mem_pair.1 hr with rfl | rfl <;> decide +kernel
  have hperm : a.points.Perm b.points := .swap q p []
  have hfinite' : b.IsFinite := fun r hr => hfinite r (hperm.mem_iff.2 hr)
  have ha := hrects a _ hfinite (.refl _)
  have hb := hrects b _ hfinite' (.refl _)
  refine ⟨hfinite, hperm, hperms a b hfinite hperm, by decide +kernel, ?_, ?_, ?_, ?_⟩
  · exact (hrects a [q, p] hfinite hperm).2
  · exact hswap _ _ ha.1 hb.1
  · exact hassoc _ _ _ hb.1
  · exact hcollection _ (by decide +kernel)

end Assembly

end Cartouche
