import Mathlib.Data.List.Induction
import Cartouche.Proofs.Plane.Bounds

/-!
# Widening and merging

An envelope is widened to a geometry point by point, in the order of the points. The result is the
same as merging it once with the envelope of the geometry (`Envelope.expand_eq_merge`): merging can
be rearranged (`Rect.merge_assoc`) as long as the one in the middle is finite. The envelope that is
widened may have any bounds, infinite or undefined ones included.
-/

namespace Cartouche

open Binary64 (isNaN_of_isFinite)

/-- The better one of three, from the front and from the back. -/
theorem better_assoc {α : Type u} (better : α → α → Prop) [DecidableRel better] {a b c : α}
    (htrans : better a b → better b c → better a c)
    (hbetween : better a c → better a b ∨ better b c) :
    (if better (if better a b then a else b) c then if better a b then a else b else c) =
      if better a (if better b c then b else c) then a else if better b c then b else c := by
  by_cases hab : better a b <;> by_cases hbc : better b c <;> by_cases hac : better a c <;>
    simp_all

namespace Rect

/-- Three rectangles are merged in any grouping when the one in the middle is finite. -/
theorem merge_assoc (r : Rect Float) {s : Rect Float} (hs : s.IsFinite) (t : Rect Float) :
    (r.merge s).merge t = r.merge (s.merge t) := by
  have lesser (a : Float) {b c : Float} (hb : b.isFinite) :=
    better_assoc (fun x y : Float => x < y) (a := a) (b := b) (c := c) Binary64.lt_trans
      fun h => Binary64.lt_or_lt_of_lt h (isNaN_of_isFinite hb)
  have greater (a : Float) {b c : Float} (hb : b.isFinite) :=
    better_assoc (fun x y : Float => y < x) (a := a) (b := b) (c := c)
      (fun h₁ h₂ => Binary64.lt_trans h₂ h₁)
      fun h => (Binary64.lt_or_lt_of_lt h (isNaN_of_isFinite hb)).symm
  simp only [merge, Rect.mk.injEq]
  exact ⟨lesser r.xMin hs.xMin, lesser r.yMin hs.yMin, greater r.xMax hs.xMax,
    greater r.yMax hs.yMax⟩

end Rect

namespace Envelope

/-- All bounds are finite, if there are any. -/
def IsFinite (e : Envelope Float) : Prop := ∀ r, e.rect = some r → r.IsFinite

/-- What was widened to finite points, starting from nothing, is finite. -/
theorem isFinite_foldl_insert {points : List (Point Float)} (hfin : ∀ p ∈ points, p.isFinite) :
    (points.foldl insert empty).IsFinite :=
  fun _ hr => (isTight_foldl_insert hfin).isFinite hfin hr

/-- Three envelopes are merged in any grouping when the one in the middle is finite. -/
theorem merge_assoc (e : Envelope Float) {f : Envelope Float} (hf : f.IsFinite)
    (g : Envelope Float) : (e.merge f).merge g = e.merge (f.merge g) := by
  rcases e with ⟨_ | r⟩ <;> rcases f with ⟨_ | s⟩ <;> rcases g with ⟨_ | t⟩ <;> try rfl
  simp only [merge, Rect.merge_assoc r (hf s rfl) t]

/-- Widening to finite points one after the other is merging with the envelope of the points. -/
theorem foldl_insert_eq_merge (e : Envelope Float) {points : List (Point Float)}
    (hfin : ∀ p ∈ points, p.isFinite) :
    points.foldl insert e = e.merge (points.foldl insert empty) := by
  induction points using List.reverseRecOn with
  | nil => simp
  | append_singleton points p ih =>
    have hpoints : ∀ q ∈ points, q.isFinite := fun q hq => hfin q (by simp [hq])
    calc (points ++ [p]).foldl insert e
        = (e.merge (points.foldl insert empty)).merge { rect := some (.ofPoint p) } := by
          rw [List.foldl_append, ih hpoints]
          rfl
      _ = e.merge ((points.foldl insert empty).merge { rect := some (.ofPoint p) }) :=
          merge_assoc e (isFinite_foldl_insert hpoints) _
      _ = e.merge ((points ++ [p]).foldl insert empty) := by
          rw [List.foldl_append]
          rfl

/-- Widening to a finite geometry is merging with its envelope. -/
theorem expand_eq_merge (e : Envelope Float) {g : Geometry Float} (h : g.isFinite) :
    e.expand g = e.merge (ofGeometry g) :=
  foldl_insert_eq_merge e (Geometry.isFinite_iff.1 h)

end Envelope

end Cartouche
