import Mathlib.Data.List.Basic
import Cartouche.Proofs.Plane.Envelope

/-!
# What an envelope keeps

An envelope is widened to points, to geometries and to other envelopes, which is to show it
rectangles one after the other (`Envelope.widen_eq`). On each side it keeps the outermost bound it
was shown, but a bound that is not a number takes the place of all bounds before it, and the next
one takes its place in turn (`Side.reaches_cover_iff`). So on each side an envelope reaches as far
as what it was shown since the last bound that was not a number (`Side.reaches_foldl_cover_iff`). As
long as there is none, infinite bounds included, nothing is lost that an envelope contains or is
shown; otherwise `Keeps` says what remains (`Envelope.contains_foldl_widen`).
-/

namespace Cartouche

/-! ## Comparing with what is not a number -/

namespace Binary64

/-- The lesser one of two bounds, the second one if they are not related, is at most a value when
the second one is a number and one of them is at most the value. -/
theorem lesser_le_iff {a b v : Float} :
    (if a < b then a else b) ≤ v ↔ b.isNaN = false ∧ (a ≤ v ∨ b ≤ v) := by
  constructor
  · intro h
    split at h
    · next hlt => exact ⟨(isNaN_of_lt hlt).2, .inl h⟩
    · exact ⟨(isNaN_of_le h).1, .inr h⟩
  · rintro ⟨hb, h⟩
    have hv : v.isNaN = false := h.elim (fun h => (isNaN_of_le h).2) fun h => (isNaN_of_le h).2
    split
    · next hlt =>
      have ha := (isNaN_of_lt hlt).1
      rw [lt_iff_rank_lt ha hb] at hlt
      rw [le_iff_rank_le ha hv, le_iff_rank_le hb hv] at h
      rw [le_iff_rank_le ha hv]
      omega
    · next hlt =>
      refine h.elim (fun h => ?_) id
      have ha := (isNaN_of_le h).1
      rw [lt_iff_rank_lt ha hb] at hlt
      rw [le_iff_rank_le ha hv] at h
      rw [le_iff_rank_le hb hv]
      omega

/-- The same for the greater one of two bounds. -/
theorem le_greater_iff {a b v : Float} :
    v ≤ (if b < a then a else b) ↔ b.isNaN = false ∧ (v ≤ a ∨ v ≤ b) := by
  constructor
  · intro h
    split at h
    · next hlt => exact ⟨(isNaN_of_lt hlt).1, .inl h⟩
    · exact ⟨(isNaN_of_le h).2, .inr h⟩
  · rintro ⟨hb, h⟩
    have hv : v.isNaN = false := h.elim (fun h => (isNaN_of_le h).1) fun h => (isNaN_of_le h).1
    split
    · next hlt =>
      have ha := (isNaN_of_lt hlt).2
      rw [lt_iff_rank_lt hb ha] at hlt
      rw [le_iff_rank_le hv ha, le_iff_rank_le hv hb] at h
      rw [le_iff_rank_le hv ha]
      omega
    · next hlt =>
      refine h.elim (fun h => ?_) id
      have ha := (isNaN_of_le h).2
      rw [lt_iff_rank_lt hb ha] at hlt
      rw [le_iff_rank_le hv ha] at h
      rw [le_iff_rank_le hv hb]
      omega

end Binary64

/-! ## The sides of rectangles -/

/-- A side of a rectangle. -/
inductive Side where
  | left
  | bottom
  | right
  | top

namespace Side

variable {side : Side}

/-- The bound on the side. -/
def bound (side : Side) (r : Rect Float) : Float :=
  match side with
  | left => r.xMin
  | bottom => r.yMin
  | right => r.xMax
  | top => r.yMax

/-- The coordinate of a point that the bound limits. -/
def coordinate (side : Side) (p : Point Float) : Float :=
  match side with
  | left | right => p.x
  | bottom | top => p.y

/-- A coordinate does not lie beyond a bound. -/
def Reaches (side : Side) (bound coordinate : Float) : Prop :=
  match side with
  | left | bottom => bound ≤ coordinate
  | right | top => coordinate ≤ bound

/-- What is compared is a number: a bound that is not a number reaches nothing. -/
theorem isNaN_of_reaches {a v : Float} (h : side.Reaches a v) :
    a.isNaN = false ∧ v.isNaN = false := by
  cases side with
  | left | bottom => exact Binary64.isNaN_of_le h
  | right | top => exact (Binary64.isNaN_of_le h).symm

/-- A number does not lie beyond itself. -/
theorem reaches_self {v : Float} (h : v.isNaN = false) : side.Reaches v v := by
  have hle : v ≤ v := (Binary64.le_iff_rank_le h h).2 le_rfl
  cases side <;> exact hle

/-- A merged rectangle reaches a coordinate when one of the two does, unless the second one is
undefined on this side. -/
theorem reaches_merge_iff {r s : Rect Float} {v : Float} :
    side.Reaches (side.bound (r.merge s)) v ↔
      (side.bound s).isNaN = false ∧ (side.Reaches (side.bound r) v ∨ side.Reaches (side.bound s) v)
      := by
  cases side with
  | left | bottom => exact Binary64.lesser_le_iff
  | right | top => exact Binary64.le_greater_iff

end Side

namespace Rect

/-- No bound is undefined. -/
def IsDefined (r : Rect Float) : Prop := ∀ side : Side, (side.bound r).isNaN = false

/-- A point lies in a rectangle when it does not lie beyond any of the sides. -/
theorem contains_iff_reaches {r : Rect Float} {p : Point Float} :
    r.contains p ↔ ∀ side : Side, side.Reaches (side.bound r) (side.coordinate p) := by
  simp only [contains, Bool.and_eq_true, decide_eq_true_eq]
  constructor
  · rintro ⟨⟨⟨hleft, hright⟩, hbottom⟩, htop⟩ side
    cases side
    · exact hleft
    · exact hbottom
    · exact hright
    · exact htop
  · intro h
    exact ⟨⟨⟨h .left, h .right⟩, h .bottom⟩, h .top⟩

/-- A rectangle that contains a point at all has four bounds that are numbers. -/
theorem isDefined_of_contains {r : Rect Float} {p : Point Float} (h : r.contains p) :
    r.IsDefined :=
  fun side => (Side.isNaN_of_reaches (contains_iff_reaches.1 h side)).1

/-- A point lies in its own rectangle, unless one of its coordinates is not a number. -/
theorem contains_ofPoint_iff {p : Point Float} : (ofPoint p).contains p ↔ (ofPoint p).IsDefined := by
  refine ⟨isDefined_of_contains, fun h => contains_iff_reaches.2 fun side => ?_⟩
  have hbound : side.bound (ofPoint p) = side.coordinate p := by cases side <;> rfl
  have hside := h side
  rw [hbound] at hside ⊢
  exact Side.reaches_self hside

end Rect

/-! ## One rectangle after the other -/

namespace Envelope

/-- The envelope widened to a rectangle. -/
def cover (e : Envelope Float) (s : Rect Float) : Envelope Float := e.merge { rect := some s }

end Envelope

namespace Side

variable {side : Side} {e : Envelope Float} {v : Float}

/-- An envelope reaches a coordinate on the side. -/
def ReachesFrom (side : Side) (e : Envelope Float) (v : Float) : Prop :=
  ∃ r, e.rect = some r ∧ side.Reaches (side.bound r) v

/-- What has been shown since a bound on the side was last undefined, the last rectangle first. -/
def sinceUndefined (side : Side) (shown : List (Rect Float)) : List (Rect Float) :=
  shown.reverse.takeWhile fun s => !(side.bound s).isNaN

/-- One more rectangle counts from now on, unless its bound is undefined: then nothing counts that
was shown before it, nor it. -/
theorem sinceUndefined_concat (shown : List (Rect Float)) (s : Rect Float) :
    side.sinceUndefined (shown ++ [s]) =
      if (side.bound s).isNaN then [] else s :: side.sinceUndefined shown := by
  unfold sinceUndefined
  rw [List.reverse_append, List.reverse_singleton, List.singleton_append, List.takeWhile_cons]
  cases (side.bound s).isNaN <;> rfl

/-- After one rectangle: it reaches the coordinate itself, or the envelope did before and the bound
of the rectangle is a number. -/
theorem reaches_cover_iff {s : Rect Float} :
    side.ReachesFrom (e.cover s) v ↔
      (side.bound s).isNaN = false ∧
        (side.ReachesFrom e v ∨ side.Reaches (side.bound s) v) := by
  obtain ⟨_ | r⟩ := e
  · constructor
    · rintro ⟨_, hr, h⟩
      cases hr
      exact ⟨(isNaN_of_reaches h).1, .inr h⟩
    · rintro ⟨-, ⟨_, hr, -⟩ | h⟩
      · cases hr
      · exact ⟨s, rfl, h⟩
  · constructor
    · rintro ⟨_, hr, h⟩
      cases hr
      obtain ⟨hs, h⟩ := reaches_merge_iff.1 h
      exact ⟨hs, h.imp_left fun h => ⟨r, rfl, h⟩⟩
    · rintro ⟨hs, h⟩
      refine ⟨r.merge s, rfl, reaches_merge_iff.2 ⟨hs, h.imp_left ?_⟩⟩
      rintro ⟨_, hr, h⟩
      cases hr
      exact h

/-- After any number of rectangles: one that was shown since a bound was last undefined reaches the
coordinate, or there was no such bound and the envelope did at the start. -/
theorem reaches_foldl_cover_iff {shown : List (Rect Float)} :
    side.ReachesFrom (shown.foldl Envelope.cover e) v ↔
      ((∀ s ∈ shown, (side.bound s).isNaN = false) ∧ side.ReachesFrom e v) ∨
        ∃ s ∈ side.sinceUndefined shown, side.Reaches (side.bound s) v := by
  induction shown using List.reverseRecOn with
  | nil => simp [sinceUndefined]
  | append_singleton shown s ih =>
    rw [List.foldl_concat, reaches_cover_iff, ih, sinceUndefined_concat, List.forall_mem_append,
      List.forall_mem_singleton]
    cases hs : (side.bound s).isNaN with
    | true =>
      -- Nothing that was shown before counts any more, and the bound itself reaches nothing.
      simp
    | false =>
      rw [if_neg Bool.false_ne_true, List.exists_mem_cons_iff, and_iff_left rfl, and_iff_right rfl,
        or_assoc]
      exact or_congr_right or_comm

end Side

/-- A point that an envelope contains is still contained after more rectangles: on each side their
bounds are numbers, or one that was shown since the last bound that was not reaches the point. -/
def Keeps (shown : List (Rect Float)) (p : Point Float) : Prop :=
  ∀ side : Side, (∀ s ∈ shown, (side.bound s).isNaN = false) ∨
    ∃ s ∈ side.sinceUndefined shown, side.Reaches (side.bound s) (side.coordinate p)

/-- Where nothing is undefined, everything is kept. -/
theorem keeps_of_isDefined {shown : List (Rect Float)} (h : ∀ s ∈ shown, s.IsDefined)
    (p : Point Float) : Keeps shown p :=
  fun side => .inl fun s hs => h s hs side

namespace Envelope

/-- An envelope contains a point when it reaches it on each side. So the sides can be followed one
by one. -/
theorem contains_iff_reachesFrom {e : Envelope Float} {p : Point Float} :
    e.contains p ↔ ∀ side : Side, side.ReachesFrom e (side.coordinate p) := by
  unfold contains Side.ReachesFrom
  cases e.rect with
  | none => simpa using ⟨Side.left⟩
  | some r => simp [Rect.contains_iff_reaches]

/-- What becomes of a point that an envelope contains. -/
theorem contains_foldl_cover_iff {e : Envelope Float} {p : Point Float} (h : e.contains p)
    (shown : List (Rect Float)) : (shown.foldl cover e).contains p ↔ Keeps shown p := by
  rw [contains_iff_reachesFrom]
  refine forall_congr' fun side => ?_
  rw [Side.reaches_foldl_cover_iff, and_iff_left (contains_iff_reachesFrom.1 h side)]

/-- A rectangle is contained at once, whatever was shown before. -/
theorem contains_cover (e : Envelope Float) {s : Rect Float} {p : Point Float}
    (h : s.contains p) : (e.cover s).contains p := by
  refine contains_iff_reachesFrom.2 fun side => Side.reaches_cover_iff.2 ?_
  have hreaches := Rect.contains_iff_reaches.1 h side
  exact ⟨(Side.isNaN_of_reaches hreaches).1, .inr hreaches⟩

/-- What becomes of a point in one of the rectangles, with those behind it. -/
theorem contains_foldl_cover_iff_of_mem (e : Envelope Float) {before behind : List (Rect Float)}
    {s : Rect Float} {p : Point Float} (h : s.contains p) :
    ((before ++ s :: behind).foldl cover e).contains p ↔ Keeps behind p := by
  rw [List.foldl_append, List.foldl_cons]
  exact contains_foldl_cover_iff (contains_cover _ h) behind

/-! ## Widening -/

/-- A way to widen an envelope. -/
inductive Widening where
  | insert (p : Point Float)
  | expand (g : Geometry Float)
  | merge (f : Envelope Float)

/-- The widened envelope. -/
def widen (e : Envelope Float) : Widening → Envelope Float
  | .insert p => e.insert p
  | .expand g => e.expand g
  | .merge f => e.merge f

namespace Widening

/-- What an envelope is shown, rectangle by rectangle. -/
def shown : Widening → List (Rect Float)
  | insert p => [.ofPoint p]
  | expand g => g.points.map .ofPoint
  | merge f => f.rect.toList

/-- The point is added to the envelope, by itself, by a geometry or by another envelope. -/
def Adds (w : Widening) (p : Point Float) : Prop :=
  match w with
  | insert q => q = p
  | expand g => p ∈ g.points
  | merge f => f.contains p

/-- Every coordinate and every bound is a number, perhaps an infinite one. -/
def IsDefined (w : Widening) : Prop := ∀ s ∈ w.shown, s.IsDefined

/-- A point that is added is in one of the rectangles. -/
theorem exists_shown_of_adds {w : Widening} {p : Point Float} (h : w.Adds p) (hw : w.IsDefined) :
    ∃ s ∈ w.shown, s.contains p := by
  cases w with
  | insert q =>
    obtain rfl : q = p := h
    have hmem : Rect.ofPoint q ∈ (insert q).shown := List.mem_singleton_self _
    exact ⟨.ofPoint q, hmem, Rect.contains_ofPoint_iff.2 (hw _ hmem)⟩
  | expand g =>
    have hmem : Rect.ofPoint p ∈ (expand g).shown := List.mem_map_of_mem h
    exact ⟨.ofPoint p, hmem, Rect.contains_ofPoint_iff.2 (hw _ hmem)⟩
  | merge f =>
    obtain ⟨r, hr, hcontains⟩ := (Option.any_eq_true _ _).1 (show f.rect.any _ = true from h)
    exact ⟨r, by simp [shown, hr], hcontains⟩

end Widening

/-- Each way to widen an envelope shows it rectangles one after the other: a point is a rectangle, a
geometry one for each of its points. -/
theorem widen_eq (e : Envelope Float) (w : Widening) : e.widen w = w.shown.foldl cover e := by
  cases w with
  | insert p => rfl
  | expand g =>
    show g.points.foldl insert e = (g.points.map Rect.ofPoint).foldl cover e
    rw [List.foldl_map]
    rfl
  | merge f => obtain ⟨_ | s⟩ := f <;> cases e <;> rfl

/-- Any number of widenings show the envelope all their rectangles in turn. -/
theorem foldl_widen_eq (e : Envelope Float) (ws : List Widening) :
    ws.foldl widen e = (ws.flatMap Widening.shown).foldl cover e := by
  rw [List.foldl_flatMap]
  congr
  funext e w
  exact e.widen_eq w

/-- What an envelope contains after it was widened in any ways. Exactly those points remain of what
it contained that the rectangles it is shown keep, and exactly those of what it was shown that the
rectangles behind keep. These are all of them unless a bound is not a number: then no point is lost
that an envelope contains, and each one that is added is contained. -/
theorem contains_foldl_widen (e : Envelope Float) (ws : List Widening) (p : Point Float) :
    (e.contains p → ((ws.foldl widen e).contains p ↔ Keeps (ws.flatMap Widening.shown) p)) ∧
      (∀ before s behind, ws.flatMap Widening.shown = before ++ s :: behind → s.contains p →
        ((ws.foldl widen e).contains p ↔ Keeps behind p)) ∧
      (e.contains p → (∀ w ∈ ws, w.IsDefined) → (ws.foldl widen e).contains p) ∧
      ∀ before w behind, ws = before ++ w :: behind → w.Adds p →
        (∀ v ∈ w :: behind, v.IsDefined) → (ws.foldl widen e).contains p := by
  have hkeeps (ws : List Widening) (h : ∀ w ∈ ws, w.IsDefined) :
      Keeps (ws.flatMap Widening.shown) p := by
    refine keeps_of_isDefined (fun s hs => ?_) p
    obtain ⟨w, hw, hs⟩ := List.mem_flatMap.1 hs
    exact h w hw s hs
  refine ⟨fun h => ?_, fun before s behind hws h => ?_, fun h hws => ?_,
    fun before w behind hws hadds hdefined => ?_⟩
  · rw [foldl_widen_eq]
    exact contains_foldl_cover_iff h _
  · rw [foldl_widen_eq, hws]
    exact contains_foldl_cover_iff_of_mem e h
  · rw [foldl_widen_eq]
    exact (contains_foldl_cover_iff h _).2 (hkeeps ws hws)
  · obtain ⟨hw, hbehind⟩ := List.forall_mem_cons.1 hdefined
    obtain ⟨s, hs, hcontains⟩ := Widening.exists_shown_of_adds hadds hw
    obtain ⟨front, back, hsplit⟩ := List.append_of_mem hs
    have hshown : ws.flatMap Widening.shown = (before.flatMap Widening.shown ++ front) ++
        s :: (back ++ behind.flatMap Widening.shown) := by
      rw [hws, List.flatMap_append, List.flatMap_cons, hsplit]
      simp
    rw [foldl_widen_eq, hshown]
    refine (contains_foldl_cover_iff_of_mem e hcontains).2 (keeps_of_isDefined (fun t ht => ?_) p)
    rcases List.mem_append.1 ht with ht | ht
    · exact hw t (by simp [hsplit, ht])
    · obtain ⟨v, hv, ht⟩ := List.mem_flatMap.1 ht
      exact hbehind v hv t ht

/-- An envelope that is widened to a point infinitely far away still contains the first one, which
no bound of that point takes from it. -/
theorem contains_foldl_widen_infinite :
    let origin : Point Float := ⟨0.0, 0.0, none⟩
    let far : Widening := .insert ⟨1.0 / 0.0, -2.0, none⟩
    let first : Envelope Float := empty.widen (.insert origin)
    (Widening.insert origin).Adds origin ∧ (∀ v ∈ [.insert origin, far], v.IsDefined) ∧
      ([.insert origin, far].foldl widen empty).contains origin ∧
      first.contains origin ∧ ([far].foldl widen first).contains origin ∧
      Keeps far.shown origin := by
  intro origin far first
  have hdefined : ∀ v ∈ [.insert origin, far], v.IsDefined := by
    intro v hv s hs side
    rcases List.mem_pair.1 hv with rfl | rfl <;> obtain rfl := List.mem_singleton.1 hs <;>
      cases side <;> decide +kernel
  have hfirst : first.contains origin := by decide +kernel
  obtain ⟨hkeeps, -, hstays, -⟩ := contains_foldl_widen first [far] origin
  have hcontains := hstays hfirst fun v hv => hdefined v (List.mem_cons_of_mem _ hv)
  exact ⟨rfl, hdefined, (contains_foldl_widen empty [.insert origin, far] origin).2.2.2
    [] (.insert origin) [far] rfl rfl hdefined, hfirst, hcontains, (hkeeps hfirst).1 hcontains⟩

/-- A point with a coordinate that is not a number makes an envelope lose what it contained, for
later as well. -/
theorem not_contains_widen_undefined :
    let origin : Point Float := ⟨0.0, 0.0, none⟩
    let before := empty.widen (.insert origin)
    let after := before.widen (.insert ⟨0.0 / 0.0, 0.0, none⟩)
    before.contains origin ∧ ¬ after.contains origin ∧
      ¬ (after.widen (.insert ⟨5.0, 5.0, none⟩)).contains origin := by
  decide +kernel

end Envelope

end Cartouche
