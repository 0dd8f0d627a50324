import Cartouche.Proofs.Number.Magnitude
import Cartouche.Proofs.Plane.Bounds
import Cartouche.Proofs.Plane.Path

/-!
# The extent of vectors and segments

What is computed from points within bounds is within bounds: vectors componentwise, segments by
their lengths and the points on them. The length of a segment is a number that is not negative
(`Segment.isNonneg_length`). It is infinite when the ends are too far apart, but where it is finite
every point between the ends is finite too, wherever the ends are (`isFinite_between`).
-/

namespace Cartouche

open Binary64

/-! ## Vectors -/

/-- Both components are within a bound. -/
structure Offset.IsWithin (u : Offset Float) (e : Nat) : Prop where
  dx : Binary64.IsWithin u.dx e
  dy : Binary64.IsWithin u.dy e

/-- Both coordinates in the plane are within a bound. -/
structure Point.IsWithin (p : Point Float) (e : Nat) : Prop where
  x : Binary64.IsWithin p.x e
  y : Binary64.IsWithin p.y e

namespace Offset.IsWithin

variable {u v : Offset Float} {c : Float} {d e : Nat}

/-- A vector within a bound is within every larger one. -/
theorem mono (h : u.IsWithin d) (hle : d ≤ e) : u.IsWithin e := ⟨h.dx.mono hle, h.dy.mono hle⟩

/-- The vector without length is within every bound, so a sum may start with it. -/
theorem zero (e : Nat) : (Offset.zero : Offset Float).IsWithin e :=
  ⟨isWithin_zero e, isWithin_zero e⟩

/-- A sum of two vectors takes one more power of two, and is finite as long as this is in the range
of doubles. -/
theorem add (hu : u.IsWithin e) (hv : v.IsWithin e) (he : e + 1 < 1024) :
    (u + v).IsWithin (e + 1) :=
  ⟨hu.dx.add hv.dx he, hu.dy.add hv.dy he⟩

/-- Once the bound of a sum is `2 ^ 53` times that of its terms, another term leaves the sum within
it. So sums of any number of vectors stay within bounds. -/
theorem add_small (hu : u.IsWithin (e + 53)) (hv : v.IsWithin e) (he : e + 53 < 1024) :
    (u + v).IsWithin (e + 53) :=
  ⟨hu.dx.add_small hv.dx he, hu.dy.add_small hv.dy he⟩

/-- Taking away a small vector leaves the bound as it is, too. -/
theorem sub_small (hu : u.IsWithin (e + 53)) (hv : v.IsWithin e) (he : e + 53 < 1024) :
    (u - v).IsWithin (e + 53) :=
  ⟨hu.dx.sub_small hv.dx he, hu.dy.sub_small hv.dy he⟩

/-- The opposite of a vector is within the same bounds. -/
theorem neg (hu : u.IsWithin e) : (-u).IsWithin e := ⟨hu.dx.neg, hu.dy.neg⟩

/-- Stretching a vector multiplies the bounds of the vector and of the factor. -/
theorem scale (hu : u.IsWithin d) (hc : Binary64.IsWithin c e) (he : d + e < 1024) :
    (u.scale c).IsWithin (d + e) :=
  ⟨hu.dx.mul hc he, hu.dy.mul hc he⟩

/-- Division enlarges the bound as much as the divisor may be below one. A divisor that is not far
from zero is what keeps the quotient finite. -/
theorem divide (hu : u.IsWithin e) (hc : c.isFinite)
    (hlow : (2 : ℚ) ^ (-(d : Int)) ≤ value (sizeBits c)) (he : e + d < 1024) :
    (u.divide c).IsWithin (e + d) :=
  ⟨hu.dx.div hc hlow he, hu.dy.div hc hlow he⟩

/-- Division by a count does not enlarge the bound. -/
theorem divide_ofNat (hu : u.IsWithin e) (he : e < 1024) {n : Nat} (hn : 0 < n) :
    (u.divide (Scalar.ofNat n)).IsWithin e :=
  ⟨hu.dx.div_ofNat he hn, hu.dy.div_ofNat he hn⟩

end Offset.IsWithin

/-! ## Points -/

namespace Point

variable {p q : Point Float} {e : Nat}

/-- A point within a bound is within every larger one. -/
theorem IsWithin.mono {d : Nat} (h : p.IsWithin d) (hle : d ≤ e) : p.IsWithin e :=
  ⟨h.x.mono hle, h.y.mono hle⟩

/-- The vector from the origin to a point is within the bounds of the point. -/
theorem IsWithin.toOffset (h : p.IsWithin e) : p.toOffset.IsWithin e := ⟨h.x, h.y⟩

/-- The vector between two points takes one more power of two than the points. -/
theorem IsWithin.sub (hp : p.IsWithin e) (hq : q.IsWithin e) (he : e + 1 < 1024) :
    (p.sub q).IsWithin (e + 1) :=
  ⟨hp.x.sub hq.x he, hp.y.sub hq.y he⟩

/-- A point of the plane is finite when its coordinates are. -/
theorem isFinite_mk {x y : Float} (hx : x.isFinite) (hy : y.isFinite) :
    ({ x, y } : Point Float).isFinite := by
  simp only [Point.isFinite, Bool.and_eq_true]
  exact ⟨⟨hx, hy⟩, rfl⟩

/-- The elevation, if there is one, is far from the end of the range. -/
def HasLowElevation (p : Point Float) : Prop := ∀ z, p.z = some z → Binary64.IsWithin z 1021

end Point

/-! ## Points between others -/

/-- A value between two others is within their bounds, but for the rounding. -/
theorem Binary64.IsWithin.between {a b c : Float} {e : Nat} (ha : Binary64.IsWithin a e)
    (hb : Binary64.IsWithin b e) (hc : Binary64.IsWithin c 0) (he : e + 2 < 1024) :
    Binary64.IsWithin (a + (b - a) * c) (e + 2) := by
  have hway : Binary64.IsWithin ((b - a) * c) (e + 1) := (hb.sub ha (by omega)).mul hc (by omega)
  exact (ha.mono (Nat.le_succ e)).add hway he

/-- A value between two others is finite when they are, if they are not too far apart. -/
theorem isFinite_between {a b c : Float} (ha : a.isFinite) (hb : b.isFinite)
    (hway : Binary64.IsWithin (a - b) 512) (hc : Binary64.IsWithin c 0) :
    (a + (b - a) * c).isFinite := by
  have hsize : sizeBits (b - a) = sizeBits (a - b) := by
    rw [(sub_spec hb ha).2, (sub_spec ha hb).2, abs_sub_comm]
  have hscaled := (hway.congr hsize).mul hc (by omega)
  exact isFinite_add_of_isWithin ha (hscaled.mono (by omega))

namespace Segment

variable {s : Segment Float} {e : Nat}

/-- The point at a fraction of the way is finite when the length is, the elevations are low and the
fraction is one. -/
theorem isFinite_pointAt {c : Float} (hstart : s.start.isFinite) (hstop : s.stop.isFinite)
    (hlow : s.start.HasLowElevation) (hlow' : s.stop.HasLowElevation)
    (hx : Binary64.IsWithin (s.start.x - s.stop.x) 512)
    (hy : Binary64.IsWithin (s.start.y - s.stop.y) 512) (hc : Binary64.IsWithin c 0) :
    (s.pointAt c).isFinite := by
  obtain ⟨hsx, hsy⟩ := Point.isFinite_x_y hstart
  obtain ⟨htx, hty⟩ := Point.isFinite_x_y hstop
  simp only [pointAt, Point.lerp, Point.isFinite, Bool.and_eq_true]
  refine ⟨⟨isFinite_between hsx htx hx hc, isFinite_between hsy hty hy hc⟩, ?_⟩
  cases hz : s.start.z with
  | none => rfl
  | some z =>
    cases hz' : s.stop.z with
    | none => rfl
    | some z' => exact ((hlow z hz).between (hlow' z' hz') hc (by omega)).isFinite

/-- The middle of a segment is as far out as its ends, but for the room that the difference of the
ends and the rounding need. -/
theorem isWithin_midpoint (hstart : s.start.IsWithin e) (hstop : s.stop.IsWithin e)
    (he : e + 2 < 1024) : s.midpoint.IsWithin (e + 2) := by
  have hhalf : Binary64.IsWithin (Float.ofNat 1 / Float.ofNat 2) 0 :=
    (isWithin_ofNat (by norm_num) (by omega)).div_ofNat (by omega) two_pos
  exact ⟨hstart.x.between hstop.x hhalf he, hstart.y.between hstop.y hhalf he⟩

/-! ## Lengths -/

/-- The length of a segment is a number that is not negative. Unless it is zero it is not less than
`2 ^ -537`; where it is finite the ends are not too far apart. -/
theorem isNonneg_length (hstart : s.start.isFinite) (hstop : s.stop.isFinite) :
    IsNonneg s.length ∧ (sizeBits s.length = 0 ∨ powerBits (-537) ≤ sizeBits s.length) ∧
      (s.length.isFinite → Binary64.IsWithin (s.start.x - s.stop.x) 512 ∧
        Binary64.IsWithin (s.start.y - s.stop.y) 512) := by
  obtain ⟨hsx, hsy⟩ := Point.isFinite_x_y hstart
  obtain ⟨htx, hty⟩ := Point.isFinite_x_y hstop
  obtain ⟨hdx, hfarX⟩ := isNonneg_mul_self (sizeBits_sub_le hsx htx)
  obtain ⟨hdy, hfarY⟩ := isNonneg_mul_self (sizeBits_sub_le hsy hty)
  obtain ⟨hsq, hleX, hleY⟩ := hdx.add hdy
  obtain ⟨hlength, hfinite, hleast, -⟩ := hsq.sqrt
  refine ⟨hlength, hleast, fun h => ?_⟩
  have hsquare := (isFinite_iff _).1 (hfinite h)
  exact ⟨hfarX ((isFinite_iff _).2 (hleX.trans_lt hsquare)),
    hfarY ((isFinite_iff _).2 (hleY.trans_lt hsquare))⟩

/-- The length of a segment between points within a bound. Its square needs twice the room on the
way, which the root gives back. -/
theorem isWithin_length (hstart : s.start.IsWithin e) (hstop : s.stop.IsWithin e)
    (he : 2 * e + 4 < 1024) : Binary64.IsWithin s.length (e + 2) := by
  have hway := hstart.sub hstop (by omega)
  have hsq := (hway.dx.mul hway.dx (by omega)).add (hway.dy.mul hway.dy (by omega)) (by omega)
  have hx := (isNonneg_mul_self ((isFinite_iff _).1 hway.dx.isFinite).le).1
  have hy := (isNonneg_mul_self ((isFinite_iff _).1 hway.dy.isFinite).le).1
  obtain ⟨-, -, -, hroot⟩ := (hx.add hy).1.sqrt
  exact hroot (by omega) (hsq.mono (by omega))

end Segment

end Cartouche
