import Cartouche.Context
import Cartouche.Proofs.Number.Arithmetic

/-!
# Rounding to places is monotone

A number is rounded to places by scaling it, taking the nearest integer and scaling it back, and
each of the three steps rounds to a double. Without sign this is the function `placed` on bits. Each
step is monotone, so `placed` is where both numbers can be scaled. Where they cannot, a number stays
as it is; then there is a seam between the numbers that are rounded and those that are not, and it
is monotone there too, since scaling back the largest double gives at most a number that could not
be scaled. With signs this is `RenderContext.roundNumber`, which is monotone on finite doubles
(`roundNumber_mono`) and keeps them finite (`isFinite_roundNumber`).
-/

namespace Cartouche.Binary64

/-! ## Without sign -/

/-- The bits of the integer nearest to what bits stand for. -/
def wholeBits (bits : Nat) : Nat := roundToBits ⌊value bits + 1 / 2⌋₊

/-- Bits after scaling by a factor, taking the nearest integer and scaling back; they stay as they
are when scaling leads to infinity. -/
def placed (factor : ℚ) (bits : Nat) : Nat :=
  if roundToBits (value bits * factor) < infinityBits then
    roundToBits (value (wholeBits (roundToBits (value bits * factor))) / factor)
  else
    bits

/-- Taking the nearest integer is monotone. -/
theorem wholeBits_mono {a b : Nat} (h : a ≤ b) : wholeBits a ≤ wholeBits b := by
  refine roundToBits_mono (Nat.cast_nonneg _) (Nat.cast_le.2 (Nat.floor_le_floor ?_))
  exact add_le_add (strictMono_value.monotone h) le_rfl

section

variable {factor : ℚ}

/-- Scaling is monotone, rounding included. -/
theorem scaled_mono (h : 1 ≤ factor) {a b : Nat} (hab : a ≤ b) :
    roundToBits (value a * factor) ≤ roundToBits (value b * factor) := by
  have hpos : 0 ≤ factor := zero_le_one.trans h
  exact roundToBits_mono (mul_nonneg (value_nonneg a) hpos)
    (mul_le_mul_of_nonneg_right (strictMono_value.monotone hab) hpos)

/-- Scaling back is monotone, rounding included. -/
theorem scaledBack_mono (h : 1 ≤ factor) {p q : ℚ} (hp : 0 ≤ p) (hpq : p ≤ q) :
    roundToBits (p / factor) ≤ roundToBits (q / factor) := by
  have hpos : 0 ≤ factor := zero_le_one.trans h
  exact roundToBits_mono (div_nonneg hp hpos) (div_le_div_of_nonneg_right hpq hpos)

/-- Scaling back does not make a double larger. -/
theorem scaledBack_le (h : 1 ≤ factor) {bits : Nat} (hbits : bits ≤ infinityBits) :
    roundToBits (value bits / factor) ≤ bits := by
  have hpos : 0 ≤ factor := zero_le_one.trans h
  calc roundToBits (value bits / factor) ≤ roundToBits (value bits) :=
        roundToBits_mono (div_nonneg (value_nonneg bits) hpos) (div_le_self (value_nonneg bits) h)
    _ = bits := roundToBits_value hbits

/-- A finite number stays finite. Where it could not be scaled it is left as it was, and where it
could the nearest integer is not too large to be scaled back. -/
theorem placed_lt (h : 1 ≤ factor) {bits : Nat} (hbits : bits < infinityBits) :
    placed factor bits < infinityBits := by
  unfold placed
  split
  · next hscaled =>
    exact (scaledBack_le h (roundToBits_le _)).trans_lt (roundToBits_floor_lt hscaled)
  · exact hbits

/-- Zero is at every place. -/
theorem placed_zero : placed factor 0 = 0 := by
  have hzero : roundToBits 0 = 0 := by
    rw [← value_zero, roundToBits_value (Nat.zero_le _)]
  have hwhole : wholeBits 0 = 0 := by
    have hfloor : ⌊value 0 + 1 / 2⌋₊ = 0 := by
      rw [value_zero]
      exact floor_add_half 0
    rw [wholeBits, hfloor, Nat.cast_zero, hzero]
  unfold placed
  rw [value_zero, zero_mul, hzero, hwhole, value_zero, zero_div, hzero, ite_self]

/-- Rounding to places is monotone, also between a number that can be scaled and one that cannot. -/
theorem placed_mono (h : 1 ≤ factor) {a b : Nat} (hab : a ≤ b) (hb : b < infinityBits) :
    placed factor a ≤ placed factor b := by
  have hscaled := scaled_mono h hab
  unfold placed
  by_cases hb' : roundToBits (value b * factor) < infinityBits
  · rw [if_pos (hscaled.trans_lt hb'), if_pos hb']
    exact scaledBack_mono h (value_nonneg _) (strictMono_value.monotone (wholeBits_mono hscaled))
  · rw [if_neg hb']
    by_cases ha' : roundToBits (value a * factor) < infinityBits
    · rw [if_pos ha']
      set whole := wholeBits (roundToBits (value a * factor))
      -- The integer is finite, and the scaled `b` exceeds every finite double.
      have hwhole : whole < roundToBits (value b * factor) :=
        (roundToBits_floor_lt ha').trans_le (not_lt.1 hb')
      have hvalue : value whole < value b * factor :=
        value_lt_of_lt_roundToBits
          (mul_nonneg (value_nonneg b) (zero_le_one.trans h)) hwhole
      calc roundToBits (value whole / factor) ≤ roundToBits (value b * factor / factor) :=
            scaledBack_mono h (value_nonneg whole) hvalue.le
        _ = roundToBits (value b) := by
          rw [mul_div_cancel_right₀ _ (zero_lt_one.trans_le h).ne']
        _ = b := roundToBits_value hb.le
    · rw [if_neg ha']
      exact hab

end

/-- What is monotone without sign is monotone with signs. -/
theorem signed_mono {f : Nat → Nat} (hzero : f 0 = 0) {m n : Bool} {a b : Nat}
    (hab : a ≤ b → f a ≤ f b) (hba : b ≤ a → f b ≤ f a) (h : signed m a ≤ signed n b) :
    signed m (f a) ≤ signed n (f b) := by
  cases m with
  | false =>
    cases n with
    | false =>
      simp only [signed, Bool.false_eq_true, if_false] at h ⊢
      have := hab (by omega)
      omega
    | true =>
      simp only [signed, Bool.false_eq_true, if_false, if_true] at h ⊢
      obtain rfl : a = 0 := by omega
      obtain rfl : b = 0 := by omega
      omega
  | true =>
    cases n with
    | false =>
      simp only [signed, Bool.false_eq_true, if_false, if_true]
      omega
    | true =>
      simp only [signed, if_true] at h ⊢
      have := hba (by omega)
      omega

end Cartouche.Binary64

namespace Cartouche.RenderContext

open Binary64

variable (context : RenderContext)

/-- The powers of ten by which numbers are scaled are positive finite doubles, from one upwards. -/
theorem sizeBits_power : ∀ places < 16,
    isNegative (Float.ofNat (Nat.pow 10 places)) = false ∧
      sizeBits 1.0 ≤ sizeBits (Float.ofNat (Nat.pow 10 places)) ∧
      sizeBits (Float.ofNat (Nat.pow 10 places)) < infinityBits := by
  decide +kernel

/-- The bits of one stand for one. -/
theorem value_one : value (sizeBits 1.0) = 1 := by
  have hcanonical : IsCanonical (2 ^ 52) (-52) := ⟨by omega, by omega, .inr le_rfl⟩
  have hbits : sizeBits 1.0 = bitsOf (2 ^ 52) (-52) := rfl
  rw [hbits, hcanonical.value_bitsOf]
  norm_num

/-- The number by which numbers are scaled. -/
def scale : ℚ := value (sizeBits context.factor)

/-- The factor is a power of ten, so it has no sign. -/
theorem isNegative_factor : isNegative context.factor = false :=
  (sizeBits_power _ (by omega)).1

/-- The factor is finite for every number of places: more than fifteen do not count. -/
theorem isFinite_factor : context.factor.isFinite :=
  (isFinite_iff _).2 (sizeBits_power _ (by omega)).2.2

/-- Numbers are never scaled down. -/
theorem one_le_scale : 1 ≤ context.scale := by
  rw [← value_one]
  exact strictMono_value.monotone (sizeBits_power _ (by omega)).2.1

/-- The factor is not zero, so it can be divided by. -/
theorem sizeBits_factor_pos : 0 < sizeBits context.factor := by
  rw [Nat.pos_iff_ne_zero]
  intro h
  have := context.one_le_scale
  rw [scale, h, value_zero] at this
  exact absurd this (by norm_num)

/-- The value rounded to the wanted places, whether or not it could be scaled; a zero may have a
sign. -/
def placedNumber (value : Float) : Float :=
  let rounded := roundHalfAway (value * context.factor) / context.factor
  if rounded.isFinite then rounded else value

/-- Rounding to places, with the step that drops the sign of a zero set apart. -/
theorem roundNumber_eq (value : Float) :
    context.roundNumber value =
      if context.placedNumber value == 0.0 then 0.0 else context.placedNumber value := rfl

variable {x : Float}

/-- Scaling a finite number keeps its sign and rounds the exact product. -/
theorem scaled_spec (hx : x.isFinite) :
    isNegative (x * context.factor) = isNegative x ∧
      sizeBits (x * context.factor) = roundToBits (value (sizeBits x) * context.scale) := by
  have h := mul_spec hx context.isFinite_factor
  rwa [isNegative_factor, Bool.bne_false] at h

/-- Scaling back keeps the sign and rounds the exact quotient. -/
theorem scaledBack_spec (hx : x.isFinite) :
    isNegative (x / context.factor) = isNegative x ∧
      sizeBits (x / context.factor) = roundToBits (value (sizeBits x) / context.scale) := by
  have h := div_spec hx context.isFinite_factor context.sizeBits_factor_pos
  rwa [isNegative_factor, Bool.bne_false] at h

/-- The bits of a rounded number. -/
theorem placedNumber_spec (hx : x.isFinite) :
    isNegative (context.placedNumber x) = isNegative x ∧
      sizeBits (context.placedNumber x) = placed context.scale (sizeBits x) := by
  obtain ⟨hsign, hscaled⟩ := context.scaled_spec hx
  unfold placedNumber placed
  rw [← hscaled]
  by_cases hfinite : (x * context.factor).isFinite
  · have hlt := (isFinite_iff _).1 hfinite
    obtain ⟨hwholeSign, hwhole⟩ := roundHalfAway_spec hfinite
    have hwholeLt := roundToBits_floor_lt hlt
    rw [← hwhole] at hwholeLt
    obtain ⟨hbackSign, hback⟩ :=
      context.scaledBack_spec ((isFinite_iff _).2 hwholeLt)
    have hbackFinite : (roundHalfAway (x * context.factor) / context.factor).isFinite := by
      rw [isFinite_iff, hback]
      exact (scaledBack_le context.one_le_scale hwholeLt.le).trans_lt hwholeLt
    rw [if_pos hbackFinite, if_pos hlt, wholeBits, ← hwhole, ← hback]
    exact ⟨hbackSign.trans (hwholeSign.trans hsign), rfl⟩
  · have hlt := mt (isFinite_iff _).2 hfinite
    have hinfinite : sizeBits (x * context.factor) = infinityBits :=
      le_antisymm (hscaled ▸ roundToBits_le _) (not_lt.1 hlt)
    have hback := sizeBits_div_of_infinite hinfinite context.isFinite_factor
      context.sizeBits_factor_pos
    have hbackInfinite : ¬ (x * context.factor / context.factor).isFinite := by
      rw [isFinite_iff, hback]
      exact lt_irrefl _
    rw [roundHalfAway_of_not_isFinite (Bool.eq_false_iff.2 hfinite), if_neg hbackInfinite,
      if_neg hlt]
    exact ⟨rfl, rfl⟩

/-- The place of a rounded number; a zero has no sign, but that does not move it. -/
theorem rank_roundNumber (hx : x.isFinite) :
    (context.roundNumber x).isFinite ∧
      rank (context.roundNumber x) = signed (isNegative x) (placed context.scale (sizeBits x)) := by
  obtain ⟨hsign, hplaced⟩ := context.placedNumber_spec hx
  have hfinite : (context.placedNumber x).isFinite := by
    rw [isFinite_iff, hplaced]
    exact placed_lt context.one_le_scale ((isFinite_iff _).1 hx)
  have hrank : rank (context.placedNumber x) =
      signed (isNegative x) (placed context.scale (sizeBits x)) := by
    rw [rank, hsign, hplaced]
  rw [roundNumber_eq]
  split
  · next hzero =>
    rw [beq_iff_rank_eq (isNaN_of_isFinite hfinite) rfl] at hzero
    exact ⟨rfl, hzero.symm.trans hrank⟩
  · exact ⟨hfinite, hrank⟩

/-- A finite number is still finite when it is rounded. -/
theorem isFinite_roundNumber (hx : x.isFinite) : (context.roundNumber x).isFinite :=
  (context.rank_roundNumber hx).1

/-- Rounding to places is monotone on finite doubles. -/
theorem roundNumber_mono {a b : Float} (ha : a.isFinite) (hb : b.isFinite) (h : a ≤ b) :
    context.roundNumber a ≤ context.roundNumber b := by
  obtain ⟨ha', hrankA⟩ := context.rank_roundNumber ha
  obtain ⟨hb', hrankB⟩ := context.rank_roundNumber hb
  rw [le_iff_rank_le (isNaN_of_isFinite ha) (isNaN_of_isFinite hb)] at h
  rw [le_iff_rank_le (isNaN_of_isFinite ha') (isNaN_of_isFinite hb'), hrankA, hrankB]
  exact signed_mono placed_zero
    (fun hab => placed_mono context.one_le_scale hab ((isFinite_iff b).1 hb))
    (fun hba => placed_mono context.one_le_scale hba ((isFinite_iff a).1 ha)) h

end Cartouche.RenderContext
