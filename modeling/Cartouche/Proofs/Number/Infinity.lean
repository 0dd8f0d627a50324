import Cartouche.Proofs.Number.Magnitude

/-!
# At the end of the range

The infinities are the ends of the order of doubles (`neg_infinity_le`, `lt_infinity_iff`). A
product that is divided grows with its factor, also where it is too large for a double
(`sizeBits_mul_div_mono`), so it becomes infinite at one place of the range.
-/

namespace Cartouche.Binary64

/-- The double behind all finite ones. -/
def infinity : Float := 1.0 / 0.0

/-- Infinity has no sign. -/
theorem isNegative_infinity : isNegative infinity = false := by decide +kernel

/-- The bits of infinity, which is the quotient of one by zero. -/
theorem sizeBits_infinity : sizeBits infinity = infinityBits := by decide +kernel

/-- Infinity is among the doubles that are not negative. -/
theorem isNonneg_infinity : IsNonneg infinity :=
  isNonneg_of_not_isNegative isNegative_infinity sizeBits_infinity.le

/-- The rank of infinity, which no double that is a number exceeds. -/
theorem rank_infinity : rank infinity = infinityBits := by
  rw [isNonneg_infinity.rank_eq, sizeBits_infinity]

/-- The rank of the negative infinity, below which no double that is a number lies. -/
theorem rank_neg_infinity : rank (-infinity) = -infinityBits := by decide +kernel

/-- The negative infinity is a number. -/
theorem isNaN_neg_infinity : (-infinity).isNaN = false := by decide +kernel

variable {x y : Float}

/-- No number has a rank beyond those of the infinities. -/
theorem abs_rank_le (h : x.isNaN = false) : |rank x| ≤ infinityBits := by
  rw [Bool.eq_false_iff, ne_eq, isNaN_iff, not_lt] at h
  unfold rank signed
  split
  · rw [abs_neg]
    simpa using h
  · simpa using h

/-- The negative infinity is below all numbers. -/
theorem neg_infinity_le (h : x.isNaN = false) : -infinity ≤ x := by
  rw [le_iff_rank_le isNaN_neg_infinity h, rank_neg_infinity]
  exact (abs_le.1 (abs_rank_le h)).1

/-- There is one double of the rank of infinity. -/
theorem eq_infinity_iff : x = infinity ↔ rank x = infinityBits := by
  constructor
  · rintro rfl
    exact rank_infinity
  · intro h
    rcases eq_or_sizeBits_eq_zero (h.trans rank_infinity.symm) with h | ⟨-, h⟩
    · exact h
    · rw [sizeBits_infinity] at h
      exact absurd h (by decide)

/-- A number is below infinity unless it is infinity. -/
theorem lt_infinity_iff (h : x.isNaN = false) : x < infinity ↔ x ≠ infinity := by
  rw [lt_iff_rank_lt h isNonneg_infinity.isNaN, ne_eq, eq_infinity_iff, rank_infinity]
  exact (abs_le.1 (abs_rank_le h)).2.lt_iff_ne

/-- A double that is not negative is infinity when it has the bits of it. -/
theorem IsNonneg.eq_infinity_iff (h : IsNonneg x) : x = infinity ↔ sizeBits x = infinityBits := by
  rw [Binary64.eq_infinity_iff, h.rank_eq, Nat.cast_inj]

/-- A double that is greater than zero has no sign. -/
theorem isNegative_of_pos (hx : x.isFinite) (hpos : ¬ x ≤ 0.0) :
    isNegative x = false ∧ 0 < sizeBits x := by
  have hzero : rank 0.0 = 0 := by decide
  rw [le_iff_rank_le (isNaN_of_isFinite hx) (by decide), hzero] at hpos
  unfold rank signed at hpos
  split at hpos
  · omega
  · next hsign => exact ⟨by simpa using hsign, by omega⟩

/-! ## Products that are divided -/

section

variable {factor divisor : Float} (hfactor : factor.isFinite) (hdivisor : divisor.isFinite)
  (hpos : 0 < sizeBits divisor)

include hfactor hdivisor hpos

/-- The size of a product that is divided: infinite when the product is, and rounded twice when it
is not. -/
theorem sizeBits_mul_div (hx : x.isFinite) :
    sizeBits (x * factor / divisor) =
      if roundToBits (value (sizeBits x) * value (sizeBits factor)) = infinityBits then infinityBits
      else roundToBits (value (roundToBits (value (sizeBits x) * value (sizeBits factor))) /
        value (sizeBits divisor)) := by
  obtain ⟨-, hproduct⟩ := mul_spec hx hfactor
  rw [← hproduct]
  split
  · next h => exact sizeBits_div_of_infinite h hdivisor hpos
  · next h =>
    have hfinite : (x * factor).isFinite :=
      (isFinite_iff _).2 (lt_of_le_of_ne (hproduct ▸ roundToBits_le _) h)
    exact (div_spec hfinite hdivisor hpos).2

/-- The product grows with the factor and stays infinite once it is. -/
theorem sizeBits_mul_div_mono (hx : x.isFinite) (hy : y.isFinite) (h : sizeBits x ≤ sizeBits y) :
    sizeBits (x * factor / divisor) ≤ sizeBits (y * factor / divisor) := by
  have hvalue : value (sizeBits x) * value (sizeBits factor) ≤
      value (sizeBits y) * value (sizeBits factor) :=
    mul_le_mul_of_nonneg_right (strictMono_value.monotone h) (value_nonneg _)
  have hproduct := roundToBits_mono (mul_nonneg (value_nonneg _) (value_nonneg _)) hvalue
  rw [sizeBits_mul_div hfactor hdivisor hpos hx, sizeBits_mul_div hfactor hdivisor hpos hy]
  split
  · next hinfinite =>
    rw [hinfinite] at hproduct
    rw [if_pos (le_antisymm (roundToBits_le _) hproduct)]
  · split
    · exact roundToBits_le _
    · refine roundToBits_mono (div_nonneg (value_nonneg _) (value_nonneg _)) ?_
      exact div_le_div_of_nonneg_right (strictMono_value.monotone hproduct) (value_nonneg _)

/-- With nothing negative, the result is not negative. -/
theorem isNonneg_mul_div (hx : x.isFinite) (hsign : isNegative x = false)
    (hsign' : isNegative factor = false) (hsign'' : isNegative divisor = false) :
    IsNonneg (x * factor / divisor) := by
  obtain ⟨hnegative, hproduct⟩ := mul_spec hx hfactor
  rw [hsign, hsign', bne_self_eq_false] at hnegative
  have hnonneg : IsNonneg (x * factor) :=
    isNonneg_of_not_isNegative hnegative (hproduct ▸ roundToBits_le _)
  have hdivisor' : IsNonneg divisor :=
    isNonneg_of_not_isNegative hsign'' ((isFinite_iff divisor).1 hdivisor).le
  exact (hnonneg.div hdivisor' hdivisor hpos).1

end

end Cartouche.Binary64
