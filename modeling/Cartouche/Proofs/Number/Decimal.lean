import Cartouche.Number.Shortest
import Cartouche.Proofs.Number.Arithmetic

/-!
# Decimals that read back

A decimal reads back to a magnitude when the double nearest to it has this magnitude
(`readsBack_iff`). The test compares naturals; what it means is told by the numbers half way to the
neighbours of a double. The numbers nearest to one double are an interval (`IsNearest.between`), and
the size of the double says how wide it is: everything within one part of `2 ^ 54` is in it, and
away from zero nothing beyond one part of `2 ^ 53`.
-/

namespace Cartouche

namespace Binary64

variable {bits : Nat} {p q r : ℚ}

/-- What lies between numbers with the same nearest double has it too. -/
theorem IsNearest.between (hp : IsNearest p bits) (hr : IsNearest r bits) (hpq : p ≤ q)
    (hqr : q ≤ r) : IsNearest q bits where
  low b hb := by
    rcases hp.low b hb with h | ⟨h, heven⟩
    · exact .inl (h.trans_le hpq)
    · rw [← h] at hpq
      exact hpq.lt_or_eq.imp_right fun h => ⟨h, heven⟩
  high := by
    rcases hr.high with h | ⟨h, heven⟩
    · exact .inl (hqr.trans_lt h)
    · rw [h] at hqr
      exact hqr.lt_or_eq.imp_right fun h => ⟨h, heven⟩

/-- Nearest bits other than zero lie between the numbers half way to both neighbours. -/
theorem isNearest_succ_iff : IsNearest q (bits + 1) ↔
    (Binary64.midpoint bits < q ∨ Binary64.midpoint bits = q ∧ (bits + 1) % 2 = 0) ∧
      (q < Binary64.midpoint (bits + 1) ∨
        q = Binary64.midpoint (bits + 1) ∧ (bits + 1) % 2 = 0) := by
  constructor
  · intro h
    exact ⟨h.low bits rfl, h.high⟩
  · rintro ⟨hlow, hhigh⟩
    refine ⟨?_, hhigh⟩
    intro b hb
    obtain rfl : b = bits := by omega
    exact hlow

/-- A number is not beyond the middle to the bits behind its nearest ones. -/
theorem IsNearest.le_midpoint (h : IsNearest q bits) : q ≤ Binary64.midpoint bits := by
  rcases h.high with h | ⟨h, -⟩
  · exact h.le
  · exact h.le

/-- A number is not below the middle to the bits in front of its nearest ones. -/
theorem IsNearest.midpoint_le (h : IsNearest q (bits + 1)) : Binary64.midpoint bits ≤ q := by
  rcases h.low bits rfl with h | ⟨h, -⟩
  · exact h.le
  · exact h.le

/-- A mantissa has no more than 53 digits. -/
theorem value_succ_le (bits : Nat) : value (bits + 1) ≤ 2 ^ 53 * ulp bits := by
  have hshort : (mantissaOf bits : ℚ) + 1 ≤ 2 ^ 53 := by
    exact_mod_cast (isCanonical_fields bits).short
  calc value (bits + 1) = (mantissaOf bits + 1) * ulp bits := by
        rw [value_succ, value]
        ring
    _ ≤ 2 ^ 53 * ulp bits := mul_le_mul_of_nonneg_right hshort (ulp_pos bits).le

/-- What is close enough to a double has it as the nearest one. -/
theorem isNearest_of_abs_sub_lt (h : |q - value bits| < value bits / 2 ^ 54) :
    IsNearest q bits := by
  obtain ⟨hlow, hhigh⟩ := abs_sub_lt_iff.1 h
  refine ⟨?_, .inl ?_⟩
  · rintro b rfl
    have hle := value_succ_le b
    have hvalue := value_succ b
    left
    rw [Binary64.midpoint]
    linarith
  · have hle := value_succ_le bits
    have hlt := strictMono_value bits.lt_succ_self
    rw [Binary64.midpoint]
    linarith

/-- The step at bits does not shrink from one to the next. -/
theorem ulp_le_succ (bits : Nat) : ulp bits ≤ ulp (bits + 1) := by
  refine zpow_le_zpow_right₀ one_le_two ?_
  rcases next_fields bits with ⟨he, -⟩ | ⟨he, -, -⟩ <;> omega

/-- Away from zero, what a double is nearest to is close to it. -/
theorem IsNearest.abs_sub_le (h : IsNearest q bits) (hbits : 2 ^ 52 ≤ bits) :
    |q - value bits| ≤ value bits / 2 ^ 53 := by
  obtain ⟨b, rfl⟩ : ∃ b, bits = b + 1 := ⟨bits - 1, by omega⟩
  have hulp : 2 ^ 52 * ulp (b + 1) ≤ value (b + 1) := by
    have hfull : (2 ^ 52 : ℚ) ≤ mantissaOf (b + 1) := by
      have : 2 ^ 52 ≤ mantissaOf (b + 1) := by
        unfold mantissaOf
        split <;> omega
      exact_mod_cast this
    exact mul_le_mul_of_nonneg_right hfull (ulp_pos _).le
  have hle := ulp_le_succ b
  have hvalue := value_succ b
  have hlow : value (b + 1) - ulp b / 2 ≤ q := by
    have hmid : Binary64.midpoint b = value (b + 1) - ulp b / 2 := by
      rw [Binary64.midpoint, hvalue]
      ring
    exact hmid ▸ h.midpoint_le
  have hhigh : q ≤ value (b + 1) + ulp (b + 1) / 2 := h.le_midpoint
  rw [abs_sub_le_iff]
  constructor <;> linarith

end Binary64

open Binary64

/-- The number that a decimal stands for. -/
def Decimal.number (d : Decimal) : ℚ := d.digits * 10 ^ d.exponent

namespace Magnitude

/-- The magnitude that bits without sign stand for. -/
def ofBits (bits : Nat) : Magnitude where
  mantissa := mantissaOf bits
  exponent := exponentOf bits
  narrowBelow := bits % 2 ^ 52 == 0 && decide (2 ^ 53 ≤ bits)

/-- The magnitude of a double is in its bits. -/
theorem ofFloat_eq (x : Float) : ofFloat x = ofBits (sizeBits x) := by
  obtain ⟨hmantissa, hexponent⟩ := ofFloat_fields x
  have hnarrow : (ofFloat x).narrowBelow = (ofBits (sizeBits x)).narrowBelow := by
    unfold ofFloat ofBits sizeBits
    extract_lets bits biased fraction
    have hbiased : biased = bits % 2 ^ 63 / 2 ^ 52 := (fields_mod bits).1
    have hfraction : fraction = bits % 2 ^ 63 % 2 ^ 52 := (fields_mod bits).2
    rw [Bool.eq_iff_iff]
    split
    · simp only [Bool.false_eq_true, false_iff, Bool.and_eq_true, decide_eq_true_eq, not_and]
      intro _
      omega
    · simp only [Bool.and_eq_true, beq_iff_eq, decide_eq_true_eq, hfraction]
      omega
  calc ofFloat x = ⟨(ofFloat x).mantissa, (ofFloat x).exponent, (ofFloat x).narrowBelow⟩ := rfl
    _ = ofBits (sizeBits x) := by rw [hmantissa, hexponent, hnarrow]; rfl

/-! ## Exact comparisons -/

/-- Numbers scaled by powers of ten and two are compared without fractions. -/
theorem compareScaled_spec (a : Nat) (i : Int) (n : Nat) (j : Int) :
    (compareScaled a i n j = .lt ↔ (a : ℚ) * 10 ^ i < n * 2 ^ j) ∧
      (compareScaled a i n j = .eq ↔ (a : ℚ) * 10 ^ i = n * 2 ^ j) ∧
      (compareScaled a i n j = .gt ↔ (n : ℚ) * 2 ^ j < a * 10 ^ i) := by
  have hleft : (a : ℚ) * 10 ^ i = (a * 10 ^ i.toNat : Nat) / (10 ^ (-i).toNat : Nat) := by
    rw [zpow_eq_div (by norm_num)]
    push_cast
    ring
  have hright : (n : ℚ) * 2 ^ j = (n * 2 ^ j.toNat : Nat) / (2 ^ (-j).toNat : Nat) := by
    rw [two_zpow_eq]
    push_cast
    ring
  have hi : (0 : ℚ) < (10 ^ (-i).toNat : Nat) := by positivity
  have hj : (0 : ℚ) < (2 ^ (-j).toNat : Nat) := by positivity
  rw [hleft, hright, div_lt_div_iff₀ hi hj, div_eq_div_iff hi.ne' hj.ne', div_lt_div_iff₀ hj hi]
  norm_cast
  exact ⟨Nat.compare_eq_lt, Nat.compare_eq_eq, Nat.compare_eq_gt⟩

/-! ## Reading back -/

variable {bits : Nat}

/-- The number half way to the next bits, in quarters of a step. -/
theorem midpoint_eq_quarters (bits : Nat) :
    Binary64.midpoint bits =
      (4 * mantissaOf bits + 2 : Nat) * (2 : ℚ) ^ (exponentOf bits - 2) := by
  rw [Binary64.midpoint, value, ulp, zpow_sub₀ two_ne_zero]
  push_cast
  ring

/-- The steps below bits are half as wide where the exponent changes. -/
theorem narrowBelow_ofBits (bits : Nat) :
    (ofBits (bits + 1)).narrowBelow = true ↔ exponentOf (bits + 1) = exponentOf bits + 1 := by
  rw [ofBits, Bool.and_eq_true, beq_iff_eq, decide_eq_true_eq]
  unfold exponentOf
  split <;> split <;> omega

/-- The number half way to the bits before, in quarters of a step: it is one quarter away where the
steps below are half as wide. -/
theorem midpoint_eq_quarters_below (bits : Nat) :
    Binary64.midpoint bits =
      (4 * mantissaOf (bits + 1) - (if (ofBits (bits + 1)).narrowBelow then 1 else 2) : Nat) *
        (2 : ℚ) ^ (exponentOf (bits + 1) - 2) := by
  have hpos : 0 < mantissaOf (bits + 1) := mantissaOf_pos bits.succ_pos
  rw [midpoint_eq_quarters]
  rcases next_fields bits with ⟨he, hm⟩ | ⟨he, hlast, hm⟩
  · have hnarrow : (ofBits (bits + 1)).narrowBelow = false := by
      rw [Bool.eq_false_iff, ne_eq, narrowBelow_ofBits]
      omega
    have hquarters : 4 * mantissaOf (bits + 1) - 2 = 4 * mantissaOf bits + 2 := by omega
    rw [hnarrow, if_neg Bool.false_ne_true, hquarters, he]
  · have hnarrow : (ofBits (bits + 1)).narrowBelow = true := (narrowBelow_ofBits bits).2 he
    have hquarters : 4 * mantissaOf bits + 2 = 2 * (4 * mantissaOf (bits + 1) - 1) := by omega
    have hexponent : exponentOf bits - 2 + 1 = exponentOf (bits + 1) - 2 := by omega
    rw [hnarrow, if_pos rfl, hquarters, ← hexponent, zpow_add_one₀ two_ne_zero]
    push_cast
    ring

/-- A decimal reads back to bits when these are the nearest ones to it. -/
theorem readsBack_iff (h : 0 < bits) (d : Decimal) :
    (ofBits bits).readsBack d ↔ IsNearest d.number bits := by
  obtain ⟨b, rfl⟩ : ∃ b, bits = b + 1 := ⟨bits - 1, by omega⟩
  have hparity : mantissaOf (b + 1) % 2 = (b + 1) % 2 := by
    rw [← bitsOf_mod_two _ (exponentOf (b + 1)), bitsOf_fields]
  have hlow := compareScaled_spec d.digits d.exponent
    (4 * mantissaOf (b + 1) - (if (ofBits (b + 1)).narrowBelow then 1 else 2))
    (exponentOf (b + 1) - 2)
  have hhigh := compareScaled_spec d.digits d.exponent (4 * mantissaOf (b + 1) + 2)
    (exponentOf (b + 1) - 2)
  rw [← midpoint_eq_quarters_below] at hlow
  rw [← midpoint_eq_quarters] at hhigh
  obtain ⟨-, hlowEq, hlowGt⟩ := hlow
  obtain ⟨hhighLt, hhighEq, -⟩ := hhigh
  rw [isNearest_succ_iff, readsBack, ← hparity]
  simp only [Bool.and_eq_true, Bool.or_eq_true, beq_iff_eq]
  show (compareScaled _ _ _ (exponentOf (b + 1) - 2) = .gt ∨ mantissaOf (b + 1) % 2 = 0 ∧
    compareScaled _ _ _ (exponentOf (b + 1) - 2) = .eq) ∧
      (compareScaled _ _ (4 * mantissaOf (b + 1) + 2) (exponentOf (b + 1) - 2) = .lt ∨
        mantissaOf (b + 1) % 2 = 0 ∧ compareScaled _ _ _ (exponentOf (b + 1) - 2) = .eq) ↔ _
  refine and_congr (or_congr hlowGt ?_) (or_congr hhighLt ?_)
  · rw [and_comm, eq_comm (a := Binary64.midpoint b)]
    exact and_congr_left' hlowEq
  · rw [and_comm]
    exact and_congr_left' hhighEq

end Magnitude

end Cartouche
