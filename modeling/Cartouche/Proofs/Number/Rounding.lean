import Mathlib.Algebra.Order.Field.Power
import Mathlib.Algebra.Order.Field.Rat
import Mathlib.Tactic.FieldSimp
import Mathlib.Tactic.Linarith
import Mathlib.Tactic.LinearCombination
import Mathlib.Tactic.Positivity
import Mathlib.Tactic.Ring
import Cartouche.Proofs.Number.Order

/-!
# Nearest doubles

Bits without sign stand for numbers, `Binary64.value`, in a grid that has no end: what lies beyond
infinity is cut off after rounding and not while numbers are rounded. `IsNearest q bits` says that
`bits` are the nearest ones to `q`, and even when `q` lies half way between two. Two things are all
that is needed of it: it is monotone (`IsNearest.mono`), and a number on the grid is its own nearest
one (`isNearest_value`). Every way in which mantissas are rounded leads to it through one lemma
about naturals nearest to numbers (`RoundsTo.isNearest`). Nearest bits always exist, and
`roundToBits` are those that a double has.
-/

namespace Cartouche.Binary64

open Float.Model (UnpackedFloat Format totalExponent)
open Float.Model.UnpackedFloat (Sign ExtendedMantissa Accuracy)

/-! ## The grid -/

/-- The step from bits to the next ones. -/
def ulp (bits : Nat) : ℚ := 2 ^ exponentOf bits

/-- The number that bits without sign stand for. -/
def value (bits : Nat) : ℚ := mantissaOf bits * ulp bits

/-- The number half way to the next bits. -/
def midpoint (bits : Nat) : ℚ := value bits + ulp bits / 2

/-- There is a distance between bits and the next ones, also next to zero. -/
theorem ulp_pos (bits : Nat) : 0 < ulp bits := zpow_pos (by norm_num) _

/-- No bits stand for zero. -/
@[simp] theorem value_zero : value 0 = 0 := by
  simp [value, mantissaOf]

/-- The next bits have the next mantissa, or the first one at the next exponent. -/
theorem next_fields (bits : Nat) :
    (exponentOf (bits + 1) = exponentOf bits ∧ mantissaOf (bits + 1) = mantissaOf bits + 1) ∨
      (exponentOf (bits + 1) = exponentOf bits + 1 ∧ mantissaOf bits + 1 = 2 ^ 53 ∧
        mantissaOf (bits + 1) = 2 ^ 52) := by
  unfold exponentOf mantissaOf
  split <;> split <;> omega

/-- The next bits stand for the number one step further, also where the exponent grows: the step is
the lesser one of the two there. -/
theorem value_succ (bits : Nat) : value (bits + 1) = value bits + ulp bits := by
  rcases next_fields bits with ⟨he, hm⟩ | ⟨he, hlast, hm⟩
  · rw [value, value, ulp, ulp, he, hm]
    push_cast
    ring
  · have hlast : (mantissaOf bits : ℚ) + 1 = 2 ^ 53 := by exact_mod_cast hlast
    rw [value, value, ulp, ulp, he, hm, zpow_add_one₀ (by norm_num)]
    push_cast
    linear_combination (-(2 : ℚ) ^ exponentOf bits) * hlast

/-- The numbers on the grid grow with the bits. -/
theorem strictMono_value : StrictMono value :=
  strictMono_nat_of_lt_succ fun bits => by
    rw [value_succ]
    exact lt_add_of_pos_right _ (ulp_pos bits)

/-- Bits without sign stand for numbers that are not negative. -/
theorem value_nonneg (bits : Nat) : 0 ≤ value bits := by
  rw [← value_zero]
  exact strictMono_value.monotone bits.zero_le

/-- The middle to the next number on the grid is beyond the first of the two. -/
theorem value_lt_midpoint (bits : Nat) : value bits < midpoint bits :=
  lt_add_of_pos_right _ (half_pos (ulp_pos bits))

/-- The middle is below the second of the two. -/
theorem midpoint_lt_value_succ (bits : Nat) : midpoint bits < value (bits + 1) := by
  have := ulp_pos bits
  rw [midpoint, value_succ]
  linarith

/-- The middles grow with the bits, since there is a number on the grid between any two of them. -/
theorem strictMono_midpoint : StrictMono midpoint :=
  strictMono_nat_of_lt_succ fun bits =>
    (midpoint_lt_value_succ bits).trans (value_lt_midpoint (bits + 1))

/-! ## Nearest bits -/

/-- No bits are nearer to a number, and of two that are equally near these are the even ones. -/
structure IsNearest (q : ℚ) (bits : Nat) : Prop where
  low : ∀ b, b + 1 = bits → midpoint b < q ∨ midpoint b = q ∧ bits % 2 = 0
  high : q < midpoint bits ∨ q = midpoint bits ∧ bits % 2 = 0

/-- Greater numbers have greater nearest bits. -/
theorem IsNearest.mono {p q : ℚ} {a b : Nat} (ha : IsNearest p a) (hb : IsNearest q b)
    (h : p ≤ q) : a ≤ b := by
  by_contra hlt
  obtain ⟨c, rfl⟩ : ∃ c, c + 1 = a := ⟨a - 1, by omega⟩
  have hmid : midpoint b ≤ midpoint c := strictMono_midpoint.monotone (by omega)
  rcases ha.low c rfl with hlow | ⟨hlow, ha⟩
  · rcases hb.high with hhigh | ⟨hhigh, -⟩
    · linarith
    · linarith
  · rcases hb.high with hhigh | ⟨hhigh, hb⟩
    · linarith
    · -- Both numbers are half way between `c` and the next bits, which are not both even.
      have hbc : b = c := strictMono_midpoint.injective (by linarith)
      omega

/-- A number has one nearest place on the grid: half way between two it is the even one. -/
theorem IsNearest.unique {q : ℚ} {a b : Nat} (ha : IsNearest q a) (hb : IsNearest q b) : a = b :=
  le_antisymm (ha.mono hb le_rfl) (hb.mono ha le_rfl)

/-- A number on the grid is its own nearest one. -/
theorem isNearest_value (bits : Nat) : IsNearest (value bits) bits where
  low := by
    rintro b rfl
    exact .inl (midpoint_lt_value_succ b)
  high := .inl (value_lt_midpoint bits)

/-- What is rounded up to bits exceeds everything that is below them. -/
theorem IsNearest.value_lt {q : ℚ} {a b : Nat} (h : IsNearest q b) (hab : a < b) :
    value a < q := by
  by_contra hle
  exact absurd (h.mono (isNearest_value a) (not_lt.1 hle)) (by omega)

/-! ## Mantissas -/

/-- A mantissa and an exponent as they stand in bits: the mantissa has 53 digits, or fewer at the
least exponent. -/
structure IsCanonical (mantissa : Nat) (exponent : Int) : Prop where
  lower : -1074 ≤ exponent
  short : mantissa < 2 ^ 53
  full : exponent = -1074 ∨ 2 ^ 52 ≤ mantissa

/-- The bits of a mantissa and an exponent. -/
def bitsOf (mantissa : Nat) (exponent : Int) : Nat := (exponent + 1074).toNat * 2 ^ 52 + mantissa

/-- The next mantissa has the next bits. -/
theorem bitsOf_succ (mantissa : Nat) (exponent : Int) :
    bitsOf (mantissa + 1) exponent = bitsOf mantissa exponent + 1 := by
  unfold bitsOf
  omega

/-- A mantissa with a digit too many is the first one at the next exponent. -/
theorem bitsOf_carry {exponent : Int} (h : -1074 ≤ exponent) :
    bitsOf (2 ^ 53) exponent = bitsOf (2 ^ 52) (exponent + 1) := by
  unfold bitsOf
  omega

/-- Bits are even when the mantissa is. So a rule about even mantissas is one about even bits. -/
theorem bitsOf_mod_two (mantissa : Nat) (exponent : Int) :
    bitsOf mantissa exponent % 2 = mantissa % 2 := by
  unfold bitsOf
  omega

section

variable {m : Nat} {e : Int}

/-- A canonical mantissa is read off the bits again. -/
theorem IsCanonical.mantissaOf_bitsOf (h : IsCanonical m e) : mantissaOf (bitsOf m e) = m := by
  obtain ⟨hlower, hshort, hfull⟩ := h
  unfold mantissaOf bitsOf
  split <;> omega

/-- The exponent of a canonical mantissa is read off the bits again. -/
theorem IsCanonical.exponentOf_bitsOf (h : IsCanonical m e) : exponentOf (bitsOf m e) = e := by
  obtain ⟨hlower, hshort, hfull⟩ := h
  unfold exponentOf bitsOf
  split <;> omega

/-- The mantissa and the exponent of any bits are canonical. -/
theorem isCanonical_fields (bits : Nat) : IsCanonical (mantissaOf bits) (exponentOf bits) := by
  refine ⟨?_, ?_, ?_⟩
  · unfold exponentOf
    split <;> omega
  · unfold mantissaOf
    split <;> omega
  · unfold exponentOf mantissaOf
    split <;> omega

/-- Bits are known by their mantissa and their exponent. -/
theorem bitsOf_fields (bits : Nat) : bitsOf (mantissaOf bits) (exponentOf bits) = bits := by
  unfold bitsOf mantissaOf exponentOf
  split <;> omega

/-- The step at a canonical mantissa is one unit of its last digit. -/
theorem IsCanonical.ulp_bitsOf (h : IsCanonical m e) : ulp (bitsOf m e) = 2 ^ e := by
  rw [ulp, h.exponentOf_bitsOf]

/-- The bits of a canonical mantissa stand for the number that it is scaled to. -/
theorem IsCanonical.value_bitsOf (h : IsCanonical m e) : value (bitsOf m e) = m * 2 ^ e := by
  rw [value, h.ulp_bitsOf, h.mantissaOf_bitsOf]

/-! ## Rounding a mantissa -/

/-- A natural nearest to a number: the integer part of the number or the next one, and the even one
of the two when they are equally near. -/
structure RoundsTo (x : ℚ) (floor rounded : Nat) : Prop where
  le : floor ≤ x
  lt : x < floor + 1
  choice : (rounded = floor ∧ (x < floor + 1 / 2 ∨ x = floor + 1 / 2 ∧ floor % 2 = 0)) ∨
    (rounded = floor + 1 ∧ (floor + 1 / 2 < x ∨ floor + 1 / 2 = x ∧ floor % 2 = 1))

/-- A rounded natural is the integer part or the next one. -/
theorem RoundsTo.eq_or {x : ℚ} {floor rounded : Nat} (h : RoundsTo x floor rounded) :
    rounded = floor ∨ rounded = floor + 1 :=
  h.choice.imp And.left And.left

/-- A mantissa that is rounded to a natural has the bits that are nearest on the grid. -/
theorem RoundsTo.isNearest {x : ℚ} {rounded : Nat} (h : RoundsTo x m rounded)
    (hcanonical : IsCanonical m e) : IsNearest (x * 2 ^ e) (bitsOf rounded e) := by
  have hstep : (0 : ℚ) < 2 ^ e := zpow_pos (by norm_num) e
  have hvalue := hcanonical.value_bitsOf
  have hmid : midpoint (bitsOf m e) = (m + 1 / 2) * 2 ^ e := by
    rw [midpoint, hvalue, hcanonical.ulp_bitsOf]
    ring
  have hparity := bitsOf_mod_two m e
  rcases h.choice with ⟨rfl, hx⟩ | ⟨rfl, hx⟩
  · refine ⟨?_, ?_⟩
    · intro b hb
      left
      calc midpoint b < value (b + 1) := midpoint_lt_value_succ b
        _ = rounded * 2 ^ e := by rw [hb, hvalue]
        _ ≤ x * 2 ^ e := mul_le_mul_of_nonneg_right h.le hstep.le
    · rw [hmid, hparity]
      rcases hx with hx | ⟨hx, heven⟩
      · exact .inl (mul_lt_mul_of_pos_right hx hstep)
      · exact .inr ⟨by rw [hx], heven⟩
  · rw [bitsOf_succ]
    refine ⟨?_, .inl ?_⟩
    · intro b hb
      obtain rfl : b = bitsOf m e := by omega
      rw [hmid]
      rcases hx with hx | ⟨hx, hodd⟩
      · exact .inl (mul_lt_mul_of_pos_right hx hstep)
      · exact .inr ⟨by rw [hx], by omega⟩
    · calc x * 2 ^ e < (m + 1) * 2 ^ e := mul_lt_mul_of_pos_right h.lt hstep
        _ = value (bitsOf m e + 1) := by
          rw [value_succ, hvalue, hcanonical.ulp_bitsOf]
          ring
        _ < midpoint (bitsOf m e + 1) := value_lt_midpoint _

end

/-- The integer part of a number with 53 digits in front of the point is canonical. -/
theorem isCanonical_floor {q : ℚ} {e : Int} {floor rounded : Nat}
    (h : RoundsTo (q / 2 ^ e) floor rounded) (hlower : -1074 ≤ e) (hhigh : q < 2 ^ (e + 53))
    (hlow : e = -1074 ∨ 2 ^ (e + 52) ≤ q) : IsCanonical floor e := by
  have hstep : (0 : ℚ) < 2 ^ e := zpow_pos (by norm_num) e
  refine ⟨hlower, ?_, hlow.imp_right fun hlow => ?_⟩
  · have hlt : q / 2 ^ e < 2 ^ 53 := by
      rw [div_lt_iff₀ hstep]
      calc q < 2 ^ (e + 53) := hhigh
        _ = 2 ^ 53 * 2 ^ e := by
          rw [zpow_add₀ two_ne_zero, mul_comm]
          norm_cast
    exact_mod_cast h.le.trans_lt hlt
  · have hle : (2 : ℚ) ^ 52 ≤ q / 2 ^ e := by
      rw [le_div_iff₀ hstep]
      calc (2 : ℚ) ^ 52 * 2 ^ e = 2 ^ (e + 52) := by
            rw [zpow_add₀ two_ne_zero, mul_comm]
            norm_cast
        _ ≤ q := hlow
    have hlt : (2 : ℚ) ^ 52 < floor + 1 := hle.trans_lt h.lt
    have : 2 ^ 52 < floor + 1 := by exact_mod_cast hlt
    omega

/-- A mantissa with a digit too many is carried to the next exponent. -/
def carry (rounded : Nat) (e : Int) : Nat × Int :=
  if rounded = 2 ^ 53 then (2 ^ 52, e + 1) else (rounded, e)

/-- What is rounded and carried is canonical again and has the same bits as before. -/
theorem RoundsTo.carry {x : ℚ} {e : Int} {floor rounded : Nat} (h : RoundsTo x floor rounded)
    (hcanonical : IsCanonical floor e) :
    IsCanonical (carry rounded e).1 (carry rounded e).2 ∧
      bitsOf (carry rounded e).1 (carry rounded e).2 = bitsOf rounded e := by
  obtain ⟨hlower, hshort, hfull⟩ := hcanonical
  unfold Binary64.carry
  split
  · next heq => exact ⟨⟨by omega, by omega, by omega⟩, by rw [heq, bitsOf_carry hlower]⟩
  · next hne =>
    have heq := h.eq_or
    exact ⟨⟨hlower, by omega, by omega⟩, rfl⟩

/-! ## The nearest bits of a quotient -/

/-- A quotient is its integer part and what the remainder contributes. -/
theorem natCast_div_eq (num : Nat) {den : Nat} (h : 0 < den) :
    (num : ℚ) / den = (num / den : Nat) + (num % den : Nat) / (den : ℚ) := by
  have hden : (den : ℚ) ≠ 0 := by exact_mod_cast h.ne'
  rw [div_eq_iff hden, add_mul, div_mul_cancel₀ _ hden, mul_comm]
  exact_mod_cast (Nat.div_add_mod num den).symm

/-- Twice the remainder decides how a quotient is rounded. -/
theorem roundsTo_roundQuotient (num : Nat) {den : Nat} (h : 0 < den) :
    RoundsTo (num / den) (num / den) (roundQuotient num den) := by
  have hden : (0 : ℚ) < den := by exact_mod_cast h
  have hsplit := natCast_div_eq num h
  have hrest : ((num % den : Nat) : ℚ) / den < 1 := by
    rw [div_lt_one hden]
    exact_mod_cast Nat.mod_lt num h
  refine ⟨?_, by rw [hsplit]; linarith, ?_⟩
  · rw [hsplit]
    have : (0 : ℚ) ≤ (num % den : Nat) / (den : ℚ) := by positivity
    linarith
  rcases lt_trichotomy (2 * (num % den)) den with hr | hr | hr
  · have hlt : ((num % den : Nat) : ℚ) / den < 1 / 2 := by
      rw [div_lt_div_iff₀ hden two_pos]
      exact_mod_cast (by omega : num % den * 2 < 1 * den)
    exact .inl ⟨by simp [roundQuotient, hr], .inl (by rw [hsplit]; linarith)⟩
  · have heq : ((num % den : Nat) : ℚ) / den = 1 / 2 := by
      rw [div_eq_div_iff hden.ne' two_ne_zero]
      exact_mod_cast (by omega : num % den * 2 = 1 * den)
    rcases Nat.mod_two_eq_zero_or_one (num / den) with hparity | hparity
    · exact .inl ⟨by simp [roundQuotient, hr, hparity], .inr ⟨by rw [hsplit, heq], hparity⟩⟩
    · exact .inr ⟨by simp [roundQuotient, hr, hparity], .inr ⟨by rw [hsplit, heq], hparity⟩⟩
  · have hgt : (1 : ℚ) / 2 < (num % den : Nat) / (den : ℚ) := by
      rw [div_lt_div_iff₀ two_pos hden]
      exact_mod_cast (by omega : 1 * den < num % den * 2)
    refine .inr ⟨?_, .inl (by rw [hsplit]; linarith)⟩
    simp [roundQuotient, hr.not_gt, hr.ne']

/-- A power is a quotient of two, one of which is one. -/
theorem zpow_eq_div {b : ℚ} (hb : b ≠ 0) (e : Int) : b ^ e = b ^ e.toNat / b ^ (-e).toNat := by
  rw [← zpow_natCast, ← zpow_natCast, ← zpow_sub₀ hb]
  congr 1
  omega

/-- A power of two as a quotient of naturals, one of which is one. -/
theorem two_zpow_eq (e : Int) : (2 : ℚ) ^ e = 2 ^ e.toNat / 2 ^ (-e).toNat :=
  zpow_eq_div two_ne_zero e

/-- A quotient is compared with a power of two in naturals, as the algorithm does it. -/
theorem two_zpow_le_div_iff (e : Int) {num den : Nat} (h : 0 < den) :
    (2 : ℚ) ^ e ≤ num / den ↔ den * 2 ^ e.toNat ≤ num * 2 ^ (-e).toNat := by
  have hden : (0 : ℚ) < den := by exact_mod_cast h
  rw [two_zpow_eq, div_le_div_iff₀ (by positivity) hden, mul_comm]
  exact_mod_cast Iff.rfl

/-- The binary logarithm of a quotient is exact. -/
theorem quotientLog2_spec {num den : Nat} (hnum : 0 < num) (hden : 0 < den) :
    (2 : ℚ) ^ quotientLog2 num den ≤ num / den ∧
      (num : ℚ) / den < 2 ^ (quotientLog2 num den + 1) := by
  have hnumQ : (2 : ℚ) ^ (num.log2 : Int) ≤ num ∧ (num : ℚ) < 2 ^ ((num.log2 : Int) + 1) := by
    refine ⟨?_, ?_⟩
    · exact_mod_cast Nat.log2_self_le hnum.ne'
    · exact_mod_cast Nat.lt_log2_self (n := num)
  have hdenQ : (2 : ℚ) ^ (den.log2 : Int) ≤ den ∧ (den : ℚ) < 2 ^ ((den.log2 : Int) + 1) := by
    refine ⟨?_, ?_⟩
    · exact_mod_cast Nat.log2_self_le hden.ne'
    · exact_mod_cast Nat.lt_log2_self (n := den)
  have hpos : (0 : ℚ) < den := by exact_mod_cast hden
  have hlow : (2 : ℚ) ^ ((num.log2 : Int) - den.log2 - 1) ≤ num / den := by
    rw [le_div_iff₀ hpos]
    calc (2 : ℚ) ^ ((num.log2 : Int) - den.log2 - 1) * den
        ≤ 2 ^ ((num.log2 : Int) - den.log2 - 1) * 2 ^ ((den.log2 : Int) + 1) :=
          mul_le_mul_of_nonneg_left hdenQ.2.le (by positivity)
      _ = 2 ^ (num.log2 : Int) := by
          rw [← zpow_add₀ two_ne_zero]
          congr 1
          ring
      _ ≤ num := hnumQ.1
  have hhigh : (num : ℚ) / den < 2 ^ ((num.log2 : Int) - den.log2 + 1) := by
    rw [div_lt_iff₀ hpos]
    calc (num : ℚ) < 2 ^ ((num.log2 : Int) + 1) := hnumQ.2
      _ = 2 ^ ((num.log2 : Int) - den.log2 + 1) * 2 ^ (den.log2 : Int) := by
          rw [← zpow_add₀ two_ne_zero]
          congr 1
          ring
      _ ≤ 2 ^ ((num.log2 : Int) - den.log2 + 1) * den :=
          mul_le_mul_of_nonneg_left hdenQ.1 (by positivity)
  have hiff := @two_zpow_le_div_iff ((num.log2 : Int) - den.log2) num den hden
  unfold quotientLog2
  extract_lets estimate
  split
  · next h => exact ⟨hiff.2 h, hhigh⟩
  · next h =>
    refine ⟨hlow, ?_⟩
    rw [sub_add_cancel]
    exact not_le.1 (mt hiff.1 h)

/-- The bits nearest to a quotient. -/
def nearestBits (num den : Nat) : Nat := bitsOf (nearest num den).1 (nearest num den).2

/-- A quotient is rounded to the nearest bits. -/
theorem nearest_spec (num : Nat) {den : Nat} (hden : 0 < den) :
    IsCanonical (nearest num den).1 (nearest num den).2 ∧
      IsNearest (num / den) (nearestBits num den) := by
  unfold nearestBits nearest
  split
  · next h =>
    subst h
    exact ⟨⟨by decide, by decide, .inl rfl⟩, by simpa [bitsOf] using isNearest_value 0⟩
  · next h =>
    obtain ⟨hlow, hhigh⟩ := quotientLog2_spec (Nat.pos_of_ne_zero h) hden
    extract_lets e rounded
    have hscaled : ((num * Nat.pow 2 (-e).toNat : Nat) : ℚ) / (den * Nat.pow 2 e.toNat : Nat) =
        num / den / 2 ^ e := by
      rw [two_zpow_eq, Nat.pow_eq, Nat.pow_eq]
      push_cast
      field_simp
    have hround : RoundsTo (num / den / 2 ^ e)
        (num * Nat.pow 2 (-e).toNat / (den * Nat.pow 2 e.toNat)) rounded := by
      rw [← hscaled]
      exact roundsTo_roundQuotient _ (Nat.mul_pos hden (Nat.two_pow_pos _))
    have hle : quotientLog2 num den - 52 ≤ e := le_max_left _ _
    have hcanonical := isCanonical_floor hround (le_max_right _ _)
      (hhigh.trans_le (zpow_le_zpow_right₀ one_le_two (by omega))) ?_
    · obtain ⟨hcarried, hbits⟩ := hround.carry hcanonical
      have hnearest := hround.isNearest hcanonical
      rw [div_mul_cancel₀ _ (zpow_pos two_pos e).ne', ← hbits] at hnearest
      exact ⟨hcarried, hnearest⟩
    · rcases max_choice (quotientLog2 num den - 52) (-1074) with heq | heq
      · right
        have : e + 52 = quotientLog2 num den := by omega
        rwa [this]
      · exact .inl heq

/-! ## The bits of doubles -/

/-- The bits of the double that is nearest to a number: those of infinity beyond the range of
doubles. -/
def roundToBits (q : ℚ) : Nat := min (nearestBits q.num.natAbs q.den) infinityBits

/-- Every rational that is not negative has nearest bits, those that are computed from its reduced
form. -/
theorem isNearest_rat {q : ℚ} (h : 0 ≤ q) : IsNearest q (nearestBits q.num.natAbs q.den) := by
  have hq : (q.num.natAbs : ℚ) / q.den = q := by
    have hnum : ((q.num.natAbs : Int) : ℚ) = q.num := by
      rw [Int.natAbs_of_nonneg (Rat.num_nonneg.2 h)]
    rw [← Int.cast_natCast q.num.natAbs, hnum, Rat.num_div_den]
  simpa only [hq] using (nearest_spec q.num.natAbs q.den_pos).2

/-- What is rounded is a number: infinity is the most that comes of it. -/
theorem roundToBits_le (q : ℚ) : roundToBits q ≤ infinityBits := min_le_right _ _

/-- What is nearest to a number is cut off at infinity. -/
theorem IsNearest.roundToBits_eq {q : ℚ} {bits : Nat} (h : IsNearest q bits) (hq : 0 ≤ q) :
    roundToBits q = min bits infinityBits := by
  rw [roundToBits, (isNearest_rat hq).unique h]

/-- Rounding is monotone. -/
theorem roundToBits_mono {p q : ℚ} (hp : 0 ≤ p) (h : p ≤ q) : roundToBits p ≤ roundToBits q :=
  min_le_min_right _ ((isNearest_rat hp).mono (isNearest_rat (hp.trans h)) h)

/-- Doubles are their own nearest ones. -/
theorem roundToBits_value {bits : Nat} (h : bits ≤ infinityBits) :
    roundToBits (value bits) = bits := by
  rw [(isNearest_value bits).roundToBits_eq (value_nonneg bits), min_eq_left h]

/-- Everything below the double nearest to a number is less than the number. -/
theorem value_lt_of_lt_roundToBits {q : ℚ} (hq : 0 ≤ q) {bits : Nat} (h : bits < roundToBits q) :
    value bits < q :=
  (isNearest_rat hq).value_lt (h.trans_le (min_le_left _ _))

end Cartouche.Binary64
