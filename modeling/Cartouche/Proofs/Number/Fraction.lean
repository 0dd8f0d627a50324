import Cartouche.Proofs.Number.Numeral
import Cartouche.Proofs.Number.Places

/-!
# Digits behind the point

A number that is rounded to places is written with no more digits behind the point, though nothing
counts them. What is written is the double nearest to a whole number of the last place
(`exists_isNearest_placed`), also where the number is too large to be scaled, for then it is whole;
and the decimal with the wanted places is among those that read back. The shortest decimal has no
more places than this one, and no zero at its end. All of this holds away from zero, where a rounded
number is unless it is zero (`two_pow_le_placed`).
-/

namespace Cartouche.Binary64

variable {bits : Nat} {q : ℚ}

/-! ## Whole numbers -/

/-- A multiple of the step at the nearest double is this double. -/
theorem IsNearest.eq_value {n : Nat} (h : IsNearest (n * ulp bits) bits) :
    n * ulp bits = value bits := by
  have hpos := ulp_pos bits
  have hn (m : ℚ) (hm : m * ulp bits < ulp bits) : m < 1 :=
    lt_of_mul_lt_mul_right (by linarith) hpos.le
  have hle : n ≤ mantissaOf bits := by
    have hhigh := h.le_midpoint
    have := hn (n - mantissaOf bits) (by
      rw [Binary64.midpoint, value] at hhigh
      linarith)
    have : (n : ℚ) < (mantissaOf bits + 1 : Nat) := by
      push_cast
      linarith
    have := Nat.cast_lt.1 this
    omega
  have hge : mantissaOf bits ≤ n := by
    rcases bits with _ | b
    · exact Nat.zero_le n
    · have hlow := h.midpoint_le
      have hstep := ulp_le_succ b
      have hvalue := value_succ b
      have := hn (mantissaOf (b + 1) - n) (by
        rw [Binary64.midpoint] at hlow
        rw [value] at hvalue
        linarith)
      have : (mantissaOf (b + 1) : ℚ) < (n + 1 : Nat) := by
        push_cast
        linarith
      have := Nat.cast_lt.1 this
      omega
  rw [value, le_antisymm hle hge]

/-- Naturals are multiples of steps that are not greater than one. -/
theorem natCast_eq_mul_ulp (n : Nat) (h : exponentOf bits ≤ 0) :
    (n : ℚ) = (n * 2 ^ (-exponentOf bits).toNat : Nat) * ulp bits := by
  have hexponent : exponentOf bits = -((-exponentOf bits).toNat : Int) := by omega
  rw [ulp]
  nth_rewrite 2 [hexponent]
  rw [zpow_neg, zpow_natCast]
  push_cast
  field_simp

/-- The double nearest to a whole number is whole. -/
theorem IsNearest.exists_eq_natCast {n : Nat} (h : IsNearest n bits) :
    ∃ m : Nat, value bits = m := by
  rcases le_total 0 (exponentOf bits) with he | he
  · exact ⟨_, value_of_exponentOf_nonneg he⟩
  · have hmultiple := natCast_eq_mul_ulp n he
    rw [hmultiple] at h
    exact ⟨n, by rw [hmultiple, h.eq_value]⟩

/-- Whole numbers with up to 53 digits are doubles. -/
theorem value_sizeBits_ofNat {n : Nat} (h : n < 2 ^ 53) : value (sizeBits (Float.ofNat n)) = n := by
  have hcanonical : IsCanonical (2 ^ 53 - 1) 0 := ⟨by norm_num, by norm_num, .inr (by norm_num)⟩
  have hlast : (n : ℚ) ≤ value (bitsOf (2 ^ 53 - 1) 0) := by
    rw [hcanonical.value_bitsOf, zpow_zero, mul_one]
    exact Nat.cast_le.2 (by omega)
  obtain ⟨b, hnearest⟩ : ∃ b, IsNearest n b := ⟨_, isNearest_rat (Nat.cast_nonneg n)⟩
  have hle : b ≤ bitsOf (2 ^ 53 - 1) 0 := hnearest.mono (isNearest_value _) hlast
  rw [(ofNat_spec n).2, hnearest.roundToBits_eq (Nat.cast_nonneg n)]
  have hfinite : b ≤ infinityBits := hle.trans (by decide)
  have hexponent : exponentOf b ≤ 0 := by
    unfold bitsOf at hle
    unfold exponentOf
    split <;> omega
  have hmultiple := natCast_eq_mul_ulp n hexponent
  rw [hmultiple] at hnearest
  rw [min_eq_left hfinite, ← hnearest.eq_value, ← hmultiple]

/-- Bits that are not cut off at infinity are the nearest ones. -/
theorem isNearest_roundToBits (hq : 0 ≤ q) (h : roundToBits q < infinityBits) :
    IsNearest q (roundToBits q) := by
  have hnearest := isNearest_rat hq
  have hbits := hnearest.roundToBits_eq hq
  rw [hbits] at h ⊢
  rwa [min_eq_left (by omega)]

end Cartouche.Binary64

namespace Cartouche.RenderContext

open Binary64

variable (context : RenderContext) {bits : Nat} {x : Float}

/-- The places behind the point that are written. -/
def places : Nat := min context.numDecimals.toNat 15

/-- Numbers are scaled by a power of ten, and it is exact: fifteen places have a factor among the
doubles. -/
theorem scale_eq : context.scale = 10 ^ context.places := by
  have hpower : Nat.pow 10 context.places < 2 ^ 53 :=
    calc Nat.pow 10 context.places ≤ 10 ^ 15 := Nat.pow_le_pow_right (by norm_num) (by
          unfold places
          omega)
      _ < 2 ^ 53 := by norm_num
  calc context.scale = (Nat.pow 10 context.places : Nat) := value_sizeBits_ofNat hpower
    _ = 10 ^ context.places := by
      rw [Nat.pow_eq]
      push_cast
      rfl

/-- A number with digits behind the point is not too large to be scaled. -/
theorem exponentOf_nonneg_of_not_scaled
    (h : infinityBits ≤ roundToBits (value bits * context.scale)) : 0 ≤ exponentOf bits := by
  by_contra hneg
  have hvalue : value bits ≤ 2 ^ 53 := by
    have hshort : (mantissaOf bits : ℚ) ≤ 2 ^ 53 := by
      exact_mod_cast (isCanonical_fields bits).short.le
    have hstep : ulp bits ≤ 1 := zpow_le_one_of_nonpos₀ one_le_two (by omega)
    exact (mul_le_mul hshort hstep (ulp_pos bits).le (by positivity)).trans_eq (mul_one _)
  have hscale : context.scale ≤ 2 ^ 50 := by
    rw [scale_eq]
    calc (10 : ℚ) ^ context.places ≤ 10 ^ 15 := pow_le_pow_right₀ (by norm_num) (by
          unfold places
          omega)
      _ ≤ 2 ^ 50 := by norm_num
  have hproduct : value bits * context.scale ≤ 2 ^ (103 : Int) :=
    (mul_le_mul hvalue hscale (zero_le_one.trans context.one_le_scale) (by positivity)).trans_eq
      (by norm_num)
  have hle := roundToBits_mono
    (mul_nonneg (value_nonneg bits) (zero_le_one.trans context.one_le_scale)) hproduct
  rw [roundToBits_two_zpow (by norm_num) (by norm_num)] at hle
  exact absurd (h.trans hle) (powerBits_lt (by norm_num)).not_ge

/-- What a number is rounded to is the double nearest to a whole number of the last place. -/
theorem exists_isNearest_placed (h : bits < infinityBits) :
    ∃ n : Nat, IsNearest (n / 10 ^ context.places) (placed context.scale bits) := by
  have hfinite := placed_lt context.one_le_scale h
  have hscaled : 0 ≤ value bits * context.scale :=
    mul_nonneg (value_nonneg bits) (zero_le_one.trans context.one_le_scale)
  rw [← scale_eq]
  unfold placed at hfinite ⊢
  split
  · next hlt =>
    rw [if_pos hlt] at hfinite
    obtain ⟨n, hn⟩ := (isNearest_roundToBits (Nat.cast_nonneg _)
      (roundToBits_floor_lt hlt)).exists_eq_natCast
    rw [wholeBits, hn] at hfinite ⊢
    exact ⟨n, isNearest_roundToBits
      (div_nonneg (Nat.cast_nonneg n) (zero_le_one.trans context.one_le_scale)) hfinite⟩
  · next hge =>
    have hvalue := value_of_exponentOf_nonneg
      (context.exponentOf_nonneg_of_not_scaled (not_lt.1 hge))
    refine ⟨mantissaOf bits * 2 ^ (exponentOf bits).toNat * 10 ^ context.places, ?_⟩
    have hcancel : value bits * context.scale / context.scale = value bits :=
      mul_div_cancel_right₀ _ (zero_lt_one.trans_le context.one_le_scale).ne'
    rw [Nat.cast_mul, ← hvalue, Nat.cast_pow, Nat.cast_ofNat, ← scale_eq, hcancel]
    exact isNearest_value bits

/-- A rounded number is zero, or not so small that it has fewer digits than other doubles. -/
theorem two_pow_le_placed (h : bits < infinityBits) (hpos : 0 < placed context.scale bits) :
    2 ^ 52 ≤ placed context.scale bits := by
  obtain ⟨n, hn⟩ := context.exists_isNearest_placed h
  have hn0 : n ≠ 0 := by
    rintro rfl
    rw [Nat.cast_zero, zero_div, ← value_zero] at hn
    exact hpos.ne ((isNearest_value 0).unique hn)
  have hleast : value (powerBits (-50)) ≤ n / 10 ^ context.places := by
    have hone : (1 : ℚ) ≤ n := by exact_mod_cast Nat.pos_of_ne_zero hn0
    rw [value_powerBits (by norm_num)]
    calc (2 : ℚ) ^ (-50 : Int) ≤ 1 / 10 ^ 15 := by norm_num
      _ ≤ 1 / 10 ^ context.places := one_div_le_one_div_of_le (by positivity)
          (pow_le_pow_right₀ (by norm_num) (by
            unfold places
            omega))
      _ ≤ n / 10 ^ context.places := div_le_div_of_nonneg_right hone (by positivity)
  calc 2 ^ 52 ≤ powerBits (-50) := by decide
    _ ≤ placed context.scale bits := (isNearest_value _).mono hn hleast

/-- The size of a rounded number, and that only numbers other than zero have a sign. -/
theorem sizeBits_roundNumber (hx : x.isFinite) :
    sizeBits (context.roundNumber x) = placed context.scale (sizeBits x) ∧
      (isNegative (context.roundNumber x) → 0 < sizeBits (context.roundNumber x)) := by
  obtain ⟨hsign, hsize⟩ := context.placedNumber_spec hx
  have hfinite : (context.placedNumber x).isFinite := by
    rw [isFinite_iff, hsize]
    exact placed_lt context.one_le_scale ((isFinite_iff x).1 hx)
  have hzero : context.placedNumber x == 0.0 ↔ sizeBits (context.placedNumber x) = 0 := by
    have hrank : rank 0.0 = 0 := by decide
    rw [beq_iff_rank_eq (isNaN_of_isFinite hfinite) rfl, hrank]
    unfold rank signed
    split <;> omega
  rw [roundNumber_eq]
  split
  · next h =>
    rw [hzero, hsize] at h
    rw [h]
    exact ⟨rfl, fun hneg => absurd hneg (by decide)⟩
  · next h => exact ⟨hsize, fun _ => Nat.pos_of_ne_zero (mt hzero.2 h)⟩

/-! ## Texts -/

/-- The last digit behind the point is not zero. -/
theorem getLast?_positional (x : Float) : (positional x).fraction.getLast? ≠ some '0' := by
  rcases lt_or_ge (Magnitude.ofBits (sizeBits x)).written.exponent 0 with h | h
  · rw [positional, Decimal.getLast?_fraction _ h, ne_eq, Option.some.injEq, Nat.digitChar_eq_zero]
    exact Magnitude.last_digit_written h
  · have hlength := (Magnitude.ofBits (sizeBits x)).written.length_fraction
    have hnil : (positional x).fraction = [] := List.eq_nil_of_length_eq_zero (by
      rw [positional, hlength]
      omega)
    simp [hnil]

/-- A number other than zero is written with a digit other than zero. -/
theorem exists_ne_zero_positional (h : 0 < sizeBits x) :
    ∃ c ∈ (positional x).whole ++ (positional x).fraction, c ≠ '0' := by
  refine (positional x).exists_ne_zero ?_
  rw [positional, Decimal.digits_toPositional]
  exact mul_ne_zero (Magnitude.digits_written_ne_zero h) (pow_ne_zero _ (by norm_num))

/-- A rounded number is written with no more digits behind the point than it has places. -/
theorem length_fraction_roundNumber (hx : x.isFinite) :
    (positional (context.roundNumber x)).fraction.length ≤ context.places := by
  have hbits := (isFinite_iff x).1 hx
  rw [positional, Decimal.length_fraction, (context.sizeBits_roundNumber hx).1]
  rcases Nat.eq_zero_or_pos (placed context.scale (sizeBits x)) with h | hpos
  · rw [h]
    exact Nat.zero_le _
  · obtain ⟨n, hn⟩ := context.exists_isNearest_placed hbits
    have hnumber : (n : ℚ) / 10 ^ context.places =
        Decimal.number { digits := n, exponent := -context.places } := by
      rw [Decimal.number, zpow_neg, zpow_natCast, div_eq_mul_inv]
    rw [hnumber] at hn
    have hle := Magnitude.le_exponent_shortest .up (context.two_pow_le_placed hbits hpos)
      (placed_lt context.one_le_scale hbits) hn
    rw [← Magnitude.written_of_pos hpos] at hle
    dsimp only at hle
    omega

/-- A finite number is written as digits, with no exponent: at least one in front of the point and
at most as many behind it as there are places, the last of them not a zero. A minus sign stands only
in front of digits that are not all zeros. The digits are those of the rounded number. -/
theorem exists_formatNumber_eq (hx : x.isFinite) :
    ∃ (negative : Bool) (p : Positional),
      context.formatNumber x =
          String.ofList ((if negative then ['-'] else []) ++ p.chars context.decimal) ∧
        p.fraction.length ≤ min context.numDecimals.toNat 15 ∧
        p.fraction.getLast? ≠ some '0' ∧
        (negative → ∃ c ∈ p.whole ++ p.fraction, c ≠ '0') ∧
        (Numeral.ofPositional negative p).toFloat = context.roundNumber x := by
  have hfinite := context.isFinite_roundNumber hx
  refine ⟨isNegative (context.roundNumber x), positional (context.roundNumber x), ?_,
    context.length_fraction_roundNumber hx, getLast?_positional _, ?_, ?_⟩
  · rw [← String.ofList_toList (s := context.formatNumber x), context.toList_formatNumber hfinite,
      signChars]
  · intro hnegative
    exact exists_ne_zero_positional ((context.sizeBits_roundNumber hx).2 hnegative)
  · exact Numeral.toFloat_ofPositional hfinite

/-- The rounding of `-0.1 - 0.2` takes away what the sum of doubles has too much. -/
theorem exists_formatNumber_eq_sum :
    (-0.1 - 0.2 : Float).isFinite ∧
      RenderContext.formatNumber { numDecimals := 20 } (-0.1 - 0.2) = "-0.3" ∧
      ∃ (negative : Bool) (p : Positional),
        "-0.3" = String.ofList ((if negative then ['-'] else []) ++ p.chars '.') ∧
          p.fraction.length ≤ min (20 : UInt64).toNat 15 ∧
          p.fraction.getLast? ≠ some '0' ∧
          (negative → ∃ c ∈ p.whole ++ p.fraction, c ≠ '0') ∧
          (Numeral.ofPositional negative p).toFloat = -0.3 := by
  have hfinite : (-0.1 - 0.2 : Float).isFinite := by decide +kernel
  have htext : RenderContext.formatNumber { numDecimals := 20 } (-0.1 - 0.2) = "-0.3" := by
    decide +kernel
  have hrounded : RenderContext.roundNumber { numDecimals := 20 } (-0.1 - 0.2) = -0.3 := by
    decide +kernel
  obtain ⟨negative, p, heq, hlength, hlast, hsign, hvalue⟩ :=
    exists_formatNumber_eq { numDecimals := 20 } hfinite
  exact ⟨hfinite, htext, negative, p, htext ▸ heq, hlength, hlast, hsign,
    hvalue.trans hrounded⟩

end Cartouche.RenderContext
