import Mathlib.Algebra.Order.Floor.Semifield
import Mathlib.Data.Rat.Floor
import Cartouche.Proofs.Number.Rounding

/-!
# Arithmetic of doubles

Products, quotients and whole parts of doubles are exact results, rounded once: the bits of a result
are those of the double nearest to the exact one, and its sign is known too (`mul_spec`, `div_spec`,
`ofQuotient_spec`, `roundHalfAway_spec`). So what is computed in doubles is studied as rational
arithmetic with `roundToBits` in between.
-/

namespace Cartouche.Binary64

open Float.Model (UnpackedFloat Format totalExponent)
open Float.Model.UnpackedFloat (Sign ExtendedMantissa Accuracy roundWithAccuracy
  shiftToTargetExponent packComponents)

/-! ## Extended mantissas -/

/-- A mantissa with its first digit behind the point stands for a number: whether more digits follow
is known, but not which. -/
def Stands (em : ExtendedMantissa) (x : ℚ) : Prop :=
  ∃ rest : ℚ, 0 ≤ rest ∧ rest < 1 ∧ (rest = 0 ↔ em.stickyBit = false) ∧
    x = em.mantissa + (em.roundBit.toNat + rest) / 2

/-- Moving the point by one place. -/
theorem Stands.shiftRightOne {em : ExtendedMantissa} {x : ℚ} (h : Stands em x) :
    Stands em.shiftRightOne (x / 2) := by
  obtain ⟨rest, h0, h1, hsticky, rfl⟩ := h
  have hdigit : (em.mantissa : ℚ) =
      2 * (em.mantissa / 2 : Nat) + (em.mantissa % 2 != 0).toNat := by
    have hsplit := Nat.div_add_mod em.mantissa 2
    have hbit : (em.mantissa % 2 != 0).toNat = em.mantissa % 2 := by
      rcases Nat.mod_two_eq_zero_or_one em.mantissa with h | h <;> rw [h] <;> rfl
    rw [hbit]
    exact_mod_cast hsplit.symm
  refine ⟨(em.roundBit.toNat + rest) / 2, ?_, ?_, ?_, ?_⟩
  · positivity
  · cases em.roundBit with
    | false => simp only [Bool.toNat_false, Nat.cast_zero]; linarith
    | true => simp only [Bool.toNat_true, Nat.cast_one]; linarith
  · simp only [ExtendedMantissa.shiftRightOne]
    cases em.roundBit with
    | false => simp [hsticky]
    | true =>
      have : ((1 : ℚ) + rest) / 2 ≠ 0 := by positivity
      simp [this]
  · simp only [ExtendedMantissa.shiftRightOne]
    linear_combination hdigit / 2

/-- Cutting off digits divides the number by a power of two. The first digit that is cut off and
whether there are others is all that is kept of them. -/
theorem Stands.shiftRight {em : ExtendedMantissa} {x : ℚ} (h : Stands em x) (n : Nat) :
    Stands (em >>> n) (x / 2 ^ n) := by
  induction n with
  | zero =>
    rw [pow_zero, div_one]
    exact h
  | succ n ih =>
    rw [pow_succ, ← div_div]
    exact ih.shiftRightOne

/-- The mantissa is the integer part, and it is rounded to the nearest natural. -/
theorem Stands.roundsTo {em : ExtendedMantissa} {x : ℚ} (h : Stands em x) :
    RoundsTo x em.mantissa em.roundedMantissa := by
  obtain ⟨mantissa, roundBit, stickyBit⟩ := em
  obtain ⟨rest, h0, h1, hsticky, rfl⟩ := h
  simp only at hsticky ⊢
  cases roundBit with
  | false =>
    simp only [Bool.toNat_false, Nat.cast_zero]
    refine ⟨by linarith, by linarith, .inl ⟨?_, .inl (by linarith)⟩⟩
    cases stickyBit <;> rfl
  | true =>
    simp only [Bool.toNat_true, Nat.cast_one]
    refine ⟨by linarith, by linarith, ?_⟩
    cases stickyBit with
    | true =>
      have hpos : 0 < rest := h0.lt_of_ne fun h => by simp [h.symm] at hsticky
      exact .inr ⟨rfl, .inl (by linarith)⟩
    | false =>
      obtain rfl : rest = 0 := hsticky.2 rfl
      have hround : ExtendedMantissa.roundedMantissa ⟨mantissa, true, false⟩ =
          mantissa + mantissa % 2 := rfl
      rw [hround]
      rcases Nat.mod_two_eq_zero_or_one mantissa with h | h
      · exact .inl ⟨by omega, .inr ⟨by ring, h⟩⟩
      · exact .inr ⟨by omega, .inr ⟨by ring, h⟩⟩

/-! ## Finite results -/

/-- What a sign and bits without sign stand for if exponents had no upper bound. -/
def unbounded (sign : Sign) (bits : Nat) : UnpackedFloat :=
  if h : 0 < mantissaOf bits then .finite sign (mantissaOf bits) (exponentOf bits) h
  else .zero sign

/-- Without a mantissa bits stand for a zero. -/
theorem unbounded_of_mantissaOf_eq_zero (sign : Sign) {bits : Nat} (h : mantissaOf bits = 0) :
    unbounded sign bits = .zero sign :=
  dif_neg (Nat.not_lt.2 h.le)

/-- With a mantissa bits stand for a finite number, however large the exponent is. -/
theorem unbounded_of_mantissaOf_pos (sign : Sign) {bits : Nat} (h : 0 < mantissaOf bits) :
    unbounded sign bits = .finite sign (mantissaOf bits) (exponentOf bits) h :=
  dif_pos h

/-- No bits stand for zero here, too. -/
@[simp] theorem unbounded_zero (sign : Sign) : unbounded sign 0 = .zero sign :=
  unbounded_of_mantissaOf_eq_zero sign rfl

/-- All other bits stand for a mantissa and an exponent, those of infinity and beyond included. -/
theorem unbounded_pos (sign : Sign) {bits : Nat} (h : 0 < bits) :
    unbounded sign bits =
      .finite sign (mantissaOf bits) (exponentOf bits) (mantissaOf_pos h) :=
  unbounded_of_mantissaOf_pos sign (mantissaOf_pos h)

/-- Below the bits of infinity the bound on the exponents makes no difference. -/
theorem decode_eq_unbounded (sign : Sign) {bits : Nat} (h : bits < infinityBits) :
    decode sign bits = unbounded sign bits := by
  rcases Nat.eq_zero_or_pos bits with rfl | hpos
  · rw [decode_zero, unbounded_zero]
  · rw [decode_finite sign hpos h, unbounded_pos sign hpos]

/-- A mantissa with a leading digit has 53 digits. -/
theorem log2_eq_of_full {m : Nat} (hfull : 2 ^ 52 ≤ m) (hshort : m < 2 ^ 53) : m.log2 = 52 :=
  (Nat.log2_eq_iff (by omega)).2 ⟨hfull, hshort⟩

/-- A mantissa has at most 53 digits. -/
theorem log2_le_of_short {m : Nat} (h : m < 2 ^ 53) : m.log2 ≤ 52 := by
  by_cases h0 : m = 0
  · simp [h0]
  · have := (Nat.log2_lt h0).2 h
    omega

/-- The least exponent at which a mantissa has no digit too many. -/
theorem targetExponent_eq (m : Nat) (e : Int) :
    Format.binary64.targetExponent (totalExponent m e) = max (m.log2 + e - 52) (-1074) := by
  have hmantissaBits : Format.binary64.mantissaBits = 53 := rfl
  simp only [Format.targetExponent, totalExponent, hmantissaBits, Format.minExponent]
  norm_num
  congr 1
  ring

/-- A rounded mantissa is carried where it has a digit too many, and stays as it is elsewhere. -/
theorem shiftToTargetExponent_carry {m : Nat} {e : Int}
    (h : m = 2 ^ 53 ∨ m < 2 ^ 53 ∧ (e = -1074 ∨ 2 ^ 52 ≤ m)) (he : -1074 ≤ e) :
    (shiftToTargetExponent Format.binary64 m e .exact).1.mantissa = (carry m e).1 ∧
      (shiftToTargetExponent Format.binary64 m e .exact).2 = (carry m e).2 := by
  unfold shiftToTargetExponent Float.Model.UnpackedFloat.shiftToExponent carry
  rw [targetExponent_eq]
  rcases h with rfl | ⟨hshort, hfull⟩
  · have hshift : (max (((2 ^ 53 : Nat).log2 : Int) + e - 52) (-1074) - e).toNat = 1 := by
      rw [Nat.log2_two_pow]
      omega
    simp only [hshift, if_true]
    exact ⟨rfl, rfl⟩
  · have hlog := log2_le_of_short hshort
    have hshift : (max ((m.log2 : Int) + e - 52) (-1074) - e).toNat = 0 := by
      rcases hfull with hfull | hfull
      · omega
      · have := log2_eq_of_full hfull hshort
        omega
    simp only [hshift, if_neg hshort.ne]
    exact ⟨rfl, by simp⟩

/-- A number that begins with the digits of a mantissa is canonical at the target exponent. -/
theorem isCanonical_target {m floor rounded : Nat} {e : Int} {q : ℚ} (hle : m ≤ q / 2 ^ e)
    (hlt : q / 2 ^ e < m + 1) (he : e ≤ -1074 ∨ 52 ≤ m.log2)
    (h : RoundsTo (q / 2 ^ max ((m.log2 : Int) + e - 52) (-1074)) floor rounded) :
    IsCanonical floor (max ((m.log2 : Int) + e - 52) (-1074)) := by
  have hstep : (0 : ℚ) < 2 ^ e := zpow_pos two_pos e
  have hhigh : q < 2 ^ (m.log2 + e + 1) := by
    have hm : (m : ℚ) + 1 ≤ 2 ^ (m.log2 + 1) := by exact_mod_cast (Nat.lt_log2_self (n := m))
    calc q < (m + 1) * 2 ^ e := (div_lt_iff₀ hstep).1 hlt
      _ ≤ 2 ^ (m.log2 + 1) * 2 ^ e := mul_le_mul_of_nonneg_right hm hstep.le
      _ = 2 ^ (m.log2 + e + 1) := by
        rw [← zpow_natCast, ← zpow_add₀ two_ne_zero]
        congr 1
        push_cast
        ring
  refine isCanonical_floor h (le_max_right _ _)
    (hhigh.trans_le (zpow_le_zpow_right₀ one_le_two (by omega))) ?_
  by_cases hleast : max ((m.log2 : Int) + e - 52) (-1074) = -1074
  · exact .inl hleast
  · right
    have hm : m ≠ 0 := by
      rintro rfl
      simp only [Nat.log2_zero] at *
      omega
    have hpow : (2 : ℚ) ^ m.log2 ≤ m := by exact_mod_cast Nat.log2_self_le hm
    calc (2 : ℚ) ^ (max ((m.log2 : Int) + e - 52) (-1074) + 52) = 2 ^ m.log2 * 2 ^ e := by
          rw [← zpow_natCast, ← zpow_add₀ two_ne_zero]
          congr 1
          omega
      _ ≤ m * 2 ^ e := mul_le_mul_of_nonneg_right hpow hstep.le
      _ ≤ q := (le_div_iff₀ hstep).1 hle

/-- The rounding of the arithmetic operations leads to the nearest bits. The mantissa has enough
digits, or the exponent is so low that they are not needed. -/
theorem exists_roundWithAccuracy (sign : Sign) {m : Nat} {e : Int} {accuracy : Accuracy} {q : ℚ}
    (h : Stands (.ofMantissaAndAccuracy m accuracy) (q / 2 ^ e)) (he : e ≤ -1074 ∨ 52 ≤ m.log2) :
    ∃ bits, IsNearest q bits ∧
      roundWithAccuracy Format.binary64 sign m e accuracy = unbounded sign bits := by
  set t : Int := max (m.log2 + e - 52) (-1074) with ht
  have hshift : e + ((t - e).toNat : Int) = t := by omega
  set em := ExtendedMantissa.ofMantissaAndAccuracy m accuracy >>> (t - e).toNat with hem
  have hstands : Stands em (q / 2 ^ t) := by
    have := h.shiftRight (t - e).toNat
    rwa [div_div, ← zpow_natCast, ← zpow_add₀ two_ne_zero, hshift] at this
  have hround := hstands.roundsTo
  have hfloor := h.roundsTo
  have hmantissa : (ExtendedMantissa.ofMantissaAndAccuracy m accuracy).mantissa = m := by
    rcases accuracy with _ | _ | _ | _ <;> rfl
  rw [hmantissa] at hfloor
  have hcanonical : IsCanonical em.mantissa t :=
    isCanonical_target hfloor.le hfloor.lt he hround
  obtain ⟨hcarried, hbits⟩ := hround.carry hcanonical
  have hnearest := hround.isNearest hcanonical
  rw [div_mul_cancel₀ _ (zpow_pos two_pos t).ne', ← hbits] at hnearest
  have hfirst : shiftToTargetExponent Format.binary64 m e accuracy = (em, t) := by
    unfold shiftToTargetExponent Float.Model.UnpackedFloat.shiftToExponent
    rw [targetExponent_eq, ← ht]
    exact congrArg (Prod.mk em) hshift
  obtain ⟨hsecond, hsecond'⟩ := shiftToTargetExponent_carry (m := em.roundedMantissa) (e := t) (by
    have := hcanonical.short
    have := hcanonical.full
    have := hround.eq_or
    omega) hcanonical.lower
  refine ⟨_, hnearest, ?_⟩
  unfold roundWithAccuracy
  rw [hfirst]
  by_cases h0 : (carry em.roundedMantissa t).1 = 0
  · refine (dif_pos (hsecond.trans h0)).trans (unbounded_of_mantissaOf_eq_zero sign ?_).symm
    rw [hcarried.mantissaOf_bitsOf, h0]
  · refine (dif_neg fun hzero => h0 (hsecond.symm.trans hzero)).trans ?_
    have hpos : 0 < mantissaOf (bitsOf (carry em.roundedMantissa t).1
        (carry em.roundedMantissa t).2) := by
      rw [hcarried.mantissaOf_bitsOf]
      exact Nat.pos_of_ne_zero h0
    rw [unbounded_of_mantissaOf_pos sign hpos]
    exact finite_congr (hsecond.trans hcarried.mantissaOf_bitsOf.symm)
      (hsecond'.trans hcarried.exponentOf_bitsOf.symm)

/-! ## Bits of results -/

/-- The bit of a sign is the sign again. -/
theorem toNat_toBitVec_signOf (negative : Bool) :
    (signOf negative).toBitVec.toNat = negative.toNat := by
  cases negative <;> rfl

/-- Packed fields are put side by side: the sign, the exponent field and the last 52 digits of the
mantissa. -/
theorem toNat_packComponents (negative : Bool) {exponent mantissa : Nat}
    (hexponent : exponent < 2 ^ 11) :
    (packComponents Format.binary64 (signOf negative) (BitVec.ofNat 11 exponent)
      (BitVec.ofNat 52 mantissa)).toNat =
        negative.toNat * 2 ^ 63 + exponent * 2 ^ 52 + mantissa % 2 ^ 52 := by
  have hmantissa : mantissa % 2 ^ 52 < 2 ^ 52 := Nat.mod_lt _ (Nat.two_pow_pos 52)
  show ((signOf negative).toBitVec ++ BitVec.ofNat 11 exponent ++ BitVec.ofNat 52 mantissa).toNat =
    _
  rw [BitVec.toNat_append, BitVec.toNat_append, toNat_toBitVec_signOf, BitVec.toNat_ofNat,
    BitVec.toNat_ofNat, Nat.mod_eq_of_lt hexponent, ← Nat.shiftLeft_add_eq_or_of_lt hmantissa,
    ← Nat.shiftLeft_add_eq_or_of_lt hexponent, Nat.shiftLeft_eq, Nat.shiftLeft_eq]
  ring

/-- The bits of an infinity. -/
theorem toNat_pack_infinity (negative : Bool) :
    (UnpackedFloat.pack Format.binary64 (.infinity (signOf negative))).toNat =
      negative.toNat * 2 ^ 63 + infinityBits := by
  cases negative <;> decide +kernel

/-- The leading digit of a mantissa counts as one in the exponent field. -/
theorem bitsOf_of_leading {m : Nat} {e : Int} (h : IsCanonical m e) (hleading : 2 ^ 52 ≤ m) :
    bitsOf m e = (e + 1075).toNat * 2 ^ 52 + m % 2 ^ 52 := by
  obtain ⟨hlower, hshort, hfull⟩ := h
  unfold bitsOf
  omega

/-- Without a leading digit the exponent is the least one, so the exponent field is zero. -/
theorem bitsOf_of_no_leading {m : Nat} {e : Int} (h : IsCanonical m e) (hleast : m < 2 ^ 52) :
    bitsOf m e = 0 * 2 ^ 52 + m % 2 ^ 52 := by
  obtain ⟨hlower, hshort, hfull⟩ := h
  unfold bitsOf
  omega

/-- Bits are cut off at infinity when the exponent field has no room for the exponent. -/
theorem min_bitsOf {m : Nat} {e : Int} (h : IsCanonical m e) :
    min (bitsOf m e) infinityBits =
      if 2048 ≤ (e + 1075).toNat + 1 then infinityBits else bitsOf m e := by
  obtain ⟨hlower, hshort, hfull⟩ := h
  unfold bitsOf infinityBits
  split <;> omega

/-- The bits of a mantissa and an exponent, which are cut off at infinity. -/
theorem toNat_pack_finite (negative : Bool) {m : Nat} {e : Int} (hpos : 0 < m)
    (h : IsCanonical m e) :
    (UnpackedFloat.pack Format.binary64 (.finite (signOf negative) m e hpos)).toNat =
      negative.toNat * 2 ^ 63 + min (bitsOf m e) infinityBits := by
  have hbiased : (e + Format.binary64.exponentBias +
      Format.binary64.mantissaBitsWithoutImplicit).toNat = (e + 1075).toNat := by
    have := h.lower
    show (e + 1023 + 52).toNat = _
    omega
  have hpack : UnpackedFloat.pack Format.binary64 (.finite (signOf negative) m e hpos) =
      if 2 ^ Format.binary64.exponentBits ≤ (e + Format.binary64.exponentBias +
          Format.binary64.mantissaBitsWithoutImplicit).toNat + 1 then
        UnpackedFloat.packedInfinity Format.binary64 (signOf negative)
      else if m.log2 + 1 = Format.binary64.mantissaBits then
        UnpackedFloat.packComponents Format.binary64 (signOf negative)
          (.ofNat _ (e + Format.binary64.exponentBias +
            Format.binary64.mantissaBitsWithoutImplicit).toNat) (.ofNat _ m)
      else
        UnpackedFloat.packComponents Format.binary64 (signOf negative) 0#_ (.ofNat _ m) := rfl
  have hbits : 2 ^ Format.binary64.exponentBits = 2048 := rfl
  have hmantissaBits : Format.binary64.mantissaBits = 52 + 1 := rfl
  rw [hpack]
  simp only [hbiased, hbits, hmantissaBits, Nat.add_right_cancel_iff, min_bitsOf h]
  by_cases hlarge : 2048 ≤ (e + 1075).toNat + 1
  · rw [if_pos hlarge, if_pos hlarge]
    exact toNat_pack_infinity negative
  · rw [if_neg hlarge, if_neg hlarge]
    by_cases hleading : 2 ^ 52 ≤ m
    · have hexponent : (e + 1075).toNat < 2 ^ 11 := by omega
      rw [if_pos (log2_eq_of_full hleading h.short), bitsOf_of_leading h hleading, ← add_assoc]
      exact toNat_packComponents negative hexponent
    · have hlog : m.log2 ≠ 52 := by
        have := (Nat.log2_lt hpos.ne').2 (not_le.1 hleading)
        omega
      rw [if_neg hlog, bitsOf_of_no_leading h (not_le.1 hleading), ← add_assoc]
      exact toNat_packComponents negative (Nat.two_pow_pos 11)

/-- The bits of a finite result, which is cut off at infinity. -/
theorem toNat_pack_unbounded (negative : Bool) (bits : Nat) :
    (UnpackedFloat.pack Format.binary64 (unbounded (signOf negative) bits)).toNat =
      negative.toNat * 2 ^ 63 + min bits infinityBits := by
  rcases Nat.eq_zero_or_pos bits with rfl | hpos
  · rw [unbounded_zero]
    cases negative <;> decide +kernel
  · rw [unbounded_pos _ hpos, toNat_pack_finite negative _ (isCanonical_fields bits),
      bitsOf_fields]

/-- The bits of what bits stand for are these bits again. -/
theorem toNat_pack_decode (negative : Bool) {bits : Nat} (h : bits ≤ infinityBits) :
    (UnpackedFloat.pack Format.binary64 (decode (signOf negative) bits)).toNat =
      negative.toNat * 2 ^ 63 + bits := by
  rcases h.lt_or_eq with hlt | rfl
  · rw [decode_eq_unbounded _ hlt, toNat_pack_unbounded, min_eq_left h]
  · rw [decode_infinity]
    exact toNat_pack_infinity negative

/-! ## Results -/

/-- There is room for the sign in front of the bits of infinity. -/
theorem infinityBits_lt : infinityBits < 2 ^ 63 := by decide

/-- The sign and the bits of a double from all its bits. -/
theorem isNegative_and_sizeBits {x : Float} {negative : Bool} {bits : Nat}
    (h : x.toBits.toNat = negative.toNat * 2 ^ 63 + bits) (hbits : bits ≤ infinityBits) :
    isNegative x = negative ∧ sizeBits x = bits := by
  have hlt : bits < 2 ^ 63 := hbits.trans_lt infinityBits_lt
  rw [isNegative_eq, sizeBits, h]
  cases negative with
  | false =>
    refine ⟨?_, ?_⟩
    · rw [beq_eq_false_iff_ne, Bool.toNat_false]
      omega
    · rw [Bool.toNat_false]
      omega
  | true =>
    refine ⟨?_, ?_⟩
    · rw [beq_iff_eq, Bool.toNat_true]
      omega
    · rw [Bool.toNat_true]
      omega

/-- A finite double is what its sign and its bits stand for. This is how the operands of all results
are opened. -/
theorem unpack_of_isFinite {x : Float} (h : x.isFinite) :
    x.toModel.unpack = unbounded (signOf (isNegative x)) (sizeBits x) := by
  rw [unpack_toModel, decode_eq_unbounded _ ((isFinite_iff x).1 h)]

/-- A result that is rounded in the grid without end is a double cut off at infinity. -/
theorem isNegative_and_sizeBits_of_unbounded {x : Float} {negative : Bool} {q : ℚ} {bits : Nat}
    (h : x.toModel = .pack (unbounded (signOf negative) bits)) (hnearest : IsNearest q bits)
    (hq : 0 ≤ q) : isNegative x = negative ∧ sizeBits x = roundToBits q := by
  rw [hnearest.roundToBits_eq hq]
  refine isNegative_and_sizeBits ?_ (min_le_right _ _)
  have hbits : x.toBits = (Float.Model.pack (unbounded (signOf negative) bits)).toBits :=
    congrArg Float.Model.toBits h
  rw [hbits]
  exact toNat_pack_unbounded negative bits

/-- The sign of a product. -/
theorem signOf_mul : ∀ m n, signOf m * signOf n = signOf (m != n) := by
  rintro (_ | _) (_ | _) <;> rfl

/-- The sign of a quotient. -/
theorem signOf_div : ∀ m n, signOf m / signOf n = signOf (m != n) := by
  rintro (_ | _) (_ | _) <;> rfl

/-- Two mantissas have digits enough for their product, unless both exponents are the least one. -/
theorem digits_mul {m n : Nat} {e f : Int} (hm : IsCanonical m e) (hn : IsCanonical n f)
    (hm0 : 0 < m) (hn0 : 0 < n) : e + f ≤ -1074 ∨ 52 ≤ (m * n).log2 := by
  have hlog : 2 ^ 52 ≤ m * n → 52 ≤ (m * n).log2 :=
    (Nat.le_log2 (Nat.mul_pos hm0 hn0).ne').2
  rcases hm.full with rfl | hm
  · rcases hn.full with rfl | hn
    · exact .inl (by omega)
    · exact .inr (hlog (hn.trans (Nat.le_mul_of_pos_left n hm0)))
  · exact .inr (hlog (hm.trans (Nat.le_mul_of_pos_right m hn0)))

/-- The product of two finite doubles, before results beyond the range are cut off: the exact
product, rounded to the nearest bits. -/
theorem exists_mul (sign sign' : Sign) (a b : Nat) :
    ∃ bits, IsNearest (value a * value b) bits ∧
      UnpackedFloat.mul Format.binary64 (unbounded sign a) (unbounded sign' b) =
        unbounded (sign * sign') bits := by
  rcases Nat.eq_zero_or_pos a with rfl | ha
  · refine ⟨0, by simpa using isNearest_value 0, ?_⟩
    rcases Nat.eq_zero_or_pos b with rfl | hb
    · rw [unbounded_zero, unbounded_zero, unbounded_zero]
      rfl
    · rw [unbounded_zero, unbounded_pos _ hb, unbounded_zero]
      rfl
  · rcases Nat.eq_zero_or_pos b with rfl | hb
    · refine ⟨0, by simpa using isNearest_value 0, ?_⟩
      rw [unbounded_zero, unbounded_pos _ ha, unbounded_zero]
      rfl
    · rw [unbounded_pos _ ha, unbounded_pos _ hb]
      refine exists_roundWithAccuracy _ ⟨0, le_rfl, one_pos, ?_, ?_⟩
        (digits_mul (isCanonical_fields a) (isCanonical_fields b) (mantissaOf_pos ha)
          (mantissaOf_pos hb))
      · exact ⟨fun _ => rfl, fun _ => rfl⟩
      · have hstep : (2 : ℚ) ^ exponentOf a ≠ 0 := (ulp_pos a).ne'
        have hstep' : (2 : ℚ) ^ exponentOf b ≠ 0 := (ulp_pos b).ne'
        rw [value, value, ulp, ulp, zpow_add₀ two_ne_zero]
        simp only [UnpackedFloat.ExtendedMantissa.ofMantissaAndAccuracy, Bool.toNat_false]
        push_cast
        field_simp
        ring

/-- The product of two doubles is the nearest double to the product of the numbers. -/
theorem mul_spec {x y : Float} (hx : x.isFinite) (hy : y.isFinite) :
    isNegative (x * y) = (isNegative x != isNegative y) ∧
      sizeBits (x * y) = roundToBits (value (sizeBits x) * value (sizeBits y)) := by
  have hmodel : (x * y).toModel =
      .pack (UnpackedFloat.mul Format.binary64 x.toModel.unpack y.toModel.unpack) := rfl
  obtain ⟨bits, hnearest, hmul⟩ := exists_mul (signOf (isNegative x)) (signOf (isNegative y))
    (sizeBits x) (sizeBits y)
  rw [unpack_of_isFinite hx, unpack_of_isFinite hy, hmul, signOf_mul] at hmodel
  exact isNegative_and_sizeBits_of_unbounded hmodel hnearest
    (mul_nonneg (value_nonneg _) (value_nonneg _))

/-- A quotient of naturals stands where the remainder is compared with half the denominator. -/
theorem stands_fraction (num : Nat) {den : Nat} (h : 0 < den) :
    Stands (.ofMantissaAndAccuracy (num / den)
      (UnpackedFloat.accuracyOfFraction (num % den) den)) (num / den) := by
  have hden : (0 : ℚ) < den := by exact_mod_cast h
  have hlt : ((num % den : Nat) : ℚ) < den := by exact_mod_cast Nat.mod_lt num h
  have hdouble : ((2 * (num % den) : Nat) : ℚ) / den = 2 * ((num % den : Nat) / den) := by
    push_cast
    ring
  rw [natCast_div_eq num h]
  unfold UnpackedFloat.accuracyOfFraction
  split
  · next h0 =>
    exact ⟨0, le_rfl, one_pos, ⟨fun _ => rfl, fun _ => rfl⟩,
      by simp [h0, ExtendedMantissa.ofMantissaAndAccuracy]⟩
  · next h0 =>
    have hpos : (0 : ℚ) < (num % den : Nat) := by exact_mod_cast Nat.pos_of_ne_zero h0
    rcases Nat.lt_trichotomy (2 * (num % den)) den with hr | hr | hr
    · rw [Nat.compare_eq_lt.2 hr]
      have hrest : ((2 * (num % den) : Nat) : ℚ) / den < 1 :=
        (div_lt_one hden).2 (by exact_mod_cast hr)
      refine ⟨2 * ((num % den : Nat) / den), by positivity, hdouble ▸ hrest, ?_, ?_⟩
      · have : 2 * (((num % den : Nat) : ℚ) / den) ≠ 0 := by positivity
        simp [ExtendedMantissa.ofMantissaAndAccuracy, this]
      · simp only [ExtendedMantissa.ofMantissaAndAccuracy, Bool.toNat_false]
        push_cast
        ring
    · rw [Nat.compare_eq_eq.2 hr]
      have hrest : ((2 * (num % den) : Nat) : ℚ) / den = 1 :=
        (div_eq_one_iff_eq hden.ne').2 (by exact_mod_cast hr)
      refine ⟨0, le_rfl, one_pos, ⟨fun _ => rfl, fun _ => rfl⟩, ?_⟩
      simp only [ExtendedMantissa.ofMantissaAndAccuracy, Bool.toNat_true]
      push_cast
      linarith
    · rw [Nat.compare_eq_gt.2 hr]
      have hrest : 1 < ((2 * (num % den) : Nat) : ℚ) / den :=
        (one_lt_div hden).2 (by exact_mod_cast hr)
      have hone : ((num % den : Nat) : ℚ) / den < 1 := (div_lt_one hden).2 hlt
      refine ⟨2 * ((num % den : Nat) / den) - 1, by linarith, by linarith, ?_, ?_⟩
      · have : 2 * (((num % den : Nat) : ℚ) / den) - 1 ≠ 0 := by linarith
        simp [ExtendedMantissa.ofMantissaAndAccuracy, this]
      · simp only [ExtendedMantissa.ofMantissaAndAccuracy, Bool.toNat_true]
        push_cast
        ring

/-- The integer part of a quotient has digits enough, since the exponent is chosen so low. -/
theorem digits_divCore {m n : Nat} (e f : Int) (hm : 0 < m) (hn : 0 < n) :
    (UnpackedFloat.divCore Format.binary64 m e n f).2.1 ≤ -1074 ∨
      52 ≤ (UnpackedFloat.divCore Format.binary64 m e n f).1.log2 := by
  unfold UnpackedFloat.divCore
  extract_lets target shift scaled
  by_cases hleast : target ≤ -1074
  · exact .inl hleast
  · right
    have htarget : target ≤ (m.log2 : Int) + e - (n.log2 + f) - 53 := by
      have hle : target ≤ max (totalExponent m e - totalExponent n f - 53) (-1074) :=
        min_le_right _ _
      unfold totalExponent at hle
      omega
    have hlog : n.log2 + 53 ≤ m.log2 + shift := by omega
    have hlarge : n * 2 ^ 52 ≤ scaled :=
      calc n * 2 ^ 52 ≤ 2 ^ (n.log2 + 1) * 2 ^ 52 :=
            Nat.mul_le_mul_right _ Nat.lt_log2_self.le
        _ = 2 ^ (n.log2 + 53) := by rw [← Nat.pow_add]
        _ ≤ 2 ^ (m.log2 + shift) := Nat.pow_le_pow_right two_pos hlog
        _ = 2 ^ m.log2 * 2 ^ shift := Nat.pow_add ..
        _ ≤ m * 2 ^ shift := Nat.mul_le_mul_right _ (Nat.log2_self_le hm.ne')
        _ = scaled := (Nat.shiftLeft_eq m shift).symm
    have hquotient : 2 ^ 52 ≤ scaled / n := by
      rw [Nat.le_div_iff_mul_le hn, Nat.mul_comm]
      exact hlarge
    exact (Nat.le_log2 (by omega)).2 hquotient

/-- The quotient of mantissas stands for the exact quotient: the remainder tells the digits that
follow. -/
theorem stands_divCore (m : Nat) {n : Nat} (e f : Int) (hn : 0 < n) :
    Stands (.ofMantissaAndAccuracy (UnpackedFloat.divCore Format.binary64 m e n f).1
      (UnpackedFloat.divCore Format.binary64 m e n f).2.2)
      (m * 2 ^ e / (n * 2 ^ f) / 2 ^ (UnpackedFloat.divCore Format.binary64 m e n f).2.1) := by
  unfold UnpackedFloat.divCore
  extract_lets target shift scaled
  have hshift : e = f + target + shift := by omega
  have hscaled : (m : ℚ) * 2 ^ e / (n * 2 ^ f) / 2 ^ target = (scaled : ℚ) / n := by
    have hm : (scaled : ℚ) = m * 2 ^ shift := by
      simp only [scaled, Nat.shiftLeft_eq]
      push_cast
      rfl
    rw [hm, hshift, zpow_add₀ two_ne_zero, zpow_add₀ two_ne_zero, zpow_natCast]
    field_simp
  rw [hscaled]
  exact stands_fraction scaled hn

/-- The quotient of two finite doubles, before results beyond the range are cut off: the exact
quotient, rounded to the nearest bits. -/
theorem exists_div (sign sign' : Sign) (a : Nat) {b : Nat} (hb : 0 < b) :
    ∃ bits, IsNearest (value a / value b) bits ∧
      UnpackedFloat.div Format.binary64 (unbounded sign a) (unbounded sign' b) =
        unbounded (sign / sign') bits := by
  rcases Nat.eq_zero_or_pos a with rfl | ha
  · refine ⟨0, by simpa using isNearest_value 0, ?_⟩
    rw [unbounded_zero, unbounded_pos _ hb, unbounded_zero]
    rfl
  · rw [unbounded_pos _ ha, unbounded_pos _ hb]
    exact exists_roundWithAccuracy _ (stands_divCore _ _ _ (mantissaOf_pos hb))
      (digits_divCore _ _ (mantissaOf_pos ha) (mantissaOf_pos hb))

/-- The quotient of two doubles is the nearest double to the quotient of the numbers. -/
theorem div_spec {x y : Float} (hx : x.isFinite) (hy : y.isFinite) (hy0 : 0 < sizeBits y) :
    isNegative (x / y) = (isNegative x != isNegative y) ∧
      sizeBits (x / y) = roundToBits (value (sizeBits x) / value (sizeBits y)) := by
  have hmodel : (x / y).toModel =
      .pack (UnpackedFloat.div Format.binary64 x.toModel.unpack y.toModel.unpack) := rfl
  obtain ⟨bits, hnearest, hdiv⟩ := exists_div (signOf (isNegative x)) (signOf (isNegative y))
    (sizeBits x) hy0
  rw [unpack_of_isFinite hx, unpack_of_isFinite hy, hdiv, signOf_div] at hmodel
  exact isNegative_and_sizeBits_of_unbounded hmodel hnearest
    (div_nonneg (value_nonneg _) (value_nonneg _))

/-- An infinity stays one when it is divided. -/
theorem sizeBits_div_of_infinite {x y : Float} (hx : sizeBits x = infinityBits) (hy : y.isFinite)
    (hy0 : 0 < sizeBits y) : sizeBits (x / y) = infinityBits := by
  have hmodel : (x / y).toModel =
      .pack (UnpackedFloat.div Format.binary64 x.toModel.unpack y.toModel.unpack) := rfl
  rw [unpack_toModel x, hx, decode_infinity, unpack_of_isFinite hy, unbounded_pos _ hy0] at hmodel
  have hbits : (x / y).toBits.toNat =
      (isNegative x != isNegative y).toNat * 2 ^ 63 + infinityBits := by
    have := toNat_pack_infinity (isNegative x != isNegative y)
    rw [← signOf_div] at this
    rw [← this]
    exact congrArg (fun model : Float.Model => model.toBits.toNat) hmodel
  exact (isNegative_and_sizeBits hbits le_rfl).2

/-! ## Whole parts -/

/-- The exponent field and the mantissa field of a double are those of its bits without sign. -/
theorem fields_mod (bits : Nat) :
    bits / 2 ^ 52 % 2 ^ 11 = bits % 2 ^ 63 / 2 ^ 52 ∧ bits % 2 ^ 52 = bits % 2 ^ 63 % 2 ^ 52 :=
  ⟨(Nat.mod_mul_right_div_self bits (2 ^ 52) (2 ^ 11)).symm,
    (Nat.mod_mod_of_dvd bits (pow_dvd_pow 2 (by decide))).symm⟩

/-- The mantissa and the exponent that a double has stand in its bits without sign. -/
theorem ofFloat_fields (x : Float) :
    (Magnitude.ofFloat x).mantissa = mantissaOf (sizeBits x) ∧
      (Magnitude.ofFloat x).exponent = exponentOf (sizeBits x) := by
  unfold Magnitude.ofFloat sizeBits
  extract_lets bits biased fraction
  have hbiased : biased = bits % 2 ^ 63 / 2 ^ 52 := (fields_mod bits).1
  have hfraction : fraction = bits % 2 ^ 63 % 2 ^ 52 := (fields_mod bits).2
  show _ = mantissaOf (bits % 2 ^ 63) ∧ _ = exponentOf (bits % 2 ^ 63)
  generalize bits % 2 ^ 63 = rest at *
  have hleading : Nat.pow 2 52 = 2 ^ 52 := rfl
  unfold mantissaOf exponentOf
  by_cases h0 : biased = 0
  · have hrest : rest < 2 ^ 52 := by omega
    rw [if_pos h0, if_pos hrest, if_pos hrest]
    exact ⟨by show fraction = rest; omega, rfl⟩
  · have hrest : ¬ rest < 2 ^ 52 := by omega
    rw [if_neg h0, if_neg hrest, if_neg hrest, hfraction, hbiased]
    exact ⟨rfl, by simp⟩

/-- A double that is made from bits has them. -/
theorem toNat_toBits_ofBits (negative : Bool) {bits : Nat} (h : bits ≤ infinityBits) :
    (Float.ofBits (UInt64.ofNat (negative.toNat * 2 ^ 63 + bits))).toBits.toNat =
      negative.toNat * 2 ^ 63 + bits := by
  have hlt : bits < 2 ^ 63 := h.trans_lt infinityBits_lt
  have hnegative : negative.toNat ≤ 1 := negative.toNat_le
  generalize hb : (UInt64.ofNat (negative.toNat * 2 ^ 63 + bits)).toBitVec = b
  have hnat : b.toNat = negative.toNat * 2 ^ 63 + bits := by
    rw [← hb, UInt64.toBitVec_ofNat', BitVec.toNat_ofNat]
    omega
  have hunpack : UnpackedFloat.unpack Format.binary64 b = decode (signOf negative) bits := by
    have hrest : b.toNat % 2 ^ 63 = bits := by omega
    have hsign : (b.toNat / 2 ^ 63 == 1) = negative := by
      cases negative with
      | false =>
        rw [beq_eq_false_iff_ne, hnat, Bool.toNat_false]
        omega
      | true =>
        rw [beq_iff_eq, hnat, Bool.toNat_true]
        omega
    rw [unpack_eq_decode, hrest, hsign]
  show (UnpackedFloat.pack Format.binary64 (UnpackedFloat.unpack Format.binary64
    (UInt64.ofNat (negative.toNat * 2 ^ 63 + bits)).toBitVec)).toNat = _
  rw [hb, hunpack]
  exact toNat_pack_decode negative h

/-- The double made for a quotient is the nearest one. -/
theorem ofQuotient_spec (negative : Bool) (num : Nat) {den : Nat} (hden : 0 < den) :
    isNegative (ofQuotient negative num den) = negative ∧
      sizeBits (ofQuotient negative num den) = roundToBits (num / den) := by
  obtain ⟨hcanonical, hnearest⟩ := nearest_spec num hden
  have hpack : packBits (nearest num den).1 (nearest num den).2 =
      min (nearestBits num den) infinityBits := by
    obtain ⟨hlower, hshort, hfull⟩ := hcanonical
    unfold packBits nearestBits bitsOf infinityBits
    simp only [Nat.pow_eq]
    split
    · omega
    · split <;> omega
  have hsign : (if negative then Nat.pow 2 63 else 0) = negative.toNat * 2 ^ 63 := by
    cases negative <;> rfl
  rw [hnearest.roundToBits_eq (by positivity)]
  unfold ofQuotient
  simp only [hpack, hsign]
  exact isNegative_and_sizeBits (toNat_toBits_ofBits negative (min_le_right _ _))
    (min_le_right _ _)

/-- Adding a half to a natural does not change its integer part, so naturals are rounded to
themselves. -/
theorem floor_add_half (n : Nat) : ⌊(n : ℚ) + 1 / 2⌋₊ = n := by
  rw [Nat.floor_eq_iff (by positivity)]
  exact ⟨le_add_of_nonneg_right (by norm_num), by norm_num⟩

/-- Bits with an exponent that is not negative stand for a natural. -/
theorem value_of_exponentOf_nonneg {bits : Nat} (h : 0 ≤ exponentOf bits) :
    value bits = (mantissaOf bits * 2 ^ (exponentOf bits).toNat : Nat) := by
  have hexponent : exponentOf bits = ((exponentOf bits).toNat : Int) := by omega
  rw [value, ulp, hexponent, zpow_natCast]
  push_cast
  rfl

/-- The integer nearest to a double, as the integer part of what is greater by a half. -/
theorem roundHalfAway_spec {x : Float} (hx : x.isFinite) :
    isNegative (roundHalfAway x) = isNegative x ∧
      sizeBits (roundHalfAway x) = roundToBits ⌊value (sizeBits x) + 1 / 2⌋₊ := by
  obtain ⟨hmantissa, hexponent⟩ := ofFloat_fields x
  have hbits := ((isFinite_iff x).1 hx).le
  unfold roundHalfAway
  simp only [hx, hmantissa, hexponent, Bool.true_and, decide_eq_true_eq]
  split
  · next hneg =>
    set scale := (-exponentOf (sizeBits x)).toNat with hscale
    have hvalue : value (sizeBits x) + 1 / 2 =
        ((2 * mantissaOf (sizeBits x) + 2 ^ scale : Nat) : ℚ) / (2 ^ (scale + 1) : Nat) := by
      have hexp : exponentOf (sizeBits x) = -(scale : Int) := by omega
      rw [value, ulp, hexp, zpow_neg, zpow_natCast]
      push_cast
      field_simp
      ring
    have hspec := ofQuotient_spec (isNegative x)
      ((2 * mantissaOf (sizeBits x) + 2 ^ scale) / 2 ^ (scale + 1)) one_pos
    rw [hvalue, Nat.floor_div_eq_div]
    rw [Nat.cast_one, div_one] at hspec
    exact hspec
  · next hnonneg =>
    refine ⟨rfl, ?_⟩
    have hvalue := value_of_exponentOf_nonneg (not_lt.1 hnonneg)
    rw [hvalue, floor_add_half, ← hvalue, roundToBits_value hbits]

/-- Infinities, and what is not a number, have no other integer next to them. -/
theorem roundHalfAway_of_not_isFinite {x : Float} (hx : x.isFinite = false) :
    roundHalfAway x = x := by
  simp [roundHalfAway, hx]

/-- The largest finite double is an integer, so the integers nearest to finite doubles are not
greater. -/
theorem roundToBits_floor_lt {bits : Nat} (h : bits < infinityBits) :
    roundToBits ⌊value bits + 1 / 2⌋₊ < infinityBits := by
  have hcanonical : IsCanonical (2 ^ 53 - 1) 971 := ⟨by omega, by omega, .inr (by omega)⟩
  have hlast : bitsOf (2 ^ 53 - 1) 971 + 1 = infinityBits := rfl
  obtain ⟨n, hvalue⟩ : ∃ n : Nat, value (bitsOf (2 ^ 53 - 1) 971) = n :=
    ⟨_, value_of_exponentOf_nonneg (by rw [hcanonical.exponentOf_bitsOf]; omega)⟩
  generalize bitsOf (2 ^ 53 - 1) 971 = largest at *
  have hfloor : ⌊value bits + 1 / 2⌋₊ ≤ n :=
    calc ⌊value bits + 1 / 2⌋₊ ≤ ⌊value largest + 1 / 2⌋₊ :=
          Nat.floor_le_floor (add_le_add (strictMono_value.monotone (by omega)) le_rfl)
      _ = n := by rw [hvalue, floor_add_half]
  calc roundToBits ⌊value bits + 1 / 2⌋₊ ≤ roundToBits (value largest) := by
        rw [hvalue]
        exact roundToBits_mono (Nat.cast_nonneg _) (Nat.cast_le.2 hfloor)
    _ = largest := roundToBits_value (by omega)
    _ < infinityBits := by omega

end Cartouche.Binary64
