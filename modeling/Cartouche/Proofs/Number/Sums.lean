import Cartouche.Proofs.Number.Arithmetic

/-!
# Sums, roots and whole numbers as doubles

Sums and differences of doubles are exact ones, rounded once: `Binary64.number` is the number that a
finite double stands for, sign included, and `add_spec` and `sub_spec` say which bits and which sign
a result has. A zero that is the sum of other numbers is positive. `ofNat_spec` says the same of
whole numbers. Roots are irrational, so `sqrt_spec` compares them with powers of two only.
-/

namespace Cartouche.Binary64

open Float.Model (UnpackedFloat Format totalExponent)
open Float.Model.UnpackedFloat (Sign ExtendedMantissa Accuracy roundWithAccuracy decreaseExponent)

/-! ## Exact mantissas -/

/-- A mantissa that is known exactly stands for itself. -/
theorem stands_exact {m : Nat} {x : ℚ} (h : x = m) :
    Stands (.ofMantissaAndAccuracy m .exact) x :=
  ⟨0, le_rfl, one_pos, ⟨fun _ => rfl, fun _ => rfl⟩,
    by simp [h, ExtendedMantissa.ofMantissaAndAccuracy]⟩

/-- Powers of two are positive, so both sides of a comparison can be scaled by one. -/
theorem two_zpow_pos (e : Int) : (0 : ℚ) < 2 ^ e := zpow_pos two_pos e

/-- A mantissa with zeros behind it has as many more digits. -/
theorem log2_mul_two_pow {m : Nat} (hm : m ≠ 0) (n : Nat) : (m * 2 ^ n).log2 = m.log2 + n := by
  induction n with
  | zero => simp
  | succ n ih =>
    rw [pow_succ, ← mul_assoc, mul_comm, Nat.log2_two_mul (by positivity), ih, add_assoc]

/-- A mantissa with the digits that are missing to the least exponent behind it. -/
theorem decreaseExponent_spec (m : Nat) {e t : Int} (h : t ≤ e) :
    (decreaseExponent m e t).2 = t ∧
      ((decreaseExponent m e t).1 : ℚ) * 2 ^ t = m * 2 ^ e := by
  have hshift : e = t + (e - t).toNat := by omega
  refine ⟨?_, ?_⟩
  · simp only [decreaseExponent]
    omega
  · simp only [decreaseExponent, Nat.shiftLeft_eq]
    push_cast
    conv_rhs => rw [hshift, zpow_add₀ two_ne_zero, zpow_natCast]
    ring

/-- A mantissa of any length is rounded to the nearest bits. -/
theorem exists_round (sign : Sign) {m : Nat} (hm : 0 < m) (e : Int) :
    ∃ bits, IsNearest (m * 2 ^ e) bits ∧
      UnpackedFloat.round Format.binary64 sign m e = unbounded sign bits := by
  set t : Int := max (m.log2 + e - 52) (-1074) with ht
  have hround : UnpackedFloat.round Format.binary64 sign m e =
      roundWithAccuracy Format.binary64 sign (decreaseExponent m e t).1
        (decreaseExponent m e t).2 .exact := by
    unfold UnpackedFloat.round
    rw [targetExponent_eq]
  rw [hround]
  by_cases hle : t ≤ e
  · obtain ⟨hexponent, hvalue⟩ := decreaseExponent_spec m hle
    have hlog : (decreaseExponent m e t).1.log2 = m.log2 + (e - t).toNat := by
      simp only [decreaseExponent, Nat.shiftLeft_eq]
      exact log2_mul_two_pow hm.ne' _
    refine exists_roundWithAccuracy sign (stands_exact ?_) ?_
    · rw [hexponent, ← hvalue, mul_div_cancel_right₀ _ (two_zpow_pos t).ne']
    · rw [hexponent, hlog]
      omega
  · have hnone : (e - t).toNat = 0 := by omega
    have hsame : decreaseExponent m e t = (m, e) := by simp [decreaseExponent, hnone]
    rw [hsame]
    refine exists_roundWithAccuracy sign (stands_exact ?_) (by show e ≤ -1074 ∨ 52 ≤ m.log2; omega)
    rw [mul_div_cancel_right₀ _ (two_zpow_pos e).ne']

/-- A signed mantissa is rounded to the nearest bits. -/
theorem exists_normalize (m e : Int) (zeroSign : Bool) :
    ∃ bits, IsNearest |(m : ℚ) * 2 ^ e| bits ∧
      UnpackedFloat.normalize Format.binary64 m e (signOf zeroSign) =
        unbounded (signOf (if m = 0 then zeroSign else decide (m < 0))) bits := by
  have hsize : |(m : ℚ) * 2 ^ e| = m.natAbs * 2 ^ e := by
    rw [abs_mul, abs_of_pos (two_zpow_pos e), ← Int.cast_abs, Int.abs_eq_natAbs]
    rfl
  rw [hsize]
  unfold UnpackedFloat.normalize
  rcases lt_trichotomy m 0 with hm | rfl | hm
  · rw [Int.compare_eq_lt.2 hm]
    have habs : (-m).toNat = m.natAbs := by omega
    obtain ⟨bits, hnearest, hround⟩ := exists_round .negative (m := m.natAbs) (by omega) e
    refine ⟨bits, hnearest, ?_⟩
    simpa [habs, hm.ne, hm, signOf] using hround
  · refine ⟨0, by simpa using isNearest_value 0, ?_⟩
    simp
  · rw [Int.compare_eq_gt.2 hm]
    have habs : m.toNat = m.natAbs := by omega
    obtain ⟨bits, hnearest, hround⟩ := exists_round .positive (m := m.natAbs) (by omega) e
    refine ⟨bits, hnearest, ?_⟩
    simpa [habs, hm.ne', hm.not_gt, signOf] using hround

/-! ## Signed numbers -/

/-- The number that bits without sign stand for, with a sign. -/
def signedValue (negative : Bool) (bits : Nat) : ℚ := if negative then -value bits else value bits

/-- The number that a finite double stands for. -/
def number (x : Float) : ℚ := signedValue (isNegative x) (sizeBits x)

/-- The sign does not change the size. -/
@[simp] theorem abs_signedValue (negative : Bool) (bits : Nat) :
    |signedValue negative bits| = value bits := by
  cases negative <;> simp [signedValue, abs_of_nonneg (value_nonneg bits)]

/-- The size of a double is what its bits without sign stand for. -/
theorem abs_number (x : Float) : |number x| = value (sizeBits x) := abs_signedValue _ _

/-- The other sign gives the opposite number. -/
theorem signedValue_not (negative : Bool) (bits : Nat) :
    signedValue (!negative) bits = -signedValue negative bits := by
  cases negative <;> simp [signedValue]

/-- All bits but those of zero stand for positive numbers. -/
theorem value_pos_iff {bits : Nat} : 0 < value bits ↔ 0 < bits := by
  rw [← value_zero, strictMono_value.lt_iff_lt]

/-- A number other than zero has its sign. -/
theorem signedValue_neg_iff {negative : Bool} {bits : Nat} (h : 0 < bits) :
    signedValue negative bits < 0 ↔ negative = true := by
  have := value_pos_iff.2 h
  cases negative with
  | false => simp [signedValue, this.le]
  | true => simp [signedValue, this]

/-- Both zeros stand for zero, and nothing else does. -/
theorem signedValue_eq_zero_iff {negative : Bool} {bits : Nat} :
    signedValue negative bits = 0 ↔ bits = 0 := by
  rw [← abs_eq_zero, abs_signedValue, ← value_zero, strictMono_value.injective.eq_iff]

/-- The sign of a sum: that of the number, and of zero the one that both terms have. -/
def signOfSum (m n : Bool) (q : ℚ) : Bool := if q = 0 then m && n else decide (q < 0)

/-- Zero is rounded to itself. -/
@[simp] theorem roundToBits_zero : roundToBits 0 = 0 := by
  rw [← value_zero, roundToBits_value (Nat.zero_le _)]

/-! ## Sums -/

/-- A signed mantissa with the digits that are missing to an exponent. -/
theorem apply_decreaseExponent (negative : Bool) (bits : Nat) {t : Int}
    (h : t ≤ exponentOf bits) :
    (((signOf negative).apply (decreaseExponent (mantissaOf bits) (exponentOf bits) t).1 : Int) : ℚ)
      * 2 ^ t = signedValue negative bits := by
  have hvalue := (decreaseExponent_spec (mantissaOf bits) h).2
  cases negative with
  | false => simpa [signOf, Sign.apply, signedValue, value, ulp] using hvalue
  | true => simpa [signOf, Sign.apply, signedValue, value, ulp] using hvalue

/-- Numbers other than zero are added at the lesser one of their exponents, where the sum of the
mantissas is exact. -/
theorem exists_exact_sum (m n : Bool) {a b : Nat} (ha : 0 < a) (hb : 0 < b) :
    ∃ (mantissa exponent : Int),
      (mantissa : ℚ) * 2 ^ exponent = signedValue m a + signedValue n b ∧
      UnpackedFloat.add Format.binary64 (unbounded (signOf m) a) (unbounded (signOf n) b) =
        UnpackedFloat.normalize Format.binary64 mantissa exponent (signOf false) := by
  set t := min (exponentOf a) (exponentOf b) with ht
  refine ⟨(signOf m).apply (decreaseExponent (mantissaOf a) (exponentOf a) t).1 +
    (signOf n).apply (decreaseExponent (mantissaOf b) (exponentOf b) t).1, t, ?_, ?_⟩
  · push_cast
    rw [add_mul, apply_decreaseExponent m a (min_le_left _ _),
      apply_decreaseExponent n b (min_le_right _ _)]
  · rw [unbounded_pos _ ha, unbounded_pos _ hb]
    rfl

/-- The sign of a sum of numbers other than zero. -/
theorem signOfSum_eq {m n : Bool} {a b : Nat} (ha : 0 < a) (hb : 0 < b) {mantissa exponent : Int}
    (h : (mantissa : ℚ) * 2 ^ exponent = signedValue m a + signedValue n b) :
    signOfSum m n (signedValue m a + signedValue n b) =
      if mantissa = 0 then false else decide (mantissa < 0) := by
  have hstep := two_zpow_pos exponent
  unfold signOfSum
  by_cases h0 : mantissa = 0
  · have hsum : signedValue m a + signedValue n b = 0 := by rw [← h, h0, Int.cast_zero, zero_mul]
    rw [if_pos hsum, if_pos h0]
    have := value_pos_iff.2 ha
    have := value_pos_iff.2 hb
    cases m with
    | false => rfl
    | true =>
      cases n with
      | false => rfl
      | true =>
        simp only [signedValue, if_true] at hsum
        linarith
  · have hne : (mantissa : ℚ) ≠ 0 := by exact_mod_cast h0
    have hsum : signedValue m a + signedValue n b ≠ 0 := h ▸ mul_ne_zero hne hstep.ne'
    rw [if_neg hsum, if_neg h0, decide_eq_decide, ← h, ← neg_pos, ← neg_mul,
      mul_pos_iff_of_pos_right hstep, neg_pos]
    exact_mod_cast Iff.rfl

/-- The sum of two finite doubles, before results beyond the range are cut off: the exact sum,
rounded to the nearest bits. Zeros are apart from the other terms, since they have no mantissa. -/
theorem exists_add (m n : Bool) (a b : Nat) :
    ∃ bits, IsNearest |signedValue m a + signedValue n b| bits ∧
      UnpackedFloat.add Format.binary64 (unbounded (signOf m) a) (unbounded (signOf n) b) =
        unbounded (signOf (signOfSum m n (signedValue m a + signedValue n b))) bits := by
  rcases Nat.eq_zero_or_pos a with rfl | ha
  · have hzero : signedValue m 0 = 0 := signedValue_eq_zero_iff.2 rfl
    rw [hzero, zero_add, abs_signedValue, unbounded_zero]
    refine ⟨b, isNearest_value b, ?_⟩
    rcases Nat.eq_zero_or_pos b with rfl | hb
    · rw [unbounded_zero, signOfSum, if_pos (signedValue_eq_zero_iff.2 rfl), unbounded_zero]
      cases m <;> cases n <;> rfl
    · rw [signOfSum, if_neg (mt signedValue_eq_zero_iff.1 hb.ne')]
      simp only [signedValue_neg_iff hb, Bool.decide_eq_true]
      rw [unbounded_pos _ hb]
      rfl
  · rcases Nat.eq_zero_or_pos b with rfl | hb
    · have hzero : signedValue n 0 = 0 := signedValue_eq_zero_iff.2 rfl
      rw [hzero, add_zero, abs_signedValue, unbounded_zero, signOfSum,
        if_neg (mt signedValue_eq_zero_iff.1 ha.ne')]
      refine ⟨a, isNearest_value a, ?_⟩
      simp only [signedValue_neg_iff ha, Bool.decide_eq_true]
      rw [unbounded_pos _ ha]
      rfl
    · obtain ⟨mantissa, exponent, hexact, hadd⟩ := exists_exact_sum m n ha hb
      obtain ⟨bits, hnearest, hnormalize⟩ := exists_normalize mantissa exponent false
      rw [hexact] at hnearest
      refine ⟨bits, hnearest, ?_⟩
      rw [hadd, hnormalize, signOfSum_eq ha hb hexact]

/-- The sum of two doubles is the nearest double to the sum of the numbers. -/
theorem add_spec {x y : Float} (hx : x.isFinite) (hy : y.isFinite) :
    isNegative (x + y) = signOfSum (isNegative x) (isNegative y) (number x + number y) ∧
      sizeBits (x + y) = roundToBits |number x + number y| := by
  have hmodel : (x + y).toModel =
      .pack (UnpackedFloat.add Format.binary64 x.toModel.unpack y.toModel.unpack) := rfl
  obtain ⟨bits, hnearest, hadd⟩ :=
    exists_add (isNegative x) (isNegative y) (sizeBits x) (sizeBits y)
  rw [unpack_of_isFinite hx, unpack_of_isFinite hy, hadd] at hmodel
  exact isNegative_and_sizeBits_of_unbounded hmodel hnearest (abs_nonneg _)

/-- The other sign gives the opposite mantissa. -/
theorem apply_not (negative : Bool) (n : Int) :
    (signOf !negative).apply n = -(signOf negative).apply n := by
  cases negative with
  | false => rfl
  | true => exact (neg_neg n).symm

/-- A difference is a sum with the opposite sign. -/
theorem sub_unbounded (m n : Bool) (a b : Nat) :
    UnpackedFloat.sub Format.binary64 (unbounded (signOf m) a) (unbounded (signOf n) b) =
      UnpackedFloat.add Format.binary64 (unbounded (signOf m) a) (unbounded (signOf (!n)) b) := by
  rcases Nat.eq_zero_or_pos a with rfl | ha
  · rcases Nat.eq_zero_or_pos b with rfl | hb
    · simp only [unbounded_zero]
      cases m <;> cases n <;> rfl
    · rw [unbounded_zero, unbounded_pos _ hb, unbounded_pos _ hb]
      cases n <;> rfl
  · rcases Nat.eq_zero_or_pos b with rfl | hb
    · rw [unbounded_zero, unbounded_zero, unbounded_pos _ ha]
      rfl
    · have hterms (i j : Nat) : (signOf m).apply i - (signOf n).apply j =
          (signOf m).apply i + (signOf !n).apply j := by
        rw [apply_not, sub_eq_add_neg]
      rw [unbounded_pos _ ha, unbounded_pos _ hb, unbounded_pos _ hb]
      exact congrArg (UnpackedFloat.normalize Format.binary64 · _ .positive) (hterms _ _)

/-- The difference of two doubles is the nearest double to the difference of the numbers. -/
theorem sub_spec {x y : Float} (hx : x.isFinite) (hy : y.isFinite) :
    isNegative (x - y) = signOfSum (isNegative x) (!isNegative y) (number x - number y) ∧
      sizeBits (x - y) = roundToBits |number x - number y| := by
  have hmodel : (x - y).toModel =
      .pack (UnpackedFloat.sub Format.binary64 x.toModel.unpack y.toModel.unpack) := rfl
  obtain ⟨bits, hnearest, hadd⟩ :=
    exists_add (isNegative x) (!isNegative y) (sizeBits x) (sizeBits y)
  rw [unpack_of_isFinite hx, unpack_of_isFinite hy, sub_unbounded, hadd] at hmodel
  rw [signedValue_not, ← sub_eq_add_neg] at hmodel hnearest
  exact isNegative_and_sizeBits_of_unbounded hmodel hnearest (abs_nonneg _)

/-! ## Signs -/

/-- Taking the opposite changes the sign and nothing else, also that of a zero. -/
theorem neg_unbounded (negative : Bool) (bits : Nat) :
    UnpackedFloat.neg (unbounded (signOf negative) bits) = unbounded (signOf !negative) bits := by
  rcases Nat.eq_zero_or_pos bits with rfl | h
  · rw [unbounded_zero, unbounded_zero]
    cases negative <;> rfl
  · rw [unbounded_pos _ h, unbounded_pos _ h]
    cases negative <;> rfl

/-- The opposite of a finite double has the other sign and the same size. -/
theorem neg_spec {x : Float} (hx : x.isFinite) :
    isNegative (-x) = !isNegative x ∧ sizeBits (-x) = sizeBits x := by
  have hmodel : (-x).toModel = .pack (UnpackedFloat.neg x.toModel.unpack) := rfl
  rw [unpack_of_isFinite hx, neg_unbounded] at hmodel
  have hspec := isNegative_and_sizeBits_of_unbounded hmodel (isNearest_value _) (value_nonneg _)
  rwa [roundToBits_value ((isFinite_iff x).1 hx).le] at hspec

/-- Taking the absolute value drops the sign and nothing else. -/
theorem abs_unbounded (negative : Bool) (bits : Nat) :
    UnpackedFloat.abs (unbounded (signOf negative) bits) = unbounded (signOf false) bits := by
  rcases Nat.eq_zero_or_pos bits with rfl | h
  · rw [unbounded_zero, unbounded_zero]
    rfl
  · rw [unbounded_pos _ h, unbounded_pos _ h]
    rfl

/-- The absolute value of a finite double has no sign and the same size. -/
theorem abs_spec {x : Float} (hx : x.isFinite) :
    isNegative x.abs = false ∧ sizeBits x.abs = sizeBits x := by
  have hmodel : x.abs.toModel = .pack (UnpackedFloat.abs x.toModel.unpack) := rfl
  rw [unpack_of_isFinite hx, abs_unbounded] at hmodel
  have hspec := isNegative_and_sizeBits_of_unbounded hmodel (isNearest_value _) (value_nonneg _)
  rwa [roundToBits_value ((isFinite_iff x).1 hx).le] at hspec

/-! ## Roots -/

/-- A number beyond the integer part of a root, on the same side of the middle as the root. -/
def rootStand (n : Nat) : ℚ :=
  if n - n.sqrt * n.sqrt = 0 then n.sqrt
  else if n - n.sqrt * n.sqrt ≤ n.sqrt then n.sqrt + 1 / 4
  else n.sqrt + 3 / 4

/-- The number beyond the integer part is on the side of the middle that the remainder tells. The
root itself is not rational, so it is this number that is rounded. -/
theorem stands_rootStand (n : Nat) :
    Stands (.ofMantissaAndAccuracy n.sqrt (if n - n.sqrt * n.sqrt = 0 then .exact
      else .inexact (if n - n.sqrt * n.sqrt ≤ n.sqrt then .lt else .gt))) (rootStand n) := by
  unfold rootStand
  split
  · exact stands_exact rfl
  · split
    · refine ⟨1 / 2, by norm_num, by norm_num, ?_, ?_⟩
      · simp [ExtendedMantissa.ofMantissaAndAccuracy]
      · simp only [ExtendedMantissa.ofMantissaAndAccuracy, Bool.toNat_false]
        push_cast
        ring
    · refine ⟨1 / 2, by norm_num, by norm_num, ?_, ?_⟩
      · simp [ExtendedMantissa.ofMantissaAndAccuracy]
      · simp only [ExtendedMantissa.ofMantissaAndAccuracy, Bool.toNat_true]
        push_cast
        ring

/-- The number is not less than the integer part of the root. -/
theorem sqrt_le_rootStand (n : Nat) : (n.sqrt : ℚ) ≤ rootStand n := by
  unfold rootStand
  split
  · exact le_rfl
  · split <;> linarith

/-- A root that is not exact lies below the next natural. -/
theorem rootStand_le {n b : Nat} (h : n ≤ b ^ 2) : rootStand n ≤ b := by
  have hsqrt : n.sqrt ≤ b := by
    have := Nat.sqrt_le' n
    exact (Nat.pow_le_pow_iff_left two_ne_zero).1 (this.trans h)
  rcases hsqrt.eq_or_lt with heq | hlt
  · have hexact : n - n.sqrt * n.sqrt = 0 := by
      rw [heq, ← pow_two]
      omega
    rw [rootStand, if_pos hexact, heq]
  · have hnext : (n.sqrt : ℚ) + 1 ≤ b := by exact_mod_cast hlt
    unfold rootStand
    split
    · linarith
    · split <;> linarith

/-- The number is not less than any natural whose square is at most the radicand. -/
theorem le_rootStand {n b : Nat} (h : b ^ 2 ≤ n) : b ≤ rootStand n :=
  (Nat.cast_le.2 (Nat.le_sqrt'.2 h)).trans (sqrt_le_rootStand n)

/-- Roots are compared with powers of two like their squares. -/
theorem rootStand_two_zpow {n : Nat} (hn : 0 < n) (e : Int) :
    ((n : ℚ) ≤ 2 ^ (2 * e) → rootStand n ≤ 2 ^ e) ∧
      ((2 : ℚ) ^ (2 * e) ≤ n → 2 ^ e ≤ rootStand n) := by
  have hone : (1 : ℚ) ≤ n := by exact_mod_cast hn
  rcases lt_or_ge e 0 with he | he
  · refine ⟨fun h => ?_, fun _ => ?_⟩
    · have hlt : (2 : ℚ) ^ (2 * e) < 1 := zpow_lt_one_of_neg₀ one_lt_two (by omega)
      linarith
    · have hroot : (1 : ℚ) ≤ rootStand n := by
        exact_mod_cast le_rootStand (b := 1) (by omega)
      exact (zpow_lt_one_of_neg₀ one_lt_two he).le.trans hroot
  · obtain ⟨k, rfl⟩ := Int.eq_ofNat_of_zero_le he
    have hsquare : (2 : ℚ) ^ (2 * (k : Int)) = ((2 ^ k) ^ 2 : Nat) := by
      push_cast
      rw [← pow_mul, mul_comm k 2]
      exact_mod_cast rfl
    have hpow : (2 : ℚ) ^ (k : Int) = (2 ^ k : Nat) := by simp
    rw [hsquare, hpow]
    exact ⟨fun h => rootStand_le (Nat.cast_le.1 h), fun h => le_rootStand (Nat.cast_le.1 h)⟩

/-- A root is taken of a natural with digits enough for its integer part, unless the exponent is so
low that they are not needed. -/
theorem exists_sqrtCore {m : Nat} (hm : 0 < m) (e : Int) : ∃ (t : Int) (n : Nat), 0 < n ∧
    (t ≤ -1074 ∨ 2 ^ 104 ≤ n) ∧ (n : ℚ) * 2 ^ (2 * t) = m * 2 ^ e ∧
      UnpackedFloat.sqrtCore Format.binary64 m e =
        (n.sqrt, t, if n - n.sqrt * n.sqrt = 0 then .exact
          else .inexact (if n - n.sqrt * n.sqrt ≤ n.sqrt then .lt else .gt)) := by
  set t : Int := min (e.ediv 2) (Format.binary64.targetExponent ((totalExponent m e + 1).ediv 2))
    with ht
  have hhalf : t ≤ e.ediv 2 := min_le_left _ _
  have htarget : t ≤ max ((m.log2 + 1 + e + 1) / 2 - 53) (-1074) := min_le_right _ _
  have hle : 2 * t ≤ e := by
    have : e.ediv 2 = e / 2 := rfl
    omega
  have hshift : e = 2 * t + (e - 2 * t).toNat := by omega
  refine ⟨t, m <<< (e - 2 * t).toNat, ?_, ?_, ?_, rfl⟩
  · rw [Nat.shiftLeft_eq]
    positivity
  · by_cases hleast : t ≤ -1074
    · exact .inl hleast
    · right
      have hlog : 104 ≤ m.log2 + (e - 2 * t).toNat := by omega
      rw [Nat.shiftLeft_eq, ← Nat.le_log2 (by positivity), log2_mul_two_pow hm.ne']
      exact hlog
  · rw [Nat.shiftLeft_eq]
    push_cast
    conv_rhs => rw [hshift, zpow_add₀ two_ne_zero, zpow_natCast]
    ring

/-- The root of a positive number, before results beyond the range are cut off: a number, rounded to
the nearest bits, that is on the same side of every power of two as the exact root. -/
theorem exists_sqrt {a : Nat} (ha : 0 < a) :
    ∃ q bits, 0 ≤ q ∧ IsNearest q bits ∧
      UnpackedFloat.sqrt Format.binary64 (unbounded (signOf false) a) =
        unbounded (signOf false) bits ∧
      ∀ e : Int, (value a ≤ 2 ^ (2 * e) → q ≤ 2 ^ e) ∧ (2 ^ (2 * e) ≤ value a → 2 ^ e ≤ q) := by
  obtain ⟨t, n, hn, hdigits, hvalue, hcore⟩ := exists_sqrtCore (mantissaOf_pos ha) (exponentOf a)
  change _ = value a at hvalue
  have hstep := two_zpow_pos t
  have hnonneg : 0 ≤ rootStand n := (Nat.cast_nonneg _).trans (sqrt_le_rootStand n)
  have hstands := stands_rootStand n
  rw [← mul_div_cancel_right₀ (rootStand n) hstep.ne'] at hstands
  obtain ⟨bits, hnearest, hround⟩ := exists_roundWithAccuracy (signOf false) hstands (by
    refine hdigits.imp_right fun h => (Nat.le_log2 ?_).2 (Nat.le_sqrt'.2 ?_)
    · exact (Nat.sqrt_pos.2 hn).ne'
    · omega)
  refine ⟨rootStand n * 2 ^ t, bits, mul_nonneg hnonneg hstep.le, hnearest, ?_, fun e => ?_⟩
  · have hsqrt (m : Nat) (e : Int) (h : 0 < m) :
        UnpackedFloat.sqrt Format.binary64 (.finite .positive m e h) =
          roundWithAccuracy Format.binary64 .positive
            (UnpackedFloat.sqrtCore Format.binary64 m e).1
            (UnpackedFloat.sqrtCore Format.binary64 m e).2.1
            (UnpackedFloat.sqrtCore Format.binary64 m e).2.2 := rfl
    rw [unbounded_pos _ ha, ← hround]
    refine (hsqrt _ _ _).trans ?_
    rw [hcore]
    rfl
  · obtain ⟨hupper, hlower⟩ := rootStand_two_zpow hn (e - t)
    have hsplit : (2 : ℚ) ^ e = 2 ^ (e - t) * 2 ^ t := by
      rw [← zpow_add₀ two_ne_zero, sub_add_cancel]
    have hsquare : (2 : ℚ) ^ (2 * e) = 2 ^ (2 * (e - t)) * 2 ^ (2 * t) := by
      rw [← zpow_add₀ two_ne_zero]
      congr 1
      ring
    rw [← hvalue, hsplit, hsquare]
    have hstep' := two_zpow_pos (2 * t)
    refine ⟨fun h => ?_, fun h => ?_⟩
    · exact mul_le_mul_of_nonneg_right (hupper (le_of_mul_le_mul_right h hstep')) hstep.le
    · exact mul_le_mul_of_nonneg_right (hlower (le_of_mul_le_mul_right h hstep')) hstep.le

/-- The root of a double other than zero lies between the same powers of two as the exact one. -/
theorem sqrt_spec {x : Float} (hx : x.isFinite) (hpos : 0 < sizeBits x)
    (hsign : isNegative x = false) :
    ∃ q, 0 ≤ q ∧ isNegative x.sqrt = false ∧ sizeBits x.sqrt = roundToBits q ∧
      ∀ e : Int, (value (sizeBits x) ≤ 2 ^ (2 * e) → q ≤ 2 ^ e) ∧
        (2 ^ (2 * e) ≤ value (sizeBits x) → 2 ^ e ≤ q) := by
  have hmodel : x.sqrt.toModel =
      .pack (UnpackedFloat.sqrt Format.binary64 x.toModel.unpack) := rfl
  obtain ⟨q, bits, hq, hnearest, hsqrt, hbounds⟩ := exists_sqrt hpos
  rw [unpack_of_isFinite hx, hsign, hsqrt] at hmodel
  obtain ⟨hnegative, hsize⟩ := isNegative_and_sizeBits_of_unbounded hmodel hnearest hq
  exact ⟨q, hq, hnegative, hsize, hbounds⟩

/-! ## Whole numbers -/

/-- The bits of a power of two. -/
def powerBits (e : Int) : Nat := (e + 1023).toNat * 2 ^ 52

/-- The bits of a power of two stand for it. -/
theorem value_powerBits {e : Int} (h : -1022 ≤ e) : value (powerBits e) = 2 ^ e := by
  have hpos : 0 < (e + 1023).toNat := by omega
  have hmantissa := mantissaOf_fields hpos (Nat.two_pow_pos 52)
  have hexponent := exponentOf_fields hpos (Nat.two_pow_pos 52)
  rw [add_zero] at hmantissa hexponent
  have he : (((e + 1023).toNat : Int) - 1075) = e - 52 := by omega
  rw [value, ulp, powerBits, hmantissa, hexponent, he, zpow_sub₀ two_ne_zero]
  push_cast
  field_simp

/-- One as it stands in the table of powers of ten. -/
theorem one_fields : isNegative (Float.ofBits 0x3FF0000000000000) = false ∧
    sizeBits (Float.ofBits 0x3FF0000000000000) = powerBits 0 := by
  decide +kernel

/-- Powers of two up to `2 ^ 1023` are finite. -/
theorem powerBits_lt {e : Int} (h : e < 1024) : powerBits e < infinityBits := by
  unfold powerBits infinityBits
  omega

/-- A power of two is rounded to itself. -/
theorem roundToBits_two_zpow {e : Int} (hlow : -1022 ≤ e) (hhigh : e < 1024) :
    roundToBits (2 ^ e) = powerBits e := by
  rw [← value_powerBits hlow, roundToBits_value (powerBits_lt hhigh).le]

/-- Words are converted to the nearest doubles. -/
theorem toFloat_spec (n : UInt64) :
    isNegative n.toFloat = false ∧ sizeBits n.toFloat = roundToBits n.toNat := by
  have hmodel : n.toFloat.toModel =
      .pack (UnpackedFloat.normalize Format.binary64 (n.toNat : Int) 0 (signOf false)) := rfl
  obtain ⟨bits, hnearest, hnormalize⟩ := exists_normalize n.toNat 0 false
  have hsign : (if (n.toNat : Int) = 0 then false else decide ((n.toNat : Int) < 0)) = false := by
    split
    · rfl
    · exact decide_eq_false (by omega)
  rw [hnormalize, hsign] at hmodel
  rw [zpow_zero, mul_one, Int.cast_natCast, Nat.abs_cast] at hnearest
  exact isNegative_and_sizeBits_of_unbounded hmodel hnearest (Nat.cast_nonneg _)

/-- A natural with many digits is rounded like any other product. -/
theorem exists_ofScientific {n : Nat} (hn : 0 < n) :
    ∃ bits, IsNearest n bits ∧
      UnpackedFloat.ofScientific Format.binary64 n 0 = unbounded (signOf false) bits := by
  have hproduct {m k : Nat} (d e : Int) (hm : 0 < m) (hk : 0 < k) :
      UnpackedFloat.mul Format.binary64 (.finite .positive m d hm) (.finite .positive k e hk) =
        roundWithAccuracy Format.binary64 .positive (m * k) (d + e) .exact := rfl
  have hmul : UnpackedFloat.ofScientific Format.binary64 n 0 =
      roundWithAccuracy Format.binary64 (signOf false) (n * 2 ^ 53) (-53) .exact := by
    rw [UnpackedFloat.ofScientific, dif_neg hn.ne', if_neg (by decide), if_neg, if_pos le_rfl]
    · refine (hproduct _ _ _ _).trans ?_
      rw [Nat.shiftLeft_eq, Int.toNat_zero, pow_zero, mul_one]
      rfl
    · norm_num [Format.exponentBits]
  rw [hmul]
  refine exists_roundWithAccuracy _ (stands_exact ?_) (.inr ?_)
  · rw [zpow_neg, div_inv_eq_mul]
    push_cast
    rfl
  · rw [log2_mul_two_pow hn.ne']
    omega

/-- A whole number is the nearest double to itself. -/
theorem ofNat_spec (n : Nat) :
    isNegative (Float.ofNat n) = false ∧ sizeBits (Float.ofNat n) = roundToBits n := by
  by_cases hn : n < 2 ^ 53
  · have hfast : Float.ofNat n = n.toUInt64.toFloat * Float.ofBits 0x3FF0000000000000 := by
      show Float.ofScientific n false 0 = _
      rw [Float.ofScientific, dif_pos ⟨hn, by omega⟩]
      rfl
    have hword : n.toUInt64.toNat = n := by
      simp only [UInt64.toNat_ofNat']
      omega
    obtain ⟨hnegative, hsize⟩ := toFloat_spec n.toUInt64
    obtain ⟨hone, hone'⟩ := one_fields
    have hbound : roundToBits n ≤ powerBits 53 := by
      rw [← roundToBits_two_zpow (by norm_num) (by norm_num)]
      exact roundToBits_mono (Nat.cast_nonneg n) (by exact_mod_cast hn.le)
    have hfin : n.toUInt64.toFloat.isFinite := by
      refine (isFinite_iff _).2 ?_
      rw [hsize, hword]
      exact hbound.trans_lt (powerBits_lt (by norm_num))
    have hfin' : (Float.ofBits 0x3FF0000000000000).isFinite :=
      (isFinite_iff _).2 (by rw [hone']; exact powerBits_lt (by norm_num))
    obtain ⟨hsign, hproduct⟩ := mul_spec hfin hfin'
    rw [hfast]
    refine ⟨?_, ?_⟩
    · rw [hsign, hnegative, hone]
      rfl
    · rw [hproduct, hone', value_powerBits (by norm_num), zpow_zero, mul_one, hsize, hword,
        roundToBits_value (roundToBits_le _)]
  · have hmodel : (Float.ofNat n).toModel =
        .pack (UnpackedFloat.ofScientific Format.binary64 n 0) := by
      show (Float.ofScientific n false 0).toModel = _
      rw [Float.ofScientific, dif_neg (fun h => hn h.1)]
      rfl
    obtain ⟨bits, hnearest, hscientific⟩ := exists_ofScientific (n := n) (by omega)
    rw [hscientific] at hmodel
    exact isNegative_and_sizeBits_of_unbounded hmodel hnearest (Nat.cast_nonneg _)

end Cartouche.Binary64
