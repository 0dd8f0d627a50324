import Cartouche.Proofs.Number.Sums

/-!
# How large results are

`IsWithin x e` says that `x` is finite and not larger than `2 ^ e`. Sums, products, quotients and
roots of doubles within bounds are within bounds again. A sum of any number of terms stays within
`2 ^ 53` times the bound of its terms (`IsWithin.foldl_add`): from there on a term is at most half
of the distance to the next double, and rounding takes it away. `IsNonneg x` says that `x` is a
number that is not negative, or infinity; sums of such doubles never decrease
(`IsNonneg.foldl_add`), so a finite sum has finite terms.
-/

namespace Cartouche.Binary64

open Float.Model (UnpackedFloat Format)
open Float.Model.UnpackedFloat (Sign)

/-! ## Rounding and bounds -/

/-- What is not beyond the middle between bits and the next ones is not rounded up to the next ones.
-/
theorem IsNearest.le_of_le_midpoint {q : ℚ} {a b : Nat} (h : IsNearest q a)
    (hb : q < midpoint b ∨ q = midpoint b ∧ b % 2 = 0) : a ≤ b := by
  by_contra hlt
  obtain ⟨c, rfl⟩ : ∃ c, c + 1 = a := ⟨a - 1, by omega⟩
  have hmid : midpoint b ≤ midpoint c := strictMono_midpoint.monotone (by omega)
  rcases hb with hb | ⟨hb, heven⟩
  · rcases h.low c rfl with hlow | ⟨hlow, -⟩ <;> linarith
  · rcases h.low c rfl with hlow | ⟨hlow, heven'⟩
    · linarith
    · have hbc : b = c := strictMono_midpoint.injective (by linarith)
      omega

/-- Up to the middle, and in the middle if the bits are even, a number is not rounded beyond the
bits. -/
theorem roundToBits_le_of_le_midpoint {q : ℚ} (hq : 0 ≤ q) {b : Nat}
    (hb : q < midpoint b ∨ q = midpoint b ∧ b % 2 = 0) : roundToBits q ≤ b :=
  (min_le_left _ _).trans ((isNearest_rat hq).le_of_le_midpoint hb)

/-- The middle between a power of two and the next double. -/
theorem midpoint_powerBits {e : Int} (h : -1022 ≤ e) :
    midpoint (powerBits e) = 2 ^ e + 2 ^ (e - 53) := by
  have hexponent := exponentOf_fields (e := (e + 1023).toNat) (by omega) (Nat.two_pow_pos 52)
  have he : (((e + 1023).toNat : Int) - 1075) = e - 53 + 1 := by omega
  rw [add_zero, he] at hexponent
  rw [midpoint, value_powerBits h, ulp, powerBits, hexponent, zpow_add_one₀ two_ne_zero,
    mul_div_cancel_right₀ _ two_ne_zero]

/-- A double is finite and its size is at most a power of two. -/
structure IsWithin (x : Float) (e : Nat) : Prop where
  isFinite : x.isFinite
  le : value (sizeBits x) ≤ 2 ^ e

section

variable {x y : Float} {d e : Nat}

/-- A double within a bound is within every larger one. -/
theorem IsWithin.mono (h : IsWithin x d) (hle : d ≤ e) : IsWithin x e :=
  ⟨h.isFinite, h.le.trans (pow_le_pow_right₀ one_le_two hle)⟩

/-- A bound is about the size only. -/
theorem IsWithin.congr (h : IsWithin x e) (hsize : sizeBits y = sizeBits x) : IsWithin y e := by
  refine ⟨(isFinite_iff _).2 ?_, ?_⟩
  · rw [hsize]
    exact (isFinite_iff x).1 h.isFinite
  · rw [hsize]
    exact h.le

/-- Zeros are within every bound. -/
theorem isWithin_of_sizeBits_eq_zero (h : sizeBits x = 0) (e : Nat) : IsWithin x e := by
  refine ⟨(isFinite_iff _).2 (h ▸ by decide), ?_⟩
  rw [h, value_zero]
  positivity

/-- Bounds can be read off the bits. -/
theorem isWithin_of_sizeBits_le (h : sizeBits x ≤ powerBits e) (he : e < 1024) : IsWithin x e := by
  refine ⟨(isFinite_iff _).2 (h.trans_lt (powerBits_lt (by omega))), ?_⟩
  rw [← zpow_natCast, ← value_powerBits (by omega)]
  exact strictMono_value.monotone h

/-- What has the size of a power of two at most is rounded to such a double. -/
theorem isWithin_of_round {q : ℚ} (hsize : sizeBits x = roundToBits q) (hq : 0 ≤ q)
    (hle : q ≤ 2 ^ e) (he : e < 1024) : IsWithin x e := by
  refine isWithin_of_sizeBits_le ?_ he
  rw [hsize, ← roundToBits_two_zpow (by omega) (by omega), zpow_natCast]
  exact roundToBits_mono hq hle

/-- A bound on a double is one on the size of the number it stands for. -/
theorem IsWithin.abs_le (h : IsWithin x e) : |number x| ≤ 2 ^ e := by
  rw [abs_number]
  exact h.le

/-- A sum is at most twice as large as its terms may be, and rounding does not lead beyond a power
of two. -/
theorem IsWithin.add (hx : IsWithin x e) (hy : IsWithin y e) (he : e + 1 < 1024) :
    IsWithin (x + y) (e + 1) := by
  refine isWithin_of_round (add_spec hx.isFinite hy.isFinite).2 (abs_nonneg _) ?_ he
  calc |number x + number y| ≤ |number x| + |number y| := abs_add_le _ _
    _ ≤ 2 ^ e + 2 ^ e := add_le_add hx.abs_le hy.abs_le
    _ = 2 ^ (e + 1) := by ring

/-- So is a difference. -/
theorem IsWithin.sub (hx : IsWithin x e) (hy : IsWithin y e) (he : e + 1 < 1024) :
    IsWithin (x - y) (e + 1) := by
  refine isWithin_of_round (sub_spec hx.isFinite hy.isFinite).2 (abs_nonneg _) ?_ he
  calc |number x - number y| ≤ |number x| + |number y| := abs_sub _ _
    _ ≤ 2 ^ e + 2 ^ e := add_le_add hx.abs_le hy.abs_le
    _ = 2 ^ (e + 1) := by ring

/-- The bounds of a product are multiplied: the powers of two add up. -/
theorem IsWithin.mul (hx : IsWithin x d) (hy : IsWithin y e) (he : d + e < 1024) :
    IsWithin (x * y) (d + e) := by
  refine isWithin_of_round (mul_spec hx.isFinite hy.isFinite).2
    (mul_nonneg (value_nonneg _) (value_nonneg _)) ?_ he
  rw [pow_add]
  exact mul_le_mul hx.le hy.le (value_nonneg _) (by positivity)

/-- A divisor that is not too small makes nothing too large. -/
theorem IsWithin.div (hx : IsWithin x e) (hy : y.isFinite)
    (hlow : (2 : ℚ) ^ (-(d : Int)) ≤ value (sizeBits y)) (he : e + d < 1024) :
    IsWithin (x / y) (e + d) := by
  have hpos : 0 < value (sizeBits y) := (two_zpow_pos _).trans_le hlow
  refine isWithin_of_round (div_spec hx.isFinite hy (value_pos_iff.1 hpos)).2
    (div_nonneg (value_nonneg _) (value_nonneg _)) ?_ he
  rw [div_le_iff₀ hpos]
  calc value (sizeBits x) ≤ 2 ^ e := hx.le
    _ = 2 ^ (e + d) * 2 ^ (-(d : Int)) := by
      rw [pow_add, zpow_neg, zpow_natCast, mul_assoc, mul_inv_cancel₀ (by positivity), mul_one]
    _ ≤ 2 ^ (e + d) * value (sizeBits y) := mul_le_mul_of_nonneg_left hlow (by positivity)

/-- The opposite is within the same bound. -/
theorem IsWithin.neg (h : IsWithin x e) : IsWithin (-x) e := h.congr (neg_spec h.isFinite).2

/-- What is `2 ^ 53` times as large as a term stays so when the term is added: half of the distance
to the next double is rounded away. -/
theorem isWithin_of_absorbed {q : ℚ} (hsize : sizeBits x = roundToBits q) (hq : 0 ≤ q)
    (hle : q ≤ 2 ^ (e + 53) + 2 ^ e) (he : e + 53 < 1024) : IsWithin x (e + 53) := by
  have hmid : midpoint (powerBits (e + 53 : Nat)) = 2 ^ (e + 53) + 2 ^ e := by
    rw [midpoint_powerBits (by omega), zpow_natCast]
    push_cast
    rw [add_sub_cancel_right, zpow_natCast]
  have heven : powerBits (e + 53 : Nat) % 2 = 0 := by
    unfold powerBits
    omega
  refine isWithin_of_sizeBits_le ?_ he
  rw [hsize]
  refine roundToBits_le_of_le_midpoint hq ?_
  rw [hmid]
  exact hle.lt_or_eq.imp_right fun h => ⟨h, heven⟩

/-- A sum that may be `2 ^ 53` times as large as one term stays within its bound when the term is
added. -/
theorem IsWithin.add_small (hx : IsWithin x (e + 53)) (hy : IsWithin y e) (he : e + 53 < 1024) :
    IsWithin (x + y) (e + 53) :=
  isWithin_of_absorbed (add_spec hx.isFinite hy.isFinite).2 (abs_nonneg _)
    ((abs_add_le _ _).trans (add_le_add hx.abs_le hy.abs_le)) he

/-- It stays within its bound when the term is taken away, too. -/
theorem IsWithin.sub_small (hx : IsWithin x (e + 53)) (hy : IsWithin y e) (he : e + 53 < 1024) :
    IsWithin (x - y) (e + 53) :=
  isWithin_of_absorbed (sub_spec hx.isFinite hy.isFinite).2 (abs_nonneg _)
    ((abs_sub _ _).trans (add_le_add hx.abs_le hy.abs_le)) he

/-- A finite double stays finite when something is added that is far from the distance to the next
double at the end of the range. -/
theorem isFinite_add_of_isWithin (hx : x.isFinite) (hy : IsWithin y 969) : (x + y).isFinite := by
  have hlast := (isFinite_iff x).1 hx
  have hbits : sizeBits (x + y) ≤ infinityBits - 1 := by
    rw [(add_spec hx hy.isFinite).2]
    refine roundToBits_le_of_le_midpoint (abs_nonneg _) (.inl ?_)
    have hulp : ulp (infinityBits - 1) = 2 ^ 971 := by
      have he : exponentOf (infinityBits - 1) = (971 : Nat) := by decide
      rw [ulp, he, zpow_natCast]
    calc |number x + number y| ≤ |number x| + |number y| := abs_add_le _ _
      _ ≤ value (infinityBits - 1) + 2 ^ 969 := by
        rw [abs_number x]
        exact add_le_add (strictMono_value.monotone (by omega)) hy.abs_le
      _ < midpoint (infinityBits - 1) := by
        rw [midpoint, hulp, pow_succ _ 970, mul_div_cancel_right₀ _ two_ne_zero]
        gcongr <;> norm_num
  refine (isFinite_iff _).2 (hbits.trans_lt ?_)
  have : 0 < infinityBits := by decide
  omega

end

/-! ## Doubles that are not negative -/

/-- A double that is neither undefined nor negative; it may be infinite, and a negative zero. -/
structure IsNonneg (x : Float) : Prop where
  isNumber : sizeBits x ≤ infinityBits
  sign : isNegative x → sizeBits x = 0

section

variable {x y : Float}

/-- A double that is not negative has its bits as its rank, also as a negative zero. -/
theorem IsNonneg.rank_eq (h : IsNonneg x) : rank x = sizeBits x := by
  unfold rank signed
  cases hx : isNegative x with
  | false => rfl
  | true => rw [h.sign hx]; rfl

/-- A double that is not negative stands for the number of its bits. -/
theorem IsNonneg.number_eq (h : IsNonneg x) : number x = value (sizeBits x) := by
  unfold number signedValue
  cases hx : isNegative x with
  | false => rfl
  | true => simp [h.sign hx]

/-- A double that is not negative is a number. -/
theorem IsNonneg.isNaN (h : IsNonneg x) : x.isNaN = false := by
  rw [Bool.eq_false_iff, ne_eq, isNaN_iff]
  exact not_lt.2 h.isNumber

/-- A double without sign that is a number is not negative. -/
theorem isNonneg_of_not_isNegative (hsign : isNegative x = false)
    (h : sizeBits x ≤ infinityBits) : IsNonneg x :=
  ⟨h, fun hneg => absurd hneg (by simp [hsign])⟩

/-- What is not negative and not zero has no sign. -/
theorem IsNonneg.isNegative_eq_false (h : IsNonneg x) (hne : sizeBits x ≠ 0) :
    isNegative x = false :=
  Bool.eq_false_iff.2 fun hneg => hne (h.sign hneg)

/-- Doubles that are not negative are compared like their bits. -/
theorem IsNonneg.lt_iff (hx : IsNonneg x) (hy : IsNonneg y) : x < y ↔ sizeBits x < sizeBits y := by
  rw [lt_iff_rank_lt hx.isNaN hy.isNaN, hx.rank_eq, hy.rank_eq, Int.ofNat_lt]

/-- What is infinite and not negative is the positive infinity. -/
theorem IsNonneg.unpack_of_not_isFinite (h : IsNonneg x) (hx : ¬ x.isFinite) :
    x.toModel.unpack = .infinity (signOf false) := by
  have hsize : sizeBits x = infinityBits :=
    le_antisymm h.isNumber (not_lt.1 (mt (isFinite_iff x).2 hx))
  have hsign : isNegative x = false := h.isNegative_eq_false (hsize ▸ by decide)
  rw [unpack_toModel, hsize, hsign, decode_infinity]

/-- A result that is the positive infinity. -/
theorem isNonneg_of_infinity (h : x.toModel = .pack (.infinity (signOf false))) :
    IsNonneg x ∧ sizeBits x = infinityBits := by
  have hbits : x.toBits = (Float.Model.pack (.infinity (signOf false))).toBits :=
    congrArg Float.Model.toBits h
  have hnat : x.toBits.toNat = false.toNat * 2 ^ 63 + infinityBits := by
    rw [hbits]
    exact toNat_pack_infinity false
  obtain ⟨hsign, hsize⟩ := isNegative_and_sizeBits hnat le_rfl
  exact ⟨isNonneg_of_not_isNegative hsign hsize.le, hsize⟩

/-- A result that is the positive infinity is not finite. -/
theorem not_isFinite_of_infinity (h : x.toModel = .pack (.infinity (signOf false))) :
    ¬ x.isFinite := by
  rw [isFinite_iff, (isNonneg_of_infinity h).2]
  exact lt_irrefl _

/-- A result that is rounded from a number with the sign of a number that is not negative. -/
theorem isNonneg_of_round {q : ℚ} (hsize : sizeBits x = roundToBits q)
    (hsign : isNegative x → q = 0) : IsNonneg x := by
  refine ⟨hsize ▸ roundToBits_le q, fun hneg => ?_⟩
  rw [hsize, hsign hneg, roundToBits_zero]

/-- A result that is a zero. -/
theorem sizeBits_of_zero {sign : Bool} (h : x.toModel = .pack (unbounded (signOf sign) 0)) :
    sizeBits x = 0 := by
  rw [(isNegative_and_sizeBits_of_unbounded h (isNearest_value 0) (value_nonneg 0)).2, value_zero,
    roundToBits_zero]

/-- What is rounded without end is a zero or a finite number. -/
theorem unbounded_cases (sign : Sign) (bits : Nat) :
    unbounded sign bits = .zero sign ∨ ∃ m e h, unbounded sign bits = .finite sign m e h := by
  rcases Nat.eq_zero_or_pos bits with rfl | h
  · exact .inl (unbounded_zero sign)
  · exact .inr ⟨_, _, _, unbounded_pos sign h⟩

/-- With an infinite term a sum is infinite. -/
theorem IsNonneg.add_infinite (hx : IsNonneg x) (hy : IsNonneg y)
    (h : ¬ (x.isFinite ∧ y.isFinite)) : (x + y).toModel = .pack (.infinity (signOf false)) := by
  have hmodel : (x + y).toModel =
      .pack (UnpackedFloat.add Format.binary64 x.toModel.unpack y.toModel.unpack) := rfl
  rw [hmodel]
  by_cases hxf : x.isFinite
  · rw [hy.unpack_of_not_isFinite fun hyf => h ⟨hxf, hyf⟩, unpack_of_isFinite hxf]
    rcases unbounded_cases (signOf (isNegative x)) (sizeBits x) with h | ⟨m, e, hm, h⟩ <;>
      rw [h] <;> rfl
  · rw [hx.unpack_of_not_isFinite hxf]
    by_cases hyf : y.isFinite
    · rw [unpack_of_isFinite hyf]
      rcases unbounded_cases (signOf (isNegative y)) (sizeBits y) with h | ⟨m, e, hm, h⟩ <;>
        rw [h] <;> rfl
    · rw [hy.unpack_of_not_isFinite hyf]
      rfl

/-- A sum is at least as large as its terms. -/
theorem IsNonneg.add (hx : IsNonneg x) (hy : IsNonneg y) :
    IsNonneg (x + y) ∧ sizeBits x ≤ sizeBits (x + y) ∧ sizeBits y ≤ sizeBits (x + y) := by
  by_cases hfin : x.isFinite ∧ y.isFinite
  · obtain ⟨hxf, hyf⟩ := hfin
    obtain ⟨hsign, hsize⟩ := add_spec hxf hyf
    have hle := roundToBits_mono (value_nonneg (sizeBits x))
      (le_add_of_nonneg_right (value_nonneg (sizeBits y)))
    have hle' := roundToBits_mono (value_nonneg (sizeBits y))
      (le_add_of_nonneg_left (value_nonneg (sizeBits x)))
    have hsum : 0 ≤ value (sizeBits x) + value (sizeBits y) :=
      add_nonneg (value_nonneg _) (value_nonneg _)
    rw [hx.number_eq, hy.number_eq, abs_of_nonneg hsum] at hsize
    rw [hx.number_eq, hy.number_eq] at hsign
    rw [roundToBits_value hx.isNumber, ← hsize] at hle
    rw [roundToBits_value hy.isNumber, ← hsize] at hle'
    refine ⟨isNonneg_of_round hsize fun hneg => ?_, hle, hle'⟩
    by_contra h0
    rw [hsign, signOfSum, if_neg h0, decide_eq_true_iff] at hneg
    exact hneg.not_ge hsum
  · obtain ⟨hnonneg, hsize⟩ := isNonneg_of_infinity (hx.add_infinite hy hfin)
    rw [hsize]
    exact ⟨hnonneg, hx.isNumber, hy.isNumber⟩

/-- A sum is zero, or as large as a term that is not. -/
theorem IsNonneg.add_least (hx : IsNonneg x) (hy : IsNonneg y) {b : Nat}
    (hbx : sizeBits x = 0 ∨ b ≤ sizeBits x) (hby : sizeBits y = 0 ∨ b ≤ sizeBits y) :
    sizeBits (x + y) = 0 ∨ b ≤ sizeBits (x + y) := by
  obtain ⟨-, hle, hle'⟩ := hx.add hy
  rcases hbx with hx0 | hbx
  · rcases hby with hy0 | hby
    · left
      have hxf := (isWithin_of_sizeBits_eq_zero hx0 0).isFinite
      have hyf := (isWithin_of_sizeBits_eq_zero hy0 0).isFinite
      rw [(add_spec hxf hyf).2, hx.number_eq, hy.number_eq, hx0, hy0, value_zero, add_zero,
        abs_zero, roundToBits_zero]
    · exact .inr (hby.trans hle')
  · exact .inr (hbx.trans hle)

/-- A sum from left to right is at least as large as each of its terms. -/
theorem IsNonneg.foldl_add {terms : List Float} (hx : IsNonneg x) (h : ∀ t ∈ terms, IsNonneg t) :
    IsNonneg (terms.foldl (· + ·) x) ∧ sizeBits x ≤ sizeBits (terms.foldl (· + ·) x) ∧
      ∀ t ∈ terms, sizeBits t ≤ sizeBits (terms.foldl (· + ·) x) := by
  induction terms generalizing x with
  | nil => exact ⟨hx, le_rfl, by simp⟩
  | cons first rest ih =>
    obtain ⟨hsum, hle, hle'⟩ := hx.add (h first (by simp))
    obtain ⟨hall, hfirst, hrest⟩ := ih hsum fun t ht => h t (by simp [ht])
    refine ⟨hall, hle.trans hfirst, fun t ht => ?_⟩
    rcases List.mem_cons.1 ht with rfl | ht
    · exact hle'.trans hfirst
    · exact hrest t ht

/-- A quotient of what is not negative is not negative, and infinite where the numerator is. -/
theorem IsNonneg.div (hx : IsNonneg x) (hy : IsNonneg y) (hfin : y.isFinite)
    (hpos : 0 < sizeBits y) : IsNonneg (x / y) ∧ ((x / y).isFinite → x.isFinite) := by
  have hysign := hy.isNegative_eq_false hpos.ne'
  by_cases hxf : x.isFinite
  · obtain ⟨hsign, hsize⟩ := div_spec hxf hfin hpos
    refine ⟨isNonneg_of_round hsize fun hneg => ?_, fun _ => hxf⟩
    rw [hsign, hysign, Bool.bne_false] at hneg
    rw [hx.sign hneg, value_zero, zero_div]
  · have hmodel : (x / y).toModel =
        .pack (UnpackedFloat.div Format.binary64 x.toModel.unpack y.toModel.unpack) := rfl
    rw [hx.unpack_of_not_isFinite hxf, unpack_of_isFinite hfin, hysign, unbounded_pos _ hpos]
      at hmodel
    exact ⟨(isNonneg_of_infinity hmodel).1, fun h => absurd h (not_isFinite_of_infinity hmodel)⟩

/-- A difference of finite doubles is a number, though it may be infinite. -/
theorem sizeBits_sub_le (hx : x.isFinite) (hy : y.isFinite) : sizeBits (x - y) ≤ infinityBits := by
  rw [(sub_spec hx hy).2]
  exact roundToBits_le _

/-- The bits of infinity are those of the first power of two beyond the range, so overflow begins
there. -/
theorem two_pow_eq_value_infinityBits : (2 : ℚ) ^ 1024 = value infinityBits := by
  have hpower : infinityBits = powerBits (1024 : Nat) := by decide
  rw [hpower, value_powerBits (by omega), zpow_natCast]

/-- The square of a number is not negative. It is finite for numbers up to `2 ^ 512` only. -/
theorem isNonneg_mul_self (hx : sizeBits x ≤ infinityBits) :
    IsNonneg (x * x) ∧ ((x * x).isFinite → IsWithin x 512) := by
  have hmodel : (x * x).toModel =
      .pack (UnpackedFloat.mul Format.binary64 x.toModel.unpack x.toModel.unpack) := rfl
  by_cases hfin : x.isFinite
  · obtain ⟨hsign, hsize⟩ := mul_spec hfin hfin
    rw [bne_self_eq_false] at hsign
    refine ⟨isNonneg_of_not_isNegative hsign (hsize ▸ roundToBits_le _), fun hsquare => ⟨hfin, ?_⟩⟩
    by_contra hlarge
    have hle : (2 : ℚ) ^ 1024 ≤ value (sizeBits x) * value (sizeBits x) :=
      calc (2 : ℚ) ^ 1024 = 2 ^ 512 * 2 ^ 512 := by rw [← pow_add]
        _ ≤ _ := mul_le_mul (not_le.1 hlarge).le (not_le.1 hlarge).le (by positivity)
            (value_nonneg _)
    have hbits := roundToBits_mono (by positivity) hle
    rw [two_pow_eq_value_infinityBits, roundToBits_value le_rfl, ← hsize] at hbits
    exact hbits.not_gt ((isFinite_iff _).1 hsquare)
  · have hinf : sizeBits x = infinityBits :=
      le_antisymm hx (not_lt.1 (mt (isFinite_iff x).2 hfin))
    rw [unpack_toModel, hinf, decode_infinity] at hmodel
    have hsquare : (x * x).toModel = .pack (.infinity (signOf false)) := by
      rw [hmodel]
      cases isNegative x <;> rfl
    exact ⟨(isNonneg_of_infinity hsquare).1, fun h => absurd h (not_isFinite_of_infinity hsquare)⟩

/-- The root of a positive number is positive, and not less than `2 ^ -537`. -/
theorem isNonneg_sqrt_of_pos (hx : x.isFinite) (hsign : isNegative x = false)
    (hpos : 0 < sizeBits x) :
    IsNonneg x.sqrt ∧ powerBits (-537) ≤ sizeBits x.sqrt ∧
      ∀ {e}, e < 1024 → IsWithin x (2 * e) → IsWithin x.sqrt e := by
  obtain ⟨q, hq, hnegative, hsize, hbounds⟩ := sqrt_spec hx hpos hsign
  refine ⟨isNonneg_of_not_isNegative hnegative (hsize ▸ roundToBits_le q), ?_,
    fun {e} he h => ?_⟩
  · have hleast : (2 : ℚ) ^ (2 * (-537) : Int) ≤ value (sizeBits x) := by
      have hone : value 1 = 2 ^ (2 * (-537) : Int) := by simp [value, ulp, mantissaOf, exponentOf]
      rw [← hone]
      exact strictMono_value.monotone hpos
    rw [hsize, ← roundToBits_two_zpow (by norm_num) (by norm_num)]
    exact roundToBits_mono (two_zpow_pos _).le ((hbounds _).2 hleast)
  · refine isWithin_of_round hsize hq ?_ he
    have hsquare : (2 : ℚ) ^ (2 * (e : Int)) = 2 ^ (2 * e) := by
      exact_mod_cast zpow_natCast (2 : ℚ) (2 * e)
    rw [← zpow_natCast]
    exact (hbounds e).1 (h.le.trans_eq hsquare.symm)

/-- The root of a number that is not negative is not negative either. Unless it is zero it is not
less than `2 ^ -537`, and it is not greater than a power of two whose square bounds the number. -/
theorem IsNonneg.sqrt (hx : IsNonneg x) :
    IsNonneg x.sqrt ∧ (x.sqrt.isFinite → x.isFinite) ∧
      (sizeBits x.sqrt = 0 ∨ powerBits (-537) ≤ sizeBits x.sqrt) ∧
      ∀ {e}, e < 1024 → IsWithin x (2 * e) → IsWithin x.sqrt e := by
  have hmodel : x.sqrt.toModel =
      .pack (UnpackedFloat.sqrt Format.binary64 x.toModel.unpack) := rfl
  by_cases hfin : x.isFinite
  · rcases Nat.eq_zero_or_pos (sizeBits x) with h0 | hpos
    · rw [unpack_of_isFinite hfin, h0, unbounded_zero] at hmodel
      have hzero : x.sqrt.toModel = .pack (unbounded (signOf (isNegative x)) 0) := by
        rw [hmodel, unbounded_zero]
        rfl
      have hsize := sizeBits_of_zero hzero
      exact ⟨⟨hsize ▸ Nat.zero_le _, fun _ => hsize⟩, fun _ => hfin, .inl hsize,
        fun _ _ => isWithin_of_sizeBits_eq_zero hsize _⟩
    · have hsign := hx.isNegative_eq_false hpos.ne'
      obtain ⟨hnonneg, hleast, hwithin⟩ := isNonneg_sqrt_of_pos hfin hsign hpos
      exact ⟨hnonneg, fun _ => hfin, .inr hleast, hwithin⟩
  · rw [hx.unpack_of_not_isFinite hfin] at hmodel
    obtain ⟨hnonneg, hsize⟩ := isNonneg_of_infinity hmodel
    refine ⟨hnonneg, fun h => absurd h (not_isFinite_of_infinity hmodel), .inr ?_,
      fun _ h => absurd h.isFinite hfin⟩
    rw [hsize]
    exact (powerBits_lt (by norm_num)).le

/-! ## Whole numbers -/

/-- A count is not negative. -/
theorem isNonneg_ofNat (n : Nat) : IsNonneg (Float.ofNat n) := by
  obtain ⟨hsign, hsize⟩ := ofNat_spec n
  exact isNonneg_of_not_isNegative hsign (hsize ▸ roundToBits_le _)

/-- A count other than zero is at least one, so it can be divided by. -/
theorem powerBits_zero_le_sizeBits_ofNat {n : Nat} (hn : 0 < n) :
    powerBits 0 ≤ sizeBits (Float.ofNat n) := by
  rw [(ofNat_spec n).2, ← roundToBits_two_zpow (by norm_num) (by norm_num), zpow_zero]
  exact roundToBits_mono zero_le_one (by exact_mod_cast hn)

/-- A count is within a bound that it does not exceed, although it may have been rounded. -/
theorem isWithin_ofNat {n e : Nat} (h : n ≤ 2 ^ e) (he : e < 1024) :
    IsWithin (Float.ofNat n) e :=
  isWithin_of_round (ofNat_spec n).2 (Nat.cast_nonneg n) (by exact_mod_cast h) he

/-- The count of nothing is a zero. -/
theorem sizeBits_ofNat_zero : sizeBits (Float.ofNat 0) = 0 := by
  rw [(ofNat_spec 0).2, Nat.cast_zero, roundToBits_zero]

/-- The count of nothing is within every bound. -/
theorem isWithin_zero (e : Nat) : IsWithin (Float.ofNat 0) e :=
  isWithin_of_sizeBits_eq_zero sizeBits_ofNat_zero e

/-- The zero that sums start from is negative, and as good as the other one. -/
theorem isNonneg_neg_zero : IsNonneg (-Float.ofNat 0) := by
  have hsize := (neg_spec (isWithin_zero 0).isFinite).2.trans sizeBits_ofNat_zero
  exact ⟨hsize ▸ Nat.zero_le _, fun _ => hsize⟩

/-- What is divided by a whole number, be it beyond the range of doubles, does not grow. -/
theorem IsWithin.div_ofNat {e n : Nat} (hx : IsWithin x e) (he : e < 1024) (hn : 0 < n) :
    IsWithin (x / Float.ofNat n) e := by
  by_cases hfin : (Float.ofNat n).isFinite
  · refine hx.div (d := 0) hfin ?_ he
    have hle := strictMono_value.monotone (powerBits_zero_le_sizeBits_ofNat hn)
    rwa [value_powerBits (by norm_num)] at hle
  · have hmodel : (x / Float.ofNat n).toModel = .pack (UnpackedFloat.div Format.binary64
        x.toModel.unpack (Float.ofNat n).toModel.unpack) := rfl
    have hzero : (x / Float.ofNat n).toModel = .pack (unbounded (signOf (isNegative x)) 0) := by
      rw [hmodel, (isNonneg_ofNat n).unpack_of_not_isFinite hfin, unpack_of_isFinite hx.isFinite,
        unbounded_zero]
      rcases unbounded_cases (signOf (isNegative x)) (sizeBits x) with h | ⟨m, k, hm, h⟩ <;>
        rw [h] <;> cases isNegative x <;> rfl
    exact isWithin_of_sizeBits_eq_zero (sizeBits_of_zero hzero) e

end

end Cartouche.Binary64
