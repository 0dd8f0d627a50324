import Mathlib.Algebra.Order.Ring.Int
import Mathlib.Data.Nat.Cast.Order.Ring
import Cartouche.Number.Binary64

/-!
# The order of doubles

Doubles are compared field by field, but the fields stand in the bits in such an order that the bits
without the sign, read as a natural, grow with the size of the double. `Binary64.rank` gives these
bits the sign of the double. It orders all doubles that are numbers (`lt_iff_rank_lt`,
`le_iff_rank_le`), and tells them apart except for the two zeros (`eq_or_sizeBits_eq_zero`). So
facts about comparisons of doubles become facts about integers, and what is not a number is related
to nothing (`isNaN_of_compare`).
-/

namespace Cartouche.Binary64

open Float.Model (UnpackedFloat Format)
open Float.Model.UnpackedFloat (Sign)

/-! ## What bits stand for -/

/-- The bits of infinity, which are above those of all finite doubles. -/
def infinityBits : Nat := 2047 * 2 ^ 52

/-- The mantissa in bits without sign; its leading digit is not among the bits, except for the
doubles next to zero, which have none. -/
def mantissaOf (bits : Nat) : Nat := if bits < 2 ^ 52 then bits else 2 ^ 52 + bits % 2 ^ 52

/-- The exponent in bits without sign. -/
def exponentOf (bits : Nat) : Int := if bits < 2 ^ 52 then -1074 else bits / 2 ^ 52 - 1075

/-- The sign that the sign bit stands for. -/
def signOf (negative : Bool) : Sign := if negative then .negative else .positive

/-- What a sign and bits without sign stand for. -/
def decode (sign : Sign) (bits : Nat) : UnpackedFloat :=
  if infinityBits < bits then .notANumber
  else if bits = infinityBits then .infinity sign
  else if h : 0 < mantissaOf bits then .finite sign (mantissaOf bits) (exponentOf bits) h
  else .zero sign

/-- The mantissa field is the last 52 bits. -/
theorem toNat_unpackMantissa (b : BitVec 64) :
    (@UnpackedFloat.unpackMantissa Format.binary64 b).toNat = b.toNat % 2 ^ 52 := by
  simp [UnpackedFloat.unpackMantissa]

/-- The exponent field is the 11 bits in front of the mantissa field. -/
theorem toNat_unpackExponent (b : BitVec 64) :
    (@UnpackedFloat.unpackExponent Format.binary64 b).toNat =
      b.toNat / 2 ^ 52 % 2 ^ 11 := by
  simp [UnpackedFloat.unpackExponent, Nat.shiftRight_eq_div_pow]

/-- The mantissa field is zero when the last 52 bits are. -/
theorem unpackMantissa_eq_zero_iff (b : BitVec 64) :
    @UnpackedFloat.unpackMantissa Format.binary64 b = 0#52 ↔ b.toNat % 2 ^ 52 = 0 := by
  rw [← BitVec.toNat_inj, toNat_unpackMantissa]
  rfl

/-- The exponent field is known by its number. The first and the last one are set apart. -/
theorem unpackExponent_eq_iff (b : BitVec 64) (field : BitVec 11) :
    @UnpackedFloat.unpackExponent Format.binary64 b = field ↔
      b.toNat / 2 ^ 52 % 2 ^ 11 = field.toNat := by
  rw [← BitVec.toNat_inj, toNat_unpackExponent]

/-- The sign field is the bit in front of the others. -/
theorem toNat_unpackSign (b : BitVec 64) :
    (@UnpackedFloat.unpackSign Format.binary64 b).toNat = b.toNat / 2 ^ 63 := by
  have := b.isLt
  delta UnpackedFloat.unpackSign
  simp [Nat.shiftRight_eq_div_pow]
  omega

/-- The sign bit is the first one. -/
theorem ofBitVec_unpackSign (b : BitVec 64) :
    Sign.ofBitVec (@UnpackedFloat.unpackSign Format.binary64 b) =
      signOf (b.toNat / 2 ^ 63 == 1) := by
  have hlt := b.isLt
  have h0 : @UnpackedFloat.unpackSign Format.binary64 b = 0#1 ↔ b.toNat / 2 ^ 63 = 0 := by
    rw [← BitVec.toNat_inj, toNat_unpackSign]
    rfl
  have hbit : b.toNat / 2 ^ 63 = 0 ∨ b.toNat / 2 ^ 63 = 1 := by omega
  simp only [Sign.ofBitVec, signOf, h0, beq_iff_eq]
  rcases hbit with hbit | hbit
  · rw [if_pos hbit, if_neg (by omega)]
  · rw [if_neg (by omega), if_pos hbit]

/-- Only the bits of zero have no mantissa. -/
theorem mantissaOf_pos {bits : Nat} (h : 0 < bits) : 0 < mantissaOf bits := by
  unfold mantissaOf
  split <;> omega

/-- No bits stand for zero, which has a sign. -/
@[simp] theorem decode_zero (sign : Sign) : decode sign 0 = .zero sign := by
  simp [decode, mantissaOf, infinityBits]

/-- The first bits behind those of finite doubles stand for infinity. -/
@[simp] theorem decode_infinity (sign : Sign) : decode sign infinityBits = .infinity sign := by
  simp [decode]

/-- The bits in between stand for a mantissa and an exponent. Of the four sorts this is the one that
arithmetic is about. -/
theorem decode_finite (sign : Sign) {bits : Nat} (h0 : 0 < bits) (h : bits < infinityBits) :
    decode sign bits = .finite sign (mantissaOf bits) (exponentOf bits) (mantissaOf_pos h0) := by
  unfold decode
  rw [if_neg (Nat.lt_asymm h), if_neg (Nat.ne_of_lt h), dif_pos (mantissaOf_pos h0)]

/-- All bits beyond those of infinity stand for what is not a number. -/
theorem decode_undefined (sign : Sign) {bits : Nat} (h : infinityBits < bits) :
    decode sign bits = .notANumber := by
  simp [decode, h]

/-- Finite doubles are equal when their fields are; the proof that the mantissa is positive does not
count. -/
theorem finite_congr {sign : Sign} {m m' : Nat} {e e' : Int} {h : 0 < m} {h' : 0 < m'}
    (hm : m = m') (he : e = e') :
    UnpackedFloat.finite sign m e h = UnpackedFloat.finite sign m' e' h' := by
  subst hm he
  rfl

/-- Next to zero, where the exponent field is zero, the mantissa is the mantissa field. -/
theorem mantissaOf_fields_zero {f : Nat} (hf : f < 2 ^ 52) : mantissaOf (0 * 2 ^ 52 + f) = f := by
  unfold mantissaOf
  split <;> omega

/-- The first two exponent fields stand for the same exponent, so the grid of doubles goes on to
zero without a gap. -/
theorem exponentOf_fields_zero {f : Nat} (hf : f < 2 ^ 52) :
    exponentOf (0 * 2 ^ 52 + f) = -1074 := by
  unfold exponentOf
  split <;> omega

/-- Elsewhere the mantissa has a leading digit in front of the mantissa field. -/
theorem mantissaOf_fields {e f : Nat} (he : 0 < e) (hf : f < 2 ^ 52) :
    mantissaOf (e * 2 ^ 52 + f) = 2 ^ 52 + f := by
  unfold mantissaOf
  split <;> omega

/-- Elsewhere the exponent grows with the exponent field. -/
theorem exponentOf_fields {e f : Nat} (he : 0 < e) (hf : f < 2 ^ 52) :
    exponentOf (e * 2 ^ 52 + f) = e - 1075 := by
  unfold exponentOf
  split <;> omega

/-- Next to zero a mantissa field other than zero stands for itself. -/
theorem decode_fields_zero (sign : Sign) {f : Nat} (hpos : 0 < f) (hf : f < 2 ^ 52) :
    decode sign (0 * 2 ^ 52 + f) = .finite sign f (-1074) hpos := by
  rw [decode_finite _ (by omega) (by unfold infinityBits; omega)]
  exact finite_congr (mantissaOf_fields_zero hf) (exponentOf_fields_zero hf)

/-- With an exponent field between the first and the last one any mantissa field stands for a finite
double. -/
theorem decode_fields (sign : Sign) {e f : Nat} (hpos : 0 < e) (hlast : e < 2047)
    (hf : f < 2 ^ 52) :
    decode sign (e * 2 ^ 52 + f) = .finite sign (2 ^ 52 + f) (e - 1075) (by omega) := by
  rw [decode_finite _ (by omega) (by unfold infinityBits; omega)]
  exact finite_congr (mantissaOf_fields hpos hf) (exponentOf_fields hpos hf)

/-- With the last exponent field a mantissa field other than zero stands for what is not a number.
-/
theorem decode_fields_last (sign : Sign) {f : Nat} (hpos : 0 < f) :
    decode sign (2047 * 2 ^ 52 + f) = .notANumber :=
  decode_undefined sign (by unfold infinityBits; omega)

/-- A leading digit is put in front of a mantissa field by setting its bit. -/
theorem leading_or_eq_add {f : Nat} (hf : f < 2 ^ 52) : (1 <<< 52 ||| f : Nat) = 2 ^ 52 + f := by
  rw [← Nat.shiftLeft_add_eq_or_of_lt hf]
  rfl

/-- The fields of bits are read off the bits without sign. -/
theorem unpack_eq_decode (b : BitVec 64) :
    UnpackedFloat.unpack Format.binary64 b =
      decode (signOf (b.toNat / 2 ^ 63 == 1)) (b.toNat % 2 ^ 63) := by
  have hM := toNat_unpackMantissa b
  have hE := toNat_unpackExponent b
  have hM0 := unpackMantissa_eq_zero_iff b
  have hE0 := unpackExponent_eq_iff b 0#11
  have hE1 := unpackExponent_eq_iff b (-1#11)
  -- The bits without sign are the exponent field in front of the mantissa field.
  have hbits : b.toNat % 2 ^ 63 = b.toNat / 2 ^ 52 % 2 ^ 11 * 2 ^ 52 + b.toNat % 2 ^ 52 := by omega
  have hf : b.toNat % 2 ^ 52 < 2 ^ 52 := Nat.mod_lt _ (by decide)
  have he : b.toNat / 2 ^ 52 % 2 ^ 11 < 2 ^ 11 := Nat.mod_lt _ (by decide)
  delta UnpackedFloat.unpack
  dsimp only
  rw [ofBitVec_unpackSign, hbits]
  generalize b.toNat / 2 ^ 52 % 2 ^ 11 = e at *
  generalize b.toNat % 2 ^ 52 = f at *
  by_cases hlast : @UnpackedFloat.unpackExponent Format.binary64 b = -1#11
  · refine (if_pos hlast).trans ?_
    obtain rfl : e = 2047 := hE1.1 hlast
    by_cases hnone : @UnpackedFloat.unpackMantissa Format.binary64 b = 0#52
    · refine (if_pos hnone).trans ?_
      obtain rfl := hM0.1 hnone
      exact (decode_infinity _).symm
    · refine (if_neg hnone).trans ?_
      exact (decode_fields_last _ (Nat.pos_of_ne_zero (mt hM0.2 hnone))).symm
  · refine (if_neg hlast).trans ?_
    by_cases hleast : @UnpackedFloat.unpackExponent Format.binary64 b = 0#11
    · refine (if_pos hleast).trans ?_
      obtain rfl : e = 0 := hE0.1 hleast
      by_cases hnone : @UnpackedFloat.unpackMantissa Format.binary64 b = 0#52
      · refine (dif_pos hnone).trans ?_
        obtain rfl := hM0.1 hnone
        exact (decode_zero _).symm
      · refine (dif_neg hnone).trans ?_
        rw [decode_fields_zero _ (Nat.pos_of_ne_zero (mt hM0.2 hnone)) hf]
        refine finite_congr hM ?_
        rw [hE]
        rfl
    · refine (if_neg hleast).trans ?_
      have hpos : 0 < e := Nat.pos_of_ne_zero (mt hE0.2 hleast)
      have hbelow : e ≠ 2047 := mt hE1.2 hlast
      rw [decode_fields _ hpos (by omega) hf]
      refine finite_congr ?_ ?_
      · rw [BitVec.toNat_append, hM]
        exact leading_or_eq_add hf
      · rw [hE]
        rfl

/-! ## Comparing -/

/-- Larger bits have a larger exponent, or the same exponent and a larger mantissa. -/
theorem exponentOf_lt_or_mantissaOf_lt {a b : Nat} (h : a < b) :
    exponentOf a < exponentOf b ∨ exponentOf a = exponentOf b ∧ mantissaOf a < mantissaOf b := by
  unfold exponentOf mantissaOf
  split <;> split <;> omega

/-- Comparing exponents and then mantissas is comparing bits. -/
theorem compare_exponentOf_then (a b : Nat) :
    (compare (exponentOf a) (exponentOf b)).then (compare (mantissaOf a) (mantissaOf b)) =
      compare a b := by
  rcases Nat.lt_trichotomy a b with h | rfl | h
  · rw [Nat.compare_eq_lt.2 h]
    rcases exponentOf_lt_or_mantissaOf_lt h with he | ⟨he, hm⟩
    · rw [Int.compare_eq_lt.2 he]
      rfl
    · rw [Int.compare_eq_eq.2 he, Nat.compare_eq_lt.2 hm]
      rfl
  · rw [Int.compare_eq_eq.2 rfl, Nat.compare_eq_eq.2 rfl, Nat.compare_eq_eq.2 rfl]
    rfl
  · rw [Nat.compare_eq_gt.2 h]
    rcases exponentOf_lt_or_mantissaOf_lt h with he | ⟨he, hm⟩
    · rw [Int.compare_eq_gt.2 he]
      rfl
    · rw [Int.compare_eq_eq.2 he.symm, Nat.compare_eq_gt.2 hm]
      rfl

/-- Naturals are compared in the same way as integers. -/
theorem compare_natCast (a b : Nat) : compare (a : Int) (b : Int) = compare a b := by
  rcases Nat.lt_trichotomy a b with h | h | h
  · rw [Nat.compare_eq_lt.2 h, Int.compare_eq_lt.2 (by omega)]
  · rw [Nat.compare_eq_eq.2 h, Int.compare_eq_eq.2 (by omega)]
  · rw [Nat.compare_eq_gt.2 h, Int.compare_eq_gt.2 (by omega)]

/-- Opposites are compared the other way round. -/
theorem compare_neg (a b : Int) : compare (-a) (-b) = (compare a b).swap := by
  rcases Int.lt_trichotomy a b with h | h | h
  · rw [Int.compare_eq_lt.2 h, Int.compare_eq_gt.2 (by omega)]
    rfl
  · rw [Int.compare_eq_eq.2 h, Int.compare_eq_eq.2 (by omega)]
    rfl
  · rw [Int.compare_eq_gt.2 h, Int.compare_eq_lt.2 (by omega)]
    rfl

/-- Bits with a sign. -/
def signed (negative : Bool) (bits : Nat) : Int := if negative then -(bits : Int) else bits

/-- What is not undefined is a zero, a finite number or an infinity. -/
theorem bits_cases {bits : Nat} (h : bits ≤ infinityBits) :
    bits = 0 ∨ (0 < bits ∧ bits < infinityBits) ∨ bits = infinityBits := by
  omega

/-- What is not undefined is compared like the bits with their signs. -/
theorem compare_decode (m n : Bool) {a b : Nat} (ha : a ≤ infinityBits) (hb : b ≤ infinityBits) :
    (decode (signOf m) a).compare (decode (signOf n) b) =
      some (compare (signed m a) (signed n b)) := by
  have hinf : 0 < infinityBits := by decide
  rcases bits_cases ha with rfl | ⟨ha0, ha⟩ | rfl <;>
    rcases bits_cases hb with rfl | ⟨hb0, hb⟩ | rfl
  case inr.inl.inr.inl =>
    rw [decode_finite _ ha0 ha, decode_finite _ hb0 hb]
    have hab := compare_exponentOf_then a b
    rw [← compare_natCast a b] at hab
    cases m <;> cases n
    · exact congrArg some hab
    · exact congrArg some (Int.compare_eq_gt.2 (by simp only [signed]; grind)).symm
    · exact congrArg some (Int.compare_eq_lt.2 (by simp only [signed]; grind)).symm
    · exact congrArg some ((congrArg _ hab).trans (compare_neg a b).symm)
  case inr.inr.inr.inr =>
    rw [decode_infinity, decode_infinity]
    cases m <;> cases n <;> rfl
  -- Of two different sorts the signs alone decide, and so they do of two zeros.
  all_goals
    simp only [decode_zero, decode_infinity]
    first
    | rw [decode_finite _ ha0 ha]
    | rw [decode_finite _ hb0 hb]
    | skip
    cases m <;> cases n <;>
      first
      | exact congrArg some (Int.compare_eq_lt.2 (by grind [signed])).symm
      | exact congrArg some (Int.compare_eq_gt.2 (by grind [signed])).symm
      | exact congrArg some (Int.compare_eq_eq.2 (by grind [signed])).symm

/-! ## Ranks -/

/-- The bits of a double without the sign. -/
def sizeBits (x : Float) : Nat := x.toBits.toNat % 2 ^ 63

/-- The place of a double among all others. -/
def rank (x : Float) : Int := signed (isNegative x) (sizeBits x)

/-- A double is negative when its first bit is set, also when it is a zero or not a number. -/
theorem isNegative_eq (x : Float) : isNegative x = (x.toBits.toNat / 2 ^ 63 == 1) := by
  rw [Bool.eq_iff_iff, isNegative, beq_iff_eq, beq_iff_eq, ← UInt64.toNat_inj,
    UInt64.toNat_shiftRight]
  simp [Nat.shiftRight_eq_div_pow]

/-- A double is what its sign and its other bits stand for. -/
theorem unpack_toModel (x : Float) :
    x.toModel.unpack = decode (signOf (isNegative x)) (sizeBits x) := by
  rw [isNegative_eq]
  exact unpack_eq_decode x.toBits.toBitVec

/-- A double is finite when its bits are below those of infinity. -/
theorem isFinite_iff (x : Float) : x.isFinite ↔ sizeBits x < infinityBits := by
  have h : x.isFinite = (decode (signOf (isNegative x)) (sizeBits x)).isFinite :=
    congrArg UnpackedFloat.isFinite (unpack_toModel x)
  rw [h]
  rcases Nat.lt_trichotomy (sizeBits x) infinityBits with hlt | heq | hgt
  · rcases Nat.eq_zero_or_pos (sizeBits x) with h0 | hpos
    · rw [h0, decode_zero]
      exact iff_of_true rfl (by decide)
    · rw [decode_finite _ hpos hlt]
      exact iff_of_true rfl hlt
  · rw [heq, decode_infinity]
    exact iff_of_false Bool.false_ne_true (Nat.lt_irrefl _)
  · rw [decode_undefined _ hgt]
    exact iff_of_false Bool.false_ne_true (Nat.lt_asymm hgt)

/-- A double is a number unless its bits are above those of infinity. -/
theorem isNaN_iff (x : Float) : x.isNaN ↔ infinityBits < sizeBits x := by
  have h : x.isNaN = (decode (signOf (isNegative x)) (sizeBits x)).isNaN :=
    congrArg UnpackedFloat.isNaN (unpack_toModel x)
  rw [h]
  rcases Nat.lt_trichotomy (sizeBits x) infinityBits with hlt | heq | hgt
  · rcases Nat.eq_zero_or_pos (sizeBits x) with h0 | hpos
    · rw [h0, decode_zero]
      exact iff_of_false Bool.false_ne_true (by decide)
    · rw [decode_finite _ hpos hlt]
      exact iff_of_false Bool.false_ne_true (Nat.lt_asymm hlt)
  · rw [heq, decode_infinity]
    exact iff_of_false Bool.false_ne_true (Nat.lt_irrefl _)
  · rw [decode_undefined _ hgt]
    exact iff_of_true rfl hgt

/-- What is not finite is infinite or not a number. -/
theorem not_isFinite_iff (x : Float) : ¬ x.isFinite ↔ x.isNaN ∨ x.isInf := by
  show ¬ x.toModel.unpack.isFinite ↔ x.toModel.unpack.isNaN ∨ x.toModel.unpack.isInf
  cases x.toModel.unpack with
  | notANumber => exact iff_of_true Bool.false_ne_true (.inl rfl)
  | infinity sign => exact iff_of_true Bool.false_ne_true (.inr rfl)
  | zero sign => exact iff_of_false (fun h => h rfl) (by rintro (h | h) <;> cases h)
  | finite sign m e hpos => exact iff_of_false (fun h => h rfl) (by rintro (h | h) <;> cases h)

/-- What is finite is a number. -/
theorem isNaN_of_isFinite {x : Float} (h : x.isFinite) : x.isNaN = false := by
  have := (isFinite_iff x).1 h
  rw [Bool.eq_false_iff, ne_eq, isNaN_iff]
  omega

/-- Doubles that are numbers are compared like their ranks. -/
theorem compare_eq_compare_rank {x y : Float} (hx : x.isNaN = false) (hy : y.isNaN = false) :
    x.toModel.unpack.compare y.toModel.unpack = some (compare (rank x) (rank y)) := by
  rw [Bool.eq_false_iff, ne_eq, isNaN_iff, Nat.not_lt] at hx hy
  rw [unpack_toModel, unpack_toModel]
  exact compare_decode _ _ hx hy

/-- Doubles that are numbers are ordered by their ranks. From here on `omega` decides what follows
from comparisons. -/
theorem lt_iff_rank_lt {x y : Float} (hx : x.isNaN = false) (hy : y.isNaN = false) :
    x < y ↔ rank x < rank y := by
  have h : x < y ↔ (x.toModel.unpack.compare y.toModel.unpack == some .lt) = true :=
    decide_eq_true_iff
  rw [h, compare_eq_compare_rank hx hy, beq_iff_eq, Option.some.injEq, Int.compare_eq_lt]

/-- The same for the order that is not strict. -/
theorem le_iff_rank_le {x y : Float} (hx : x.isNaN = false) (hy : y.isNaN = false) :
    x ≤ y ↔ rank x ≤ rank y := by
  have h : x ≤ y ↔ (x.toModel.unpack.compare y.toModel.unpack).any (·.isLE) = true :=
    decide_eq_true_iff
  rw [h, compare_eq_compare_rank hx hy, Option.any_some, Int.isLE_compare]

/-- Doubles that are numbers compare equal when they have the same rank, so the two zeros do. -/
theorem beq_iff_rank_eq {x y : Float} (hx : x.isNaN = false) (hy : y.isNaN = false) :
    x == y ↔ rank x = rank y := by
  have h : (x == y) = (x.toModel.unpack.compare y.toModel.unpack == some .eq) := rfl
  rw [h, compare_eq_compare_rank hx hy, beq_iff_eq, Option.some.injEq, Int.compare_eq_eq]

/-! ## What is not a number -/

/-- All doubles that are not numbers stand for the same thing, whatever their bits are. -/
theorem unpack_of_isNaN {x : Float} (h : x.isNaN) : x.toModel.unpack = .notANumber := by
  rw [unpack_toModel]
  exact decode_undefined _ ((isNaN_iff x).1 h)

/-- Only numbers are related to each other. -/
theorem isNaN_of_compare {x y : Float} {o : Ordering}
    (h : x.toModel.unpack.compare y.toModel.unpack = some o) :
    x.isNaN = false ∧ y.isNaN = false := by
  refine ⟨Bool.eq_false_iff.2 fun hx => ?_, Bool.eq_false_iff.2 fun hy => ?_⟩
  · rw [unpack_of_isNaN hx] at h
    cases h
  · rw [unpack_of_isNaN hy] at h
    generalize x.toModel.unpack = u at h
    cases u <;> cases h

/-- Both sides of a strict comparison that holds are numbers. -/
theorem isNaN_of_lt {x y : Float} (h : x < y) : x.isNaN = false ∧ y.isNaN = false := by
  have hiff : x < y ↔ (x.toModel.unpack.compare y.toModel.unpack == some .lt) = true :=
    decide_eq_true_iff
  exact isNaN_of_compare (beq_iff_eq.1 (hiff.1 h))

/-- Both sides of a comparison that holds are numbers. -/
theorem isNaN_of_le {x y : Float} (h : x ≤ y) : x.isNaN = false ∧ y.isNaN = false := by
  have hiff : x ≤ y ↔ (x.toModel.unpack.compare y.toModel.unpack).any (·.isLE) = true :=
    decide_eq_true_iff
  obtain ⟨o, ho, -⟩ := (Option.any_eq_true _ _).1 (hiff.1 h)
  exact isNaN_of_compare ho

/-- Both sides of an equality that is found by comparing are numbers. -/
theorem isNaN_of_beq {x y : Float} (h : x == y) : x.isNaN = false ∧ y.isNaN = false := by
  have heq : (x == y) = (x.toModel.unpack.compare y.toModel.unpack == some .eq) := rfl
  rw [heq] at h
  exact isNaN_of_compare (beq_iff_eq.1 h)

/-- The strict order is transitive on all doubles: one that is not a number is never in the
middle. -/
theorem lt_trans {x y z : Float} (hxy : x < y) (hyz : y < z) : x < z := by
  obtain ⟨hx, hy⟩ := isNaN_of_lt hxy
  have hz := (isNaN_of_lt hyz).2
  rw [lt_iff_rank_lt hx hy] at hxy
  rw [lt_iff_rank_lt hy hz] at hyz
  rw [lt_iff_rank_lt hx hz]
  omega

/-- No two doubles are less than each other. -/
theorem lt_asymm {x y : Float} (h : x < y) : ¬ y < x := by
  obtain ⟨hx, hy⟩ := isNaN_of_lt h
  rw [lt_iff_rank_lt hx hy] at h
  rw [lt_iff_rank_lt hy hx]
  omega

/-- A double that is a number lies on one side at least of the place between two others. -/
theorem lt_or_lt_of_lt {x z : Float} (h : x < z) {y : Float} (hy : y.isNaN = false) :
    x < y ∨ y < z := by
  obtain ⟨hx, hz⟩ := isNaN_of_lt h
  rw [lt_iff_rank_lt hx hz] at h
  rw [lt_iff_rank_lt hx hy, lt_iff_rank_lt hy hz]
  omega

/-- A double equals itself when it is a number. -/
theorem beq_self_iff {x : Float} : x == x ↔ x.isNaN = false :=
  ⟨fun h => (isNaN_of_beq h).1, fun h => (beq_iff_rank_eq h h).2 rfl⟩

/-- Comparing for equality does not depend on the order of the sides. -/
theorem beq_symm {x y : Float} (h : x == y) : y == x := by
  obtain ⟨hx, hy⟩ := isNaN_of_beq h
  rw [beq_iff_rank_eq hx hy] at h
  exact (beq_iff_rank_eq hy hx).2 h.symm

/-! ## Equal ranks -/

/-- A double is its bits. -/
theorem eq_of_toBits_eq : ∀ {x y : Float}, x.toBits.toNat = y.toBits.toNat → x = y
  | .ofModel ⟨a, _⟩, .ofModel ⟨b, _⟩, h => by
    have hab : a = b := UInt64.toNat_inj.1 h
    subst hab
    rfl

/-- There are two doubles without size, the zeros. -/
theorem sizeBits_eq_zero_iff (x : Float) : sizeBits x = 0 ↔ x = 0.0 ∨ x = -0.0 := by
  constructor
  · intro h
    have hlt := x.toBits.toNat_lt
    have hbits : x.toBits.toNat = 0 ∨ x.toBits.toNat = 2 ^ 63 := by
      unfold sizeBits at h
      omega
    exact hbits.imp eq_of_toBits_eq eq_of_toBits_eq
  · rintro (rfl | rfl) <;> decide

/-- Doubles of one rank are the same, unless they are zeros of different signs. -/
theorem eq_or_sizeBits_eq_zero {x y : Float} (h : rank x = rank y) :
    x = y ∨ (sizeBits x = 0 ∧ sizeBits y = 0) := by
  have hx := x.toBits.toNat_lt
  have hy := y.toBits.toNat_lt
  unfold rank signed at h
  rw [isNegative_eq, isNegative_eq] at h
  unfold sizeBits at h ⊢
  by_cases h0 : x.toBits.toNat % 2 ^ 63 = 0
  · right
    grind
  · left
    apply eq_of_toBits_eq
    grind

end Cartouche.Binary64
