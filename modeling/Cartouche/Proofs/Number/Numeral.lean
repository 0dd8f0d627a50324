import Mathlib.Data.List.TakeWhile
import Cartouche.Number.Numeral
import Cartouche.Proofs.Number.Positional

/-!
# Numbers are read back

A numeral is read as the double nearest to the number that it stands for (`toFloat_spec`); cutting
off powers of ten that are beyond the range of doubles does not change it. Positional digits are
read as the numeral that they are (`unsigned?_chars`). Since what is written for a double reads
back, the text of a finite double in plain style is read as this double, the sign of a zero included
(`parseFloat?_text`); infinite doubles are read by their name (`parseFloat?_text_of_not_isNaN`).
Integers of 64 bits are read back as well, the least of them included, whose digits alone are out of
range (`parseInt64?_toString`).
-/

namespace Cartouche

open Binary64

/-- A double is determined by its sign and its size. -/
theorem Binary64.eq_of_sizeBits_eq {x y : Float} (hsign : isNegative x = isNegative y)
    (hsize : sizeBits x = sizeBits y) : x = y := by
  have hx := x.toBits.toNat_lt
  have hy := y.toBits.toNat_lt
  rw [isNegative_eq, isNegative_eq, Bool.eq_iff_iff, beq_iff_eq, beq_iff_eq] at hsign
  unfold sizeBits at hsize
  exact eq_of_toBits_eq (by omega)

/-- From `2 ^ 1024` on, numbers are rounded to infinity. -/
theorem Binary64.roundToBits_of_le {q : ℚ} (h : 2 ^ 1024 ≤ q) : roundToBits q = infinityBits := by
  refine le_antisymm (roundToBits_le q) ?_
  rw [← roundToBits_value le_rfl, ← two_pow_eq_value_infinityBits]
  exact roundToBits_mono (by positivity) h

/-- A power of ten that is too large for a double is read as infinity. -/
theorem Binary64.ofQuotient_ten_pow (negative : Bool) {k : Nat} (h : (2 : ℚ) ^ 1024 ≤ 10 ^ k) :
    isNegative (ofQuotient negative (Nat.pow 10 k) 1) = negative ∧
      sizeBits (ofQuotient negative (Nat.pow 10 k) 1) = infinityBits := by
  have hspec := ofQuotient_spec negative (Nat.pow 10 k) one_pos
  rwa [Nat.cast_one, div_one, Nat.pow_eq, Nat.cast_pow, Nat.cast_ofNat, roundToBits_of_le h]
    at hspec

/-- Below `2 ^ -1075`, numbers are rounded to zero. -/
theorem Binary64.roundToBits_of_lt {q : ℚ} (hq : 0 ≤ q) (h : q < 2 ^ (-1075 : Int)) :
    roundToBits q = 0 := by
  have hmid : Binary64.midpoint 0 = 2 ^ (-1075 : Int) := by
    rw [Binary64.midpoint, value_zero, zero_add, ulp, div_eq_mul_inv, ← zpow_sub_one₀ two_ne_zero]
    rfl
  exact Nat.le_zero.1 (roundToBits_le_of_le_midpoint hq (.inl (hmid ▸ h)))

namespace Numeral

/-- The number without its sign. -/
def number (n : Numeral) : ℚ := n.digits * 10 ^ n.exponent

/-- The number of digits says between which powers of ten a natural is. -/
theorem length_toDigits_spec {n : Nat} (h : n ≠ 0) :
    10 ^ ((Nat.toDigits 10 n).length - 1) ≤ n ∧ n < 10 ^ (Nat.toDigits 10 n).length := by
  have hpos : 0 < (Nat.toDigits 10 n).length := Nat.length_toDigits_pos
  refine ⟨?_, (Nat.length_toDigits_le_iff (by norm_num) hpos).1 le_rfl⟩
  rcases Nat.eq_zero_or_pos ((Nat.toDigits 10 n).length - 1) with h0 | h0
  · rw [h0, pow_zero]
    exact Nat.pos_of_ne_zero h
  · have := Nat.length_toDigits_le_iff (b := 10) (n := n) (by norm_num) h0
    omega

/-- The number of digits and the exponent tell the power of ten that a numeral lies below. -/
theorem number_spec {n : Numeral} (h : n.digits ≠ 0) :
    (10 : ℚ) ^ ((Nat.toDigits 10 n.digits).length + n.exponent - 1) ≤ n.number ∧
      n.number < 10 ^ ((Nat.toDigits 10 n.digits).length + n.exponent) := by
  have hstep := ten_zpow_pos n.exponent
  have hpos : 0 < (Nat.toDigits 10 n.digits).length := Nat.length_toDigits_pos
  obtain ⟨hlow, hhigh⟩ := length_toDigits_spec h
  constructor
  · have hexponent : ((Nat.toDigits 10 n.digits).length + n.exponent - 1 : Int) =
        ((Nat.toDigits 10 n.digits).length - 1 : Nat) + n.exponent := by omega
    rw [hexponent, zpow_add₀ (by norm_num), zpow_natCast]
    exact mul_le_mul_of_nonneg_right (by exact_mod_cast hlow) hstep.le
  · rw [zpow_add₀ (by norm_num), zpow_natCast]
    exact mul_lt_mul_of_pos_right (by exact_mod_cast hhigh) hstep

/-- Numbers with no digit in front of the 401st place behind the point are rounded to zero. -/
theorem roundToBits_number_of_le {n : Numeral} (h : n.digits ≠ 0)
    (hsize : (Nat.toDigits 10 n.digits).length + n.exponent ≤ -401) :
    roundToBits n.number = 0 := by
  refine roundToBits_of_lt (mul_nonneg (Nat.cast_nonneg _) (ten_zpow_pos _).le) ?_
  calc n.number < 10 ^ ((Nat.toDigits 10 n.digits).length + n.exponent) := (number_spec h).2
    _ ≤ 10 ^ (-401 : Int) := zpow_le_zpow_right₀ (by norm_num) hsize
    _ ≤ 2 ^ (-1075 : Int) := Magnitude.ten_zpow_le_two_zpow (by norm_num) (by norm_num)

/-- The range of doubles ends below `10 ^ 400`. -/
theorem two_pow_le_ten_pow : (2 : ℚ) ^ 1024 ≤ 10 ^ 400 := by
  have h := Magnitude.two_zpow_le_ten_zpow (e := (1024 : Nat)) (k := (400 : Nat))
    (by norm_num) (by norm_num)
  rwa [zpow_natCast, zpow_natCast] at h

/-- Numbers with more than 400 digits in front of the point are rounded to infinity. -/
theorem roundToBits_number_of_lt {n : Numeral} (h : n.digits ≠ 0)
    (hsize : 400 < (Nat.toDigits 10 n.digits).length + n.exponent) :
    roundToBits n.number = infinityBits := by
  refine roundToBits_of_le ?_
  calc (2 : ℚ) ^ 1024 ≤ 10 ^ 400 := two_pow_le_ten_pow
    _ = 10 ^ (400 : Int) := (zpow_natCast 10 400).symm
    _ ≤ 10 ^ ((Nat.toDigits 10 n.digits).length + n.exponent - 1) :=
        zpow_le_zpow_right₀ (by norm_num) (by omega)
    _ ≤ n.number := (number_spec h).1

/-- A numeral is read as the double nearest to it. -/
theorem toFloat_spec (n : Numeral) :
    isNegative n.toFloat = n.negative ∧ sizeBits n.toFloat = roundToBits n.number := by
  have hspec (num : Nat) {den : Nat} (hden : 0 < den)
      (h : roundToBits (num / den) = roundToBits n.number) :
      isNegative (ofQuotient n.negative num den) = n.negative ∧
        sizeBits (ofQuotient n.negative num den) = roundToBits n.number :=
    h ▸ ofQuotient_spec n.negative num hden
  unfold toFloat
  extract_lets size
  split
  · next hsmall =>
    refine hspec 0 one_pos ?_
    rw [Nat.cast_zero, zero_div, roundToBits_zero]
    by_cases h : n.digits = 0
    · rw [number, h, Nat.cast_zero, zero_mul, roundToBits_zero]
    · exact (roundToBits_number_of_le h (by omega)).symm
  · next hsmall =>
    split
    · next hlarge =>
      rw [roundToBits_number_of_lt (by omega) hlarge]
      -- Lean does not evaluate a power as large as this one.
      have hpow := two_pow_le_ten_pow
      generalize 400 = k at hpow ⊢
      exact ofQuotient_ten_pow n.negative hpow
    · refine hspec _ (Nat.pow_pos (by norm_num)) ?_
      rw [number, zpow_eq_div (by norm_num)]
      push_cast [Nat.pow_eq]
      rw [mul_div_assoc]

/-! ## Positional digits -/

/-- Positional digits are a numeral. -/
def ofPositional (negative : Bool) (p : Positional) : Numeral where
  negative := negative
  digits := p.digits
  exponent := -p.fraction.length

/-- Positional digits are read as the numeral that they are. -/
theorem unsigned?_chars (negative : Bool) (p : Positional) :
    unsigned? negative (p.chars '.') = some (ofPositional negative p) := by
  have hwhole : ∀ c ∈ p.whole, c.isDigit := fun c hc => p.isDigit c (List.mem_append_left _ hc)
  have hfraction : ∀ c ∈ p.fraction, c.isDigit :=
    fun c hc => p.isDigit c (List.mem_append_right _ hc)
  have htake (l rest : List Char) (hl : ∀ c ∈ l, c.isDigit) :
      (l ++ '.' :: rest).takeWhile Char.isDigit = l ∧
        (l ++ '.' :: rest).dropWhile Char.isDigit = '.' :: rest := by
    rw [List.takeWhile_append_of_pos hl, List.dropWhile_append_of_pos hl]
    exact ⟨List.append_nil l, rfl⟩
  unfold unsigned? Positional.chars
  split
  · next h =>
    rw [List.takeWhile_eq_self_iff.2 hwhole, List.dropWhile_eq_nil_iff.2 hwhole]
    simp [p.whole_ne_nil, ofPositional, Positional.digits, h]
  · rw [(htake _ _ hwhole).1, (htake _ _ hwhole).2]
    simp only [List.takeWhile_eq_self_iff.2 hfraction, List.dropWhile_eq_nil_iff.2 hfraction]
    simp [p.whole_ne_nil, ofPositional, Positional.digits]

/-- Positional digits begin with a digit. -/
theorem exists_first (p : Positional) (point : Char) :
    ∃ first rest, p.chars point = first :: rest ∧ first.isDigit := by
  obtain ⟨first, rest, hwhole⟩ := List.exists_cons_of_ne_nil p.whole_ne_nil
  have hfirst : first.isDigit := p.isDigit first (by simp [hwhole])
  unfold Positional.chars
  split
  · exact ⟨first, rest, hwhole, hfirst⟩
  · exact ⟨first, rest ++ point :: p.fraction, by rw [hwhole, List.cons_append], hfirst⟩

/-- Digits have no case, so comparing a text with a name regardless of case leaves digits as they
are. -/
theorem toLower_of_isDigit {c : Char} (h : c.isDigit) : c.toLower = c := by
  rw [Char.isDigit_iff_toNat] at h
  refine dif_neg ?_
  rintro ⟨hupper, -⟩
  have hlarge : 'A'.toNat ≤ c.toNat := UInt32.le_iff_toNat_le.1 hupper
  exact absurd (hlarge.trans h.2) (by decide)

/-- What begins with a digit is no name of a double. -/
theorem map_toLower_chars_ne (p : Positional) {c : Char} {cs : List Char} (hc : ¬ c.isDigit) :
    String.ofList ((p.chars '.').map Char.toLower) ≠ String.ofList (c :: cs) := by
  obtain ⟨first, rest, hchars, hfirst⟩ := exists_first p '.'
  intro h
  rw [hchars, String.ofList_inj, List.map_cons, List.cons.injEq, toLower_of_isDigit hfirst] at h
  exact hc (h.1 ▸ hfirst)

/-- Digits behind a sign are split into the sign and the digits. -/
theorem splitSign_chars (negative : Bool) (p : Positional) :
    splitSign ((if negative then ['-'] else []) ++ p.chars '.') = (negative, p.chars '.') := by
  cases negative with
  | true => rfl
  | false =>
    obtain ⟨first, rest, hchars, hfirst⟩ := exists_first p '.'
    rw [hchars, if_neg Bool.false_ne_true, List.nil_append]
    unfold splitSign
    split
    · next h =>
      rw [List.cons.injEq] at h
      exact absurd (h.1 ▸ hfirst) (by decide)
    · next h =>
      rw [List.cons.injEq] at h
      exact absurd (h.1 ▸ hfirst) (by decide)
    · rfl

/-- Positional digits with a sign are read as a double. -/
theorem parseFloat?_chars (negative : Bool) (p : Positional) :
    parseFloat? (String.ofList ((if negative then ['-'] else []) ++ p.chars '.')) =
      some (ofPositional negative p).toFloat := by
  unfold parseFloat?
  simp only [String.toList_ofList, splitSign_chars]
  rw [if_neg, if_neg, unsigned?_chars, Option.map_some]
  · exact map_toLower_chars_ne p (by decide)
  · rintro (h | h)
    · exact map_toLower_chars_ne p (by decide) h
    · exact map_toLower_chars_ne p (by decide) h

end Numeral

/-- The digits of a finite double are read as this double. -/
theorem Numeral.toFloat_ofPositional {x : Float} (h : x.isFinite) :
    (ofPositional (isNegative x) (Binary64.positional x)).toFloat = x := by
  have hbits := (isFinite_iff x).1 h
  have hnumber : (ofPositional (isNegative x) (Binary64.positional x)).number =
      (Magnitude.ofBits (sizeBits x)).written.number :=
    Decimal.number_toPositional _
  have hnonneg : 0 ≤ (Magnitude.ofBits (sizeBits x)).written.number :=
    mul_nonneg (Nat.cast_nonneg _) (ten_zpow_pos _).le
  obtain ⟨hsign, hsize⟩ := (ofPositional (isNegative x) (Binary64.positional x)).toFloat_spec
  rw [hnumber, (Magnitude.isNearest_written _).roundToBits_eq hnonneg, min_eq_left hbits.le]
    at hsize
  exact eq_of_sizeBits_eq hsign hsize

/-- The text of a finite double in plain style is read as this double. -/
theorem parseFloat?_text {x : Float} (h : x.isFinite) :
    parseFloat? (NumberStyle.plain.text x) = some x := by
  rw [← String.ofList_toList (s := NumberStyle.plain.text x), NumberStyle.toList_text h, signChars,
    Numeral.parseFloat?_chars, Numeral.toFloat_ofPositional h]

/-- The text of an infinite double. -/
theorem NumberStyle.toList_text_of_isInf {x : Float} (h : x.isNaN = false) (hinf : x.isInf) :
    (plain.text x).toList = signChars x ++ "inf".toList := by
  rw [text, h, hinf]
  simp only [if_neg Bool.false_ne_true, if_true, String.toList_ofList]
  unfold signChars
  cases isNegative x <;> rfl

/-- The text of any double but those that are no numbers is read as this double. -/
theorem parseFloat?_text_of_not_isNaN {x : Float} (h : x.isNaN = false) :
    parseFloat? (NumberStyle.plain.text x) = some x := by
  by_cases hfinite : x.isFinite
  · exact parseFloat?_text hfinite
  · have hinf : x.isInf :=
      ((not_isFinite_iff x).1 hfinite).resolve_left (Bool.eq_false_iff.1 h)
    have hsize : sizeBits x = infinityBits := by
      rw [isFinite_iff] at hfinite
      rw [Bool.eq_false_iff, ne_eq, isNaN_iff] at h
      omega
    have hsplit : Numeral.splitSign (signChars x ++ "inf".toList) =
        (isNegative x, "inf".toList) := by
      unfold signChars
      cases isNegative x <;> rfl
    have hpow := Numeral.two_pow_le_ten_pow
    unfold parseFloat?
    generalize 400 = k at hpow ⊢
    obtain ⟨hsign, hbits⟩ := ofQuotient_ten_pow (isNegative x) hpow
    have hread := eq_of_sizeBits_eq hsign (hbits.trans hsize.symm)
    simp only [NumberStyle.toList_text_of_isInf h hinf, hsplit, hread]
    rw [if_pos (.inl (by decide))]

/-! ## Integers -/

/-- The digits of a natural. -/
def Positional.ofNat (n : Nat) : Positional where
  whole := Nat.toDigits 10 n
  fraction := []
  whole_ne_nil := Nat.toDigits_ne_nil
  isDigit c hc := by
    rw [List.append_nil] at hc
    exact Nat.isDigit_of_mem_toDigits (by decide) (by decide) hc

/-- The text of an integer: its sign and the digits of its size. -/
theorem Positional.toList_toString (n : Int) :
    (toString n).toList = (if decide (n < 0) then ['-'] else []) ++
      (ofNat n.natAbs).chars '.' := by
  have hchars (m : Nat) : m.repr.toList = (ofNat m).chars '.' := Nat.toList_repr
  cases n with
  | ofNat m =>
    rw [decide_eq_false (by simp)]
    exact hchars m
  | negSucc m =>
    rw [decide_eq_true (Int.negSucc_lt_zero m)]
    show ("-" ++ m.succ.repr).toList = _
    rw [String.toList_append, hchars]
    rfl

/-- The text of an integer of 64 bits is read as this integer. -/
theorem parseInt64?_toString (n : Int64) : parseInt64? (toString n.toInt) = some n := by
  have hdigits : (Positional.ofNat n.toInt.natAbs).chars '.' ≠ [] ∧
      ((Positional.ofNat n.toInt.natAbs).chars '.').all Char.isDigit := by
    refine ⟨Nat.toDigits_ne_nil, List.all_eq_true.2 fun c => ?_⟩
    exact Nat.isDigit_of_mem_toDigits (by decide) (by decide)
  have hvalue : Numeral.digitsValue ((Positional.ofNat n.toInt.natAbs).chars '.') =
      n.toInt.natAbs :=
    Nat.ofDigitChars_ten_toDigits
  have hsigned : (if decide (n.toInt < 0) then -(n.toInt.natAbs : Int) else n.toInt.natAbs) =
      n.toInt := by
    simp only [decide_eq_true_eq]
    split <;> omega
  unfold parseInt64?
  simp only [Positional.toList_toString, Numeral.splitSign_chars, hvalue, hsigned]
  rw [if_pos hdigits, if_pos ⟨n.minValue_le_toInt, n.toInt_le⟩, Int64.ofInt_toInt]

end Cartouche
