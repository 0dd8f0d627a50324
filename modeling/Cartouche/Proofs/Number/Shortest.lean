import Cartouche.Number.Style
import Cartouche.Proofs.Number.Decimal

/-!
# The fewest digits of a double

`Magnitude.shortest` finds a decimal that reads back (`isNearest_shortest`), and away from zero none
that reads back has its last digit further to the left (`le_exponent_shortest`). The second fact
rests on the search in two ways. The power of ten above a double is exact (`decimalScale_spec`), so
the search passes every grid on which a decimal can lie. And seventeen digits are enough for the
nearer of the two grid points around a double to read back, so the search ends.
-/

namespace Cartouche

open Binary64

/-- Powers of ten are positive, so a grid has steps of some length. -/
theorem ten_zpow_pos (e : Int) : (0 : ℚ) < 10 ^ e := zpow_pos (by norm_num) e

namespace Decimal

/-- A decimal is a multiple of every smaller power of ten. -/
theorem exists_number_eq {d : Decimal} {e : Int} (h : e ≤ d.exponent) :
    ∃ n : Nat, d.number = n * 10 ^ e := by
  refine ⟨d.digits * 10 ^ (d.exponent - e).toNat, ?_⟩
  have hexponent : d.exponent = (d.exponent - e).toNat + e := by omega
  rw [number]
  nth_rewrite 1 [hexponent]
  rw [zpow_add₀ (by norm_num), zpow_natCast]
  push_cast
  ring

/-! ## Trailing zeros -/

/-- The zeros at the end of the digits of a number say by which power of ten it can be divided. -/
theorem exists_eq_mul_ten_pow {n : Nat} (hn : n ≠ 0) :
    ∃ m, m % 10 ≠ 0 ∧
      n = m * 10 ^ ((digitChars n).reverse.takeWhile (· == '0')).length := by
  induction n using Nat.strongRecOn with
  | ind n ih =>
    rcases Nat.lt_or_ge n 10 with hlt | hge
    · refine ⟨n, by omega, ?_⟩
      have hlast : ((n.digitChar) == '0') = false := by
        rw [beq_eq_false_iff_ne, ne_eq, Nat.digitChar_eq_zero]
        exact hn
      simp [digitChars, Nat.toDigits_of_lt_base hlt, hlast]
    · have hdigits : digitChars n = digitChars (n / 10) ++ [(n % 10).digitChar] := by
        rw [digitChars, Nat.toDigits_of_base_le (by norm_num) hge]
        rfl
      rw [hdigits, List.reverse_append, List.reverse_singleton, List.singleton_append]
      by_cases hlast : n % 10 = 0
      · obtain ⟨m, hm, hquotient⟩ := ih (n / 10) (by omega) (by omega)
        rw [List.takeWhile_cons_of_pos (by simp [hlast]), List.length_cons, pow_succ]
        refine ⟨m, hm, ?_⟩
        rw [← mul_assoc, ← hquotient]
        omega
      · rw [List.takeWhile_cons_of_neg (by simp [hlast])]
        exact ⟨n, hlast, by simp⟩

/-- Without trailing zeros a decimal is the same number, and its last digit is further to the left.
-/
theorem stripZeros_spec {d : Decimal} (h : d.digits ≠ 0) :
    d.stripZeros.number = d.number ∧ d.stripZeros.digits % 10 ≠ 0 ∧
      d.exponent ≤ d.stripZeros.exponent := by
  obtain ⟨m, hm, hdigits⟩ := exists_eq_mul_ten_pow h
  unfold stripZeros
  extract_lets zeros
  rw [if_neg h]
  have hquotient : d.digits / Nat.pow 10 zeros.length = m := by
    nth_rewrite 1 [hdigits]
    exact Nat.mul_div_cancel m (Nat.pow_pos (by norm_num))
  refine ⟨?_, ?_, by show d.exponent ≤ d.exponent + zeros.length; omega⟩
  · have hnumber : (d.digits : ℚ) = m * 10 ^ zeros.length := by exact_mod_cast hdigits
    rw [hquotient, number, number, hnumber, zpow_add₀ (by norm_num), zpow_natCast]
    ring
  · rw [hquotient]
    exact hm

/-- No decimal of the same number has its last digit further to the left. -/
theorem le_exponent_stripZeros {d d' : Decimal} (h : d.number = d'.number) (h0 : d.digits ≠ 0) :
    d'.exponent ≤ d.stripZeros.exponent := by
  obtain ⟨hnumber, hlast, -⟩ := stripZeros_spec h0
  by_contra hlt
  obtain ⟨n, hn⟩ := exists_number_eq (d := d') (e := d.stripZeros.exponent + 1) (by omega)
  rw [← h, ← hnumber, number, zpow_add_one₀ (by norm_num), mul_comm _ (10 : ℚ), ← mul_assoc] at hn
  have hdigits := mul_right_cancel₀ (ten_zpow_pos _).ne' hn
  have : d.stripZeros.digits = n * 10 := by exact_mod_cast hdigits
  omega

end Decimal

namespace Magnitude

variable {bits : Nat} {exponent : Int} (tie : Tie)

/-! ## The power of ten above a double -/

/-- Powers of ten and of two may be compared after taking all exponents times a natural. -/
theorem ten_zpow_le_two_zpow_of_pow {k e : Int} {m n : Nat} (hn : n ≠ 0)
    (hbase : ((10 : ℚ) ^ n) ^ k ≤ (2 ^ m) ^ k) (h : m * k ≤ n * e) : (10 : ℚ) ^ k ≤ 2 ^ e := by
  refine le_of_pow_le_pow_left₀ hn (by positivity) ?_
  calc ((10 : ℚ) ^ k) ^ n = (10 ^ n) ^ k := by
        rw [← zpow_natCast, ← zpow_mul, mul_comm, zpow_mul, zpow_natCast]
    _ ≤ (2 ^ m) ^ k := hbase
    _ = 2 ^ (m * k) := by rw [zpow_mul, zpow_natCast]
    _ ≤ 2 ^ (n * e) := zpow_le_zpow_right₀ one_le_two h
    _ = (2 ^ e) ^ n := by rw [mul_comm, zpow_mul, zpow_natCast]

/-- A power of ten is below a power of two when it is for two fractions, one below and one above the
logarithm of two: `10 ^ 59` is less than `2 ^ 196`, and `2 ^ 93` is less than `10 ^ 28`. -/
theorem ten_zpow_le_two_zpow {k e : Int} (hbelow : 196 * k ≤ 59 * e) (habove : 93 * k ≤ 28 * e) :
    (10 : ℚ) ^ k ≤ 2 ^ e := by
  rcases le_total 0 k with hk | hk
  · refine ten_zpow_le_two_zpow_of_pow (by norm_num) ?_ hbelow
    exact zpow_le_zpow_left₀ hk (by norm_num) (by norm_num)
  · -- With a negative exponent the greater base has the smaller power.
    refine ten_zpow_le_two_zpow_of_pow (by norm_num) ?_ habove
    obtain ⟨n, rfl⟩ : ∃ n : Nat, k = -n := ⟨k.natAbs, by omega⟩
    rw [zpow_neg, zpow_neg, zpow_natCast, zpow_natCast]
    exact inv_anti₀ (by positivity) (pow_le_pow_left₀ (by norm_num) (by norm_num) n)

/-- A power of two is compared with a power of ten in integers, by two fractions that bound the
logarithm from both sides. One of them counts for positive exponents and the other for negative
ones. -/
theorem two_zpow_le_ten_zpow {k e : Int} (hbelow : 59 * e ≤ 196 * k) (habove : 28 * e ≤ 93 * k) :
    (2 : ℚ) ^ e ≤ 10 ^ k := by
  have h := ten_zpow_le_two_zpow (k := -k) (e := -e) (by omega) (by omega)
  rw [zpow_neg, zpow_neg] at h
  exact (inv_le_inv₀ (by positivity) (by positivity)).1 h

/-- The binary logarithm of a double. -/
theorem log2_spec (hpos : 0 < bits) :
    (2 : ℚ) ^ ((mantissaOf bits).log2 + exponentOf bits) ≤ value bits ∧
      value bits < 2 ^ ((mantissaOf bits).log2 + exponentOf bits + 1) := by
  have hstep : (0 : ℚ) < 2 ^ exponentOf bits := ulp_pos bits
  have hlow : (2 : ℚ) ^ (mantissaOf bits).log2 ≤ mantissaOf bits := by
    exact_mod_cast Nat.log2_self_le (mantissaOf_pos hpos).ne'
  have hhigh : (mantissaOf bits : ℚ) < 2 ^ ((mantissaOf bits).log2 + 1) := by
    exact_mod_cast Nat.lt_log2_self
  refine ⟨?_, ?_⟩
  · rw [zpow_add₀ two_ne_zero, zpow_natCast]
    exact mul_le_mul_of_nonneg_right hlow hstep.le
  · rw [add_right_comm, zpow_add₀ two_ne_zero]
    exact mul_lt_mul_of_pos_right (by exact_mod_cast hhigh) hstep

/-- The decimal scale of a double is exact. -/
theorem decimalScale_spec (hpos : 0 < bits) (hfinite : bits < infinityBits) :
    (10 : ℚ) ^ ((ofBits bits).decimalScale - 1) ≤ value bits ∧
      value bits < 10 ^ (ofBits bits).decimalScale := by
  obtain ⟨hlow, hhigh⟩ := log2_spec hpos
  have hshort := log2_le_of_short (isCanonical_fields bits).short
  have hleast := (isCanonical_fields bits).lower
  have hgreatest : exponentOf bits ≤ 971 := by
    unfold exponentOf
    unfold infinityBits at hfinite
    split <;> omega
  have hreached (k : Int) :
      (compareScaled 1 k (ofBits bits).mantissa (ofBits bits).exponent == .gt) = true ↔
        value bits < 10 ^ k := by
    have h := (compareScaled_spec 1 k (ofBits bits).mantissa (ofBits bits).exponent).2.2
    rw [Nat.cast_one, one_mul] at h
    rw [beq_iff_eq, h]
    rfl
  unfold decimalScale
  extract_lets start reached
  have hstart : start = ((mantissaOf bits).log2 + exponentOf bits) * 30103 / 100000 := rfl
  split
  · next h =>
    exact ⟨(ten_zpow_le_two_zpow (by omega) (by omega)).trans hlow, (hreached _).1 h⟩
  · next h =>
    rw [hreached, not_lt] at h
    split
    · next h' =>
      rw [add_sub_cancel_right]
      exact ⟨h, (hreached _).1 h'⟩
    · next h' =>
      rw [hreached, not_lt] at h'
      have hscale : start + 2 - 1 = start + 1 := by omega
      rw [hscale]
      exact ⟨h', hhigh.trans_le (two_zpow_le_ten_zpow (by omega) (by omega))⟩

/-! ## The grid around a double -/

/-- The grid point below a double is the integer part of its quotient by the step. -/
theorem floorAt_eq (bits : Nat) (exponent : Int) :
    (ofBits bits).floorAt exponent = ⌊value bits / 10 ^ exponent⌋₊ := by
  have hvalue : value bits / 10 ^ exponent =
      ((mantissaOf bits * 2 ^ (exponentOf bits).toNat * 10 ^ (-exponent).toNat : Nat) : ℚ) /
        (2 ^ (-exponentOf bits).toNat * 10 ^ exponent.toNat : Nat) := by
    rw [value, ulp, two_zpow_eq, zpow_eq_div (by norm_num : (10 : ℚ) ≠ 0)]
    push_cast
    field_simp
  rw [hvalue, Nat.floor_div_eq_div]
  rfl

/-- A number lies between two neighbors on the grid of a power of ten, and is the lower one or
beyond it. -/
theorem floorAt_spec (bits : Nat) (exponent : Int) :
    (ofBits bits).floorAt exponent * (10 : ℚ) ^ exponent ≤ value bits ∧
      value bits < ((ofBits bits).floorAt exponent + 1) * (10 : ℚ) ^ exponent := by
  have hstep := ten_zpow_pos exponent
  have hnonneg : 0 ≤ value bits / 10 ^ exponent := div_nonneg (value_nonneg bits) hstep.le
  rw [floorAt_eq]
  exact ⟨(le_div_iff₀ hstep).1 (Nat.floor_le hnonneg),
    (div_lt_iff₀ hstep).1 (Nat.lt_floor_add_one _)⟩

/-- What is chosen on a grid lies on it and reads back. -/
theorem isNearest_of_onGrid? {d : Decimal} (hpos : 0 < bits)
    (h : (ofBits bits).onGrid? tie exponent = some d) :
    d.exponent = exponent ∧ IsNearest d.number bits := by
  rw [← readsBack_iff hpos]
  unfold onGrid? at h
  extract_lets below above at h
  split at h
  · cases h
  · next hbelow _ =>
    obtain rfl := Option.some.inj h
    exact ⟨rfl, hbelow⟩
  · next _ habove =>
    obtain rfl := Option.some.inj h
    exact ⟨rfl, habove⟩
  · next hbelow habove =>
    have hchoice : d = below ∨ d = above := by
      split at h
      · exact .inl (Option.some.inj h).symm
      · exact .inr (Option.some.inj h).symm
      · split at h
        · exact .inl (Option.some.inj h).symm
        · exact .inr (Option.some.inj h).symm
    rcases hchoice with rfl | rfl
    · exact ⟨rfl, hbelow⟩
    · exact ⟨rfl, habove⟩

/-- If a point of a grid reads back, one of the two around the double does. -/
theorem exists_onGrid? {n : Nat} (hpos : 0 < bits)
    (h : IsNearest (n * 10 ^ exponent) bits) :
    ∃ d, (ofBits bits).onGrid? tie exponent = some d := by
  have hstep := ten_zpow_pos exponent
  obtain ⟨hlow, hhigh⟩ := floorAt_spec bits exponent
  have hreads : (ofBits bits).readsBack ⟨(ofBits bits).floorAt exponent, exponent⟩ ∨
      (ofBits bits).readsBack ⟨(ofBits bits).floorAt exponent + 1, exponent⟩ := by
    rw [readsBack_iff hpos, readsBack_iff hpos]
    rcases le_or_gt n ((ofBits bits).floorAt exponent) with hn | hn
    · refine .inl (h.between (isNearest_value bits) ?_ hlow)
      exact mul_le_mul_of_nonneg_right (by exact_mod_cast hn) hstep.le
    · refine .inr ((isNearest_value bits).between h ?_ ?_)
      · simp only [Decimal.number, Nat.cast_add, Nat.cast_one]
        exact hhigh.le
      · exact mul_le_mul_of_nonneg_right (by exact_mod_cast hn) hstep.le
  unfold onGrid?
  extract_lets below above
  split
  · next hbelow habove =>
    rcases hreads with h | h
    · exact absurd h (Bool.eq_false_iff.1 hbelow)
    · exact absurd h (Bool.eq_false_iff.1 habove)
  · exact ⟨_, rfl⟩
  · exact ⟨_, rfl⟩
  · split
    · exact ⟨_, rfl⟩
    · exact ⟨_, rfl⟩
    · split <;> exact ⟨_, rfl⟩

/-- The nearer of the two grid points around a double reads back when they have seventeen digits. -/
theorem exists_onGrid?_seventeen (hpos : 0 < bits) (hfinite : bits < infinityBits) :
    ∃ d, (ofBits bits).onGrid? tie ((ofBits bits).decimalScale - 17) = some d := by
  set e := (ofBits bits).decimalScale - 17 with he
  have hvalue : 0 < value bits := by
    rw [← value_zero]
    exact strictMono_value hpos
  have hscale : (ofBits bits).decimalScale - 1 = 16 + e := by omega
  have hstep : 10 ^ 16 * (10 : ℚ) ^ e ≤ value bits := by
    have h := (decimalScale_spec hpos hfinite).1
    rw [hscale, zpow_add₀ (by norm_num)] at h
    exact_mod_cast h
  obtain ⟨hlow, hhigh⟩ := floorAt_spec bits e
  set n := (ofBits bits).floorAt e
  rcases le_total (value bits - n * 10 ^ e) ((n + 1) * 10 ^ e - value bits) with hnearer | hnearer
  · refine exists_onGrid? tie hpos (n := n) (isNearest_of_abs_sub_lt ?_)
    rw [abs_sub_lt_iff]
    constructor <;> linarith
  · refine exists_onGrid? tie hpos (n := n + 1) (isNearest_of_abs_sub_lt ?_)
    push_cast
    rw [abs_sub_lt_iff]
    constructor <;> linarith

/-! ## What the search finds -/

/-- With every digit written out a decimal is exact. -/
theorem number_exactDecimal (bits : Nat) : (ofBits bits).exactDecimal.number = value bits := by
  rw [Decimal.number, value, ulp, two_zpow_eq]
  show ((mantissaOf bits * 2 ^ (exponentOf bits).toNat * 5 ^ (-exponentOf bits).toNat : Nat) : ℚ) *
    10 ^ min (exponentOf bits) 0 = _
  have hexponent : min (exponentOf bits) 0 = -((-exponentOf bits).toNat : Int) := by omega
  rw [hexponent, zpow_neg, zpow_natCast]
  have hten : (10 : ℚ) ^ (-exponentOf bits).toNat =
      2 ^ (-exponentOf bits).toNat * 5 ^ (-exponentOf bits).toNat := by
    rw [← mul_pow]
    norm_num
  rw [hten]
  push_cast
  field_simp

/-- The decimal that is found reads back. -/
theorem isNearest_shortest (hpos : 0 < bits) :
    IsNearest ((ofBits bits).shortest tie).number bits := by
  unfold shortest
  extract_lets scale onGridOf
  cases hfound : (List.range' 1 17).findSome? onGridOf with
  | none =>
    rw [Option.getD_none, number_exactDecimal]
    exact isNearest_value bits
  | some d =>
    obtain ⟨count, -, hcount⟩ := List.exists_of_findSome?_eq_some hfound
    exact (isNearest_of_onGrid? tie hpos hcount).2

/-- The fewest digits of a number other than zero are not zero: zero does not read back as it. -/
theorem digits_shortest_ne_zero (hpos : 0 < bits) : ((ofBits bits).shortest tie).digits ≠ 0 := by
  intro h
  have hnearest := isNearest_shortest tie hpos
  rw [Decimal.number, h, Nat.cast_zero, zero_mul, ← value_zero] at hnearest
  have := hnearest.unique (isNearest_value 0)
  omega

/-- The search stops on the first grid on which there is a decimal. -/
theorem le_exponent_of_onGrid? {count : Nat} {d : Decimal} (hpos : 0 < bits) (h1 : 1 ≤ count)
    (h17 : count ≤ 17)
    (h : (ofBits bits).onGrid? tie ((ofBits bits).decimalScale - count) = some d) :
    (ofBits bits).decimalScale - count ≤ ((ofBits bits).shortest tie).exponent := by
  unfold shortest
  extract_lets scale onGridOf
  have hmem : count ∈ List.range' 1 17 := List.mem_range'_1.2 (by omega)
  cases hfound : (List.range' 1 17).findSome? onGridOf with
  | none =>
    have hnone := List.findSome?_eq_none_iff.1 hfound count hmem
    exact absurd (hnone.symm.trans h) (by simp)
  | some d' =>
    obtain ⟨before, first, after, hsplit, hfirst, hbefore⟩ := List.findSome?_eq_some_iff.1 hfound
    have hle : first ≤ count := by
      rw [hsplit, List.mem_append, List.mem_cons] at hmem
      have hsorted : (List.range' 1 17).Pairwise (· < ·) := List.pairwise_lt_range'
      rw [hsplit, List.pairwise_append, List.pairwise_cons] at hsorted
      rcases hmem with hmem | rfl | hmem
      · exact absurd ((hbefore count hmem).symm.trans h) (by simp)
      · exact le_rfl
      · exact (hsorted.2.1.1 count hmem).le
    rw [Option.getD_some, (isNearest_of_onGrid? tie hpos hfirst).1]
    omega

/-- The search passes no grid below the power of ten above a double on which a decimal lies that
reads back. -/
theorem min_le_exponent_shortest {d : Decimal} (hpos : 0 < bits) (hfinite : bits < infinityBits)
    (h : IsNearest d.number bits) :
    min d.exponent ((ofBits bits).decimalScale - 1) ≤ ((ofBits bits).shortest tie).exponent := by
  set scale := (ofBits bits).decimalScale with hscale
  rcases lt_or_ge (min d.exponent (scale - 1)) (scale - 17) with hlow | hhigh
  · obtain ⟨d', hd'⟩ := exists_onGrid?_seventeen tie hpos hfinite
    have := le_exponent_of_onGrid? tie hpos (by norm_num : 1 ≤ 17) le_rfl hd'
    push_cast at this
    omega
  · obtain ⟨count, hcount⟩ : ∃ count : Nat, scale - count = min d.exponent (scale - 1) :=
      ⟨(scale - min d.exponent (scale - 1)).toNat, by omega⟩
    obtain ⟨n, hn⟩ := Decimal.exists_number_eq (d := d) (min_le_left d.exponent (scale - 1))
    rw [hn, ← hcount] at h
    obtain ⟨d', hd'⟩ := exists_onGrid? tie hpos h
    rw [← hcount]
    exact le_exponent_of_onGrid? tie hpos (by omega) (by omega) hd'

/-- On a grid that is not finer than doubles are, one decimal reads back at most. -/
theorem number_eq_of_isNearest {d d' : Decimal} {e : Int} (hbits : 2 ^ 52 ≤ bits)
    (hstep : value bits / 2 ^ 52 < 10 ^ e) (he : e ≤ d.exponent) (he' : e ≤ d'.exponent)
    (h : IsNearest d.number bits) (h' : IsNearest d'.number bits) : d.number = d'.number := by
  have hpos := ten_zpow_pos e
  obtain ⟨hlow, hhigh⟩ := abs_sub_le_iff.1 (h.abs_sub_le hbits)
  obtain ⟨hlow', hhigh'⟩ := abs_sub_le_iff.1 (h'.abs_sub_le hbits)
  obtain ⟨a, ha⟩ := Decimal.exists_number_eq he
  obtain ⟨b, hb⟩ := Decimal.exists_number_eq he'
  rw [ha] at hlow hhigh ⊢
  rw [hb] at hlow' hhigh' ⊢
  have hclose (m n : Nat) (hmn : (m : ℚ) * 10 ^ e - n * 10 ^ e < 10 ^ e) : m ≤ n := by
    have : (m : ℚ) < n + 1 := by
      refine lt_of_mul_lt_mul_right (a := 10 ^ e) ?_ hpos.le
      linarith
    have : m < n + 1 := by exact_mod_cast this
    omega
  have hle := hclose a b (by linarith)
  have hge := hclose b a (by linarith)
  rw [le_antisymm hle hge]

/-- Away from zero no decimal that reads back has its last digit further to the left than the
shortest one without its trailing zeros. -/
theorem le_exponent_shortest {d : Decimal} (hbits : 2 ^ 52 ≤ bits) (hfinite : bits < infinityBits)
    (h : IsNearest d.number bits) :
    d.exponent ≤ ((ofBits bits).shortest tie).stripZeros.exponent := by
  have hpos : 0 < bits := by omega
  have hfound := min_le_exponent_shortest tie hpos hfinite h
  have hnonzero := digits_shortest_ne_zero tie hpos
  rcases le_or_gt d.exponent ((ofBits bits).decimalScale - 1) with hle | hgt
  · rw [min_eq_left hle] at hfound
    exact hfound.trans (Decimal.stripZeros_spec hnonzero).2.2
  · -- Both decimals have one digit in front of the zeros, and there is only one such decimal.
    rw [min_eq_right hgt.le] at hfound
    have hstep : value bits / 2 ^ 52 < 10 ^ ((ofBits bits).decimalScale - 1) := by
      have hvalue := (decimalScale_spec hpos hfinite).2
      have hten := zpow_sub_one₀ (by norm_num : (10 : ℚ) ≠ 0) (ofBits bits).decimalScale
      have := value_nonneg bits
      linarith
    have hsame := number_eq_of_isNearest hbits hstep hfound hgt.le (isNearest_shortest tie hpos) h
    exact Decimal.le_exponent_stripZeros hsame hnonzero

end Magnitude

end Cartouche
