import Cartouche.Context
import Cartouche.Proofs.Number.Magnitude
import Cartouche.Proofs.Number.Shortest

/-!
# Digits around a point

A `Positional` is a number as it stands in a text: digits, and perhaps a point with more digits
behind it. Every decimal is written in this way (`Decimal.positional_eq`), the exponent being the
number of digits behind the point, and so is every finite double in plain style (`text_eq`), with
the decimal that `Magnitude.written` selects.
-/

namespace Cartouche

open Binary64

/-- A number without sign in positional notation. -/
structure Positional where
  whole : List Char
  fraction : List Char
  whole_ne_nil : whole ≠ []
  isDigit : ∀ c ∈ whole ++ fraction, c.isDigit

namespace Positional

variable (p : Positional)

/-- The characters. A point stands only in front of digits. -/
def chars (point : Char) : List Char :=
  if p.fraction = [] then p.whole else p.whole ++ point :: p.fraction

/-- The digits as one natural. -/
def digits : Nat := Numeral.digitsValue (p.whole ++ p.fraction)

/-- The number that is written. -/
def number : ℚ := p.digits * 10 ^ (-p.fraction.length : Int)

/-- The characters are digits and the point. -/
theorem isDigit_or_of_mem_chars {point c : Char} (h : c ∈ p.chars point) :
    c.isDigit ∨ c = point := by
  unfold chars at h
  split at h
  · exact .inl (p.isDigit c (List.mem_append_left _ h))
  · rcases List.mem_append.1 h with h | h
    · exact .inl (p.isDigit c (List.mem_append_left _ h))
    · rcases List.mem_cons.1 h with rfl | h
      · exact .inr rfl
      · exact .inl (p.isDigit c (List.mem_append_right _ h))

/-- With another point the digits are the same. -/
theorem map_chars {f : Char → Char} (hf : ∀ c : Char, c.isDigit → f c = c) (point : Char) :
    (p.chars point).map f = p.chars (f point) := by
  have hmap (l : List Char) (h : ∀ c ∈ l, c ∈ p.whole ++ p.fraction) : l.map f = l := by
    nth_rewrite 2 [← List.map_id l]
    exact List.map_congr_left fun c hc => hf c (p.isDigit c (h c hc))
  have hwhole := hmap p.whole fun c => List.mem_append_left _
  have hfraction := hmap p.fraction fun c => List.mem_append_right _
  unfold chars
  split
  · exact hwhole
  · rw [List.map_append, List.map_cons, hwhole, hfraction]

/-- Where the digits are not all zeros, one of them is another digit. -/
theorem exists_ne_zero (h : p.digits ≠ 0) : ∃ c ∈ p.whole ++ p.fraction, c ≠ '0' := by
  by_contra hzeros
  have hall : ∀ c ∈ p.whole ++ p.fraction, c = '0' := by
    intro c hc
    by_contra hne
    exact hzeros ⟨c, hc, hne⟩
  refine h ?_
  calc p.digits = Nat.ofDigitChars 10 (p.whole ++ p.fraction) 0 := rfl
    _ = 0 := by
      rw [List.eq_replicate_of_mem hall, Nat.ofDigitChars_replicate_zero, Nat.mul_zero]

end Positional

namespace Decimal

/-- The digits with the zeros that are needed for the point to stand among them or behind them. -/
def allDigits (d : Decimal) : List Char :=
  List.replicate ((-d.exponent).toNat + 1 - (digitChars d.digits).length) '0' ++
    digitChars d.digits ++ List.replicate d.exponent.toNat '0'

variable (d : Decimal)

/-- With the zeros in front there is at least one digit before the point. -/
theorem lt_length_allDigits : (-d.exponent).toNat < d.allDigits.length := by
  rw [allDigits, List.length_append, List.length_append, List.length_replicate]
  omega

/-- The zeros that are added are digits, too. -/
theorem isDigit_of_mem_allDigits {c : Char} (h : c ∈ d.allDigits) : c.isDigit := by
  have hzeros (n : Nat) (h : c ∈ List.replicate n '0') : c.isDigit := by
    rw [List.eq_of_mem_replicate h]
    rfl
  rw [allDigits, List.mem_append, List.mem_append] at h
  rcases h with (h | h) | h
  · exact hzeros _ h
  · exact Nat.isDigit_of_mem_toDigits (by norm_num) le_rfl h
  · exact hzeros _ h

/-- The place of the point among the digits. -/
def point : Nat := d.allDigits.length - (-d.exponent).toNat

/-- A decimal in positional notation. -/
def toPositional : Positional where
  whole := d.allDigits.take d.point
  fraction := d.allDigits.drop d.point
  whole_ne_nil := by
    have := d.lt_length_allDigits
    rw [ne_eq, List.take_eq_nil_iff, point]
    rintro (h | h)
    · omega
    · rw [h] at this
      simp at this
  isDigit c hc := by
    rw [List.take_append_drop] at hc
    exact d.isDigit_of_mem_allDigits hc

/-- A negative exponent is the number of digits behind the point. Without one there are none. -/
theorem length_fraction : d.toPositional.fraction.length = (-d.exponent).toNat := by
  have := d.lt_length_allDigits
  show (d.allDigits.drop d.point).length = _
  rw [List.length_drop, point]
  omega

/-- What is written for a decimal is its digits around a point. -/
theorem positional_eq : d.positional false = d.toPositional.chars '.' := by
  have hlength := d.length_fraction
  unfold positional Positional.chars
  extract_lets digits places padded
  split
  · next h =>
    have hplaces : (-d.exponent).toNat = 0 := by omega
    have hpad : 0 + 1 - (digitChars d.digits).length = 0 := by
      have : 0 < (digitChars d.digits).length := Nat.length_toDigits_pos
      omega
    have hall : d.allDigits = digits ++ List.replicate d.exponent.toNat '0' := by
      rw [allDigits, hplaces, hpad, List.replicate_zero, List.nil_append]
    rw [if_pos (List.eq_nil_of_length_eq_zero (hlength.trans hplaces))]
    show _ = d.allDigits.take d.point
    rw [point, hplaces, Nat.sub_zero, List.take_length, hall]
    simp
  · next h =>
    have hexponent : d.exponent.toNat = 0 := by omega
    have hall : d.allDigits = padded := by
      rw [allDigits, hexponent, List.replicate_zero, List.append_nil]
    rw [if_neg (List.ne_nil_of_length_pos (by omega))]
    show _ = d.allDigits.take d.point ++ '.' :: d.allDigits.drop d.point
    rw [point, hall]

/-- The digits are those of the decimal, with zeros up to the point. -/
theorem digits_toPositional : d.toPositional.digits = d.digits * 10 ^ d.exponent.toNat := by
  have hvalue (l : List Char) : Numeral.digitsValue l = Nat.ofDigitChars 10 l 0 := rfl
  show Numeral.digitsValue (d.allDigits.take d.point ++ d.allDigits.drop d.point) = _
  rw [List.take_append_drop, hvalue, allDigits, Nat.ofDigitChars_append, Nat.ofDigitChars_append,
    Nat.ofDigitChars_replicate_zero, Nat.ofDigitChars_replicate_zero, Nat.mul_zero, digitChars,
    Nat.ofDigitChars_ten_toDigits, Nat.mul_comm]

/-- The zeros that are added do not change the number. -/
theorem number_toPositional : d.toPositional.number = d.number := by
  rw [Positional.number, digits_toPositional, length_fraction, number]
  push_cast
  rw [mul_assoc, ← zpow_natCast, ← zpow_add₀ (by norm_num)]
  congr 2
  omega

/-- The last digit behind the point is the last one of the decimal. -/
theorem getLast?_fraction (h : d.exponent < 0) :
    d.toPositional.fraction.getLast? = some (d.digits % 10).digitChar := by
  have hexponent : d.exponent.toNat = 0 := by omega
  have hlt := d.lt_length_allDigits
  have hlast : (digitChars d.digits).getLast? = some (d.digits % 10).digitChar := by
    rw [digitChars, Nat.toDigits_eq_if (by norm_num)]
    split
    · next h => rw [List.getLast?_singleton, Nat.mod_eq_of_lt h]
    · rw [List.getLast?_concat]
  show (d.allDigits.drop d.point).getLast? = _
  rw [List.getLast?_drop, if_neg (by rw [point]; omega), allDigits, hexponent,
    List.replicate_zero, List.append_nil, List.getLast?_append, hlast, Option.some_or]

end Decimal

namespace Magnitude

variable {bits : Nat}

/-- The decimal that is written for a magnitude in plain style. -/
def written (m : Magnitude) : Decimal :=
  if m.mantissa = 0 then { digits := 0, exponent := 0 } else (m.shortest .up).stripZeros

/-- For every number but zero the fewest digits are written, without zeros at the end. -/
theorem written_of_pos (h : 0 < bits) :
    (ofBits bits).written = ((ofBits bits).shortest .up).stripZeros :=
  if_neg (mantissaOf_pos h).ne'

/-- What is written reads back. -/
theorem isNearest_written (bits : Nat) : IsNearest (ofBits bits).written.number bits := by
  rcases Nat.eq_zero_or_pos bits with rfl | hpos
  · have hzero : (ofBits 0).written.number = value 0 := by
      rw [value_zero]
      exact zero_mul _
    rw [hzero]
    exact isNearest_value 0
  · rw [written_of_pos hpos, (Decimal.stripZeros_spec (digits_shortest_ne_zero .up hpos)).1]
    exact isNearest_shortest .up hpos

/-- Digits other than zero are written for a number other than zero. -/
theorem digits_written_ne_zero (h : 0 < bits) : (ofBits bits).written.digits ≠ 0 := by
  rw [written_of_pos h]
  intro hzero
  have := (Decimal.stripZeros_spec (digits_shortest_ne_zero .up h)).2.1
  omega

/-- No zero is written at the end behind the point. -/
theorem last_digit_written (h : (ofBits bits).written.exponent < 0) :
    (ofBits bits).written.digits % 10 ≠ 0 := by
  rcases Nat.eq_zero_or_pos bits with rfl | hpos
  · exact absurd h (lt_irrefl 0)
  · rw [written_of_pos hpos]
    exact (Decimal.stripZeros_spec (digits_shortest_ne_zero .up hpos)).2.1

end Magnitude

/-! ## Texts -/

namespace Binary64

/-- The digits of a double in plain style. -/
def positional (x : Float) : Positional := (Magnitude.ofBits (sizeBits x)).written.toPositional

/-- The sign of a double in front of its digits. -/
def signChars (x : Float) : List Char := if isNegative x then ['-'] else []

/-- What is finite is no infinity, so its text is not a name. -/
theorem isInf_of_isFinite {x : Float} (h : x.isFinite) : x.isInf = false := by
  have hmodel : x.isInf = x.toModel.unpack.isInf := rfl
  rw [hmodel, unpack_of_isFinite h]
  rcases unbounded_cases (signOf (isNegative x)) (sizeBits x) with h | ⟨m, e, hm, h⟩ <;>
    rw [h] <;> rfl

end Binary64

/-- The text of a finite double in plain style. -/
theorem NumberStyle.toList_text {x : Float} (h : x.isFinite) :
    (plain.text x).toList = signChars x ++ (Binary64.positional x).chars '.' := by
  have hchars : plain.magnitudeChars (Magnitude.ofFloat x) =
      (Binary64.positional x).chars '.' := by
    rw [Magnitude.ofFloat_eq, Binary64.positional, ← Decimal.positional_eq]
    rfl
  rw [text, isNaN_of_isFinite h, isInf_of_isFinite h, if_neg Bool.false_ne_true]
  simp only [if_neg Bool.false_ne_true, String.toList_ofList, hchars]
  unfold signChars
  cases isNegative x <;> rfl

/-- The text of a finite number in a document. -/
theorem RenderContext.toList_formatNumber (context : RenderContext) {x : Float}
    (h : (context.roundNumber x).isFinite) :
    (context.formatNumber x).toList = signChars (context.roundNumber x) ++
      (Binary64.positional (context.roundNumber x)).chars context.decimal := by
  have hdigit (c : Char) (hc : c.isDigit) : (if c = '.' then context.decimal else c) = c := by
    refine if_neg ?_
    rintro rfl
    exact absurd hc (by decide)
  have hsign : (signChars (context.roundNumber x)).map (fun c =>
      if c = '.' then context.decimal else c) = signChars (context.roundNumber x) := by
    unfold signChars
    split <;> rfl
  rw [formatNumber, String.toList_ofList, NumberStyle.toList_text h, List.map_append, hsign,
    Positional.map_chars _ hdigit, if_pos rfl]

end Cartouche
