import Cartouche.Markup.Geometry
import Cartouche.Proofs.Number.Order

/-!
# Numbers in documents

What every number in a document has in common. Its text is not empty (`formatNumber_ne_empty`), and
doubles that compare equal have the same text (`formatNumber_congr`): the two zeros are the only
ones that differ, and the sign of a zero is dropped before it is written. In a coordinate list stand
the characters of numbers, the decimal point and the separators, and no others
(`isNumberChar_or_of_mem_formatCoordinates`).
-/

namespace Cartouche

/-! ## Characters -/

/-- There is a digit in positional notation at least. -/
theorem Decimal.positional_ne_nil (pointZero : Bool) (d : Decimal) :
    d.positional pointZero ≠ [] := by
  have hdigits : digitChars d.digits ≠ [] := Nat.toDigits_ne_nil
  unfold positional
  split
  · simp [hdigits]
  · simp

/-- There is a digit in scientific notation at least. -/
theorem Decimal.scientific_ne_nil (d : Decimal) : d.scientific ≠ [] := by
  unfold scientific
  extract_lets exponent
  split
  · simp
  · simp

/-- The text of a double has a character. -/
theorem NumberStyle.text_ne_empty (style : NumberStyle) (x : Float) : style.text x ≠ "" := by
  have hbody : ∀ m, style.magnitudeChars m ≠ [] := by
    intro m
    unfold magnitudeChars
    extract_lets decimal
    split
    · exact Decimal.positional_ne_nil _ _
    · split
      · exact Decimal.positional_ne_nil _ _
      · exact Decimal.scientific_ne_nil _
  unfold text
  split
  · decide
  · rw [ne_eq, String.ofList_eq_empty_iff]
    split
    · simp
    · split
      · decide
      · exact hbody _

/-- The character stands in texts of numbers, as a digit or otherwise; the decimal point is none of
them. -/
def isNumberChar (c : Char) : Bool := c.isDigit || "-NaNinf".toList.contains c

/-- Positional digits are digits and a decimal point. -/
theorem Decimal.isDigit_or_of_mem_positional {pointZero : Bool} {d : Decimal} {c : Char}
    (h : c ∈ d.positional pointZero) : c.isDigit ∨ c = '.' := by
  have hdigits : ∀ n, ∀ c ∈ digitChars n, c.isDigit :=
    fun n c hc => Nat.isDigit_of_mem_toDigits (by decide) (by decide) hc
  have hzeros : ∀ n, ∀ c ∈ List.replicate n '0', c.isDigit := by
    intro n c hc
    rw [List.eq_of_mem_replicate hc]
    rfl
  unfold positional at h
  extract_lets digits places padded at h
  split at h
  · rcases List.mem_append.1 h with h | h
    · rcases List.mem_append.1 h with h | h
      · exact .inl (hdigits _ c h)
      · exact .inl (hzeros _ c h)
    · cases pointZero with
      | false => cases h
      | true =>
        rcases List.mem_cons.1 h with rfl | h
        · exact .inr rfl
        · exact .inl (by simp_all)
  · have hpadded : ∀ c ∈ padded, c.isDigit := by
      intro c hc
      rcases List.mem_append.1 hc with hc | hc
      · exact hzeros _ c hc
      · exact hdigits _ c hc
    rcases List.mem_append.1 h with h | h
    · exact .inl (hpadded c (List.mem_of_mem_take h))
    · rcases List.mem_cons.1 h with rfl | h
      · exact .inr rfl
      · exact .inl (hpadded c (List.mem_of_mem_drop h))

/-- The characters of a double in plain style. -/
theorem NumberStyle.isNumberChar_or_of_mem_text {x : Float} {c : Char}
    (h : c ∈ (plain.text x).toList) : isNumberChar c ∨ c = '.' := by
  have hfixed : ∀ c ∈ '-' :: "NaN".toList ++ "inf".toList, isNumberChar c := by
    simp [isNumberChar]
  have hchars : ∀ m, ∀ c ∈ plain.magnitudeChars m, isNumberChar c ∨ c = '.' := by
    intro m c hc
    rcases Decimal.isDigit_or_of_mem_positional hc with hc | hc
    · exact .inl (by simp [isNumberChar, hc])
    · exact .inr hc
  have hbody : ∀ c ∈ if x.isInf then "inf".toList else plain.magnitudeChars (Magnitude.ofFloat x),
      isNumberChar c ∨ c = '.' := by
    intro c hc
    split at hc
    · exact .inl (hfixed c (List.mem_append_right _ hc))
    · exact hchars _ c hc
  unfold text at h
  split at h
  · exact .inl (hfixed c (List.mem_append_left _ (List.mem_cons_of_mem _ h)))
  · rw [String.toList_ofList] at h
    split at h
    · rcases List.mem_cons.1 h with rfl | h
      · exact .inl (by decide)
      · exact hbody c h
    · exact hbody c h

namespace RenderContext

variable (context : RenderContext)

/-- The text of a number is not empty, whatever the number and the rendering options are. -/
theorem formatNumber_ne_empty (value : Float) : context.formatNumber value ≠ "" := by
  have h := NumberStyle.plain.text_ne_empty (context.roundNumber value)
  rw [formatNumber, ne_eq, String.ofList_eq_empty_iff, List.map_eq_nil_iff,
    String.toList_eq_nil_iff]
  exact h

/-- At every number of places, rounding a zero gives the same zero. -/
theorem roundHalfAway_zero : ∀ places < 16,
    Binary64.roundHalfAway (0.0 * Float.ofNat (Nat.pow 10 places)) /
        Float.ofNat (Nat.pow 10 places) = 0.0 ∧
      Binary64.roundHalfAway (-0.0 * Float.ofNat (Nat.pow 10 places)) /
        Float.ofNat (Nat.pow 10 places) = -0.0 := by
  decide +kernel

/-- A zero is written without its sign. -/
theorem roundNumber_of_sizeBits_eq_zero {value : Float} (h : Binary64.sizeBits value = 0) :
    context.roundNumber value = 0.0 := by
  obtain ⟨hpos, hneg⟩ :=
    roundHalfAway_zero (min context.numDecimals.toNat 15) (by omega)
  rcases (Binary64.sizeBits_eq_zero_iff value).1 h with rfl | rfl
  · simp only [roundNumber, factor, hpos]
    rfl
  · simp only [roundNumber, factor, hneg]
    rfl

/-- Doubles that compare equal are written in the same way. -/
theorem formatNumber_congr {a b : Float} (h : Binary64.rank a = Binary64.rank b) :
    context.formatNumber a = context.formatNumber b := by
  rcases Binary64.eq_or_sizeBits_eq_zero h with rfl | ⟨ha, hb⟩
  · rfl
  · rw [formatNumber, formatNumber, roundNumber_of_sizeBits_eq_zero context ha,
      roundNumber_of_sizeBits_eq_zero context hb]

/-- The text of a point is not empty, since its first coordinate is not. -/
theorem formatPoint_ne_empty (p : Point Float) : context.formatPoint p ≠ "" := by
  have h := context.formatNumber_ne_empty p.x
  unfold formatPoint
  extract_lets xy
  have hxy : xy ≠ "" := by
    simp [xy, h]
  split
  · simp [hxy]
  · exact hxy

/-- The text of a coordinate list with points has a character. -/
theorem formatCoordinates_ne_empty {points : List (Point Float)} (h : points ≠ []) :
    context.formatCoordinates points ≠ "" := by
  cases points with
  | nil => exact absurd rfl h
  | cons p rest =>
    have hp := context.formatPoint_ne_empty p
    unfold formatCoordinates
    cases rest with
    | nil => simpa using hp
    | cons q rest =>
      rw [List.map_cons, List.map_cons, String.intercalate_cons_cons]
      simp [hp]

section

variable {context} {c : Char}

/-- The characters of a number. -/
theorem isNumberChar_or_of_mem_formatNumber {value : Float}
    (h : c ∈ (context.formatNumber value).toList) : isNumberChar c ∨ c = context.decimal := by
  rw [formatNumber, String.toList_ofList] at h
  obtain ⟨d, hd, rfl⟩ := List.mem_map.1 h
  rcases NumberStyle.isNumberChar_or_of_mem_text hd with hnumber | rfl
  · by_cases hpoint : d = '.'
    · exact .inr (if_pos hpoint)
    · rw [if_neg hpoint]
      exact .inl hnumber
  · exact .inr rfl

/-- The characters of a point. -/
theorem isNumberChar_or_of_mem_formatPoint {p : Point Float}
    (h : c ∈ (context.formatPoint p).toList) :
    isNumberChar c ∨ c = context.decimal ∨ c ∈ context.coordinateSeparator.toList := by
  have hnumber : ∀ value, c ∈ (context.formatNumber value).toList →
      isNumberChar c ∨ c = context.decimal ∨ c ∈ context.coordinateSeparator.toList :=
    fun _ h => (isNumberChar_or_of_mem_formatNumber h).imp_right .inl
  have hxy : c ∈ (context.formatNumber p.x ++ context.coordinateSeparator ++
      context.formatNumber p.y).toList →
        isNumberChar c ∨ c = context.decimal ∨ c ∈ context.coordinateSeparator.toList := by
    intro h
    simp only [String.toList_append, List.mem_append] at h
    rcases h with (h | h) | h
    · exact hnumber _ h
    · exact .inr (.inr h)
    · exact hnumber _ h
  unfold formatPoint at h
  extract_lets xy at h
  split at h
  · rw [String.toList_append, String.toList_append, List.mem_append, List.mem_append] at h
    rcases h with (h | h) | h
    · exact hxy h
    · exact .inr (.inr h)
    · exact hnumber _ h
  · exact hxy h

/-- A coordinate list has no characters but those of numbers, the decimal point and those of the
separators. -/
theorem isNumberChar_or_of_mem_formatCoordinates {points : List (Point Float)}
    (h : c ∈ (context.formatCoordinates points).toList) :
    isNumberChar c ∨ c = context.decimal ∨ c ∈ context.coordinateSeparator.toList ∨
      c ∈ context.tupleSeparator.toList := by
  have hpoint : ∀ p, c ∈ (context.formatPoint p).toList →
      isNumberChar c ∨ c = context.decimal ∨ c ∈ context.coordinateSeparator.toList ∨
        c ∈ context.tupleSeparator.toList :=
    fun _ h => (isNumberChar_or_of_mem_formatPoint h).imp_right (Or.imp_right .inl)
  unfold formatCoordinates at h
  induction points with
  | nil => simp at h
  | cons p rest ih =>
    cases rest with
    | nil => exact hpoint p (by simpa using h)
    | cons q rest =>
      rw [List.map_cons, List.map_cons, String.intercalate_cons_cons, String.toList_append,
        String.toList_append, List.mem_append, List.mem_append] at h
      rcases h with (h | h) | h
      · exact hpoint p h
      · exact .inr (.inr (.inr h))
      · exact ih h

end

end RenderContext

end Cartouche
