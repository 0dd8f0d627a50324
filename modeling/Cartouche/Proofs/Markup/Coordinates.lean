import Cartouche.Proofs.Markup.Atomic
import Cartouche.Proofs.Number.Numeral
import Cartouche.Proofs.Number.Places
import Cartouche.Proofs.Text.Split

/-!
# Coordinate lists are read back

A coordinate list is read by cutting it into tuples, the tuples into numbers, and reading each
number with a point for the decimal character. With separators that cannot be mistaken
(`RenderContext.IsSeparating`) this gives back the points, in order and each with as many numbers as
it has coordinates (`map_readNumber_formatPoint`), and every number is the one that was rounded and
written (`readNumber_formatNumber`).
-/

namespace Cartouche.RenderContext

variable (context : RenderContext)

/-- The separators can be told from each other and from numbers, and the decimal character from the
other characters of numbers. -/
structure IsSeparating : Prop where
  coordinate_ne_empty : context.coordinateSeparator ≠ ""
  tuple_ne_empty : context.tupleSeparator ≠ ""
  disjoint : ∀ c ∈ context.coordinateSeparator.toList, c ∉ context.tupleSeparator.toList
  coordinate : ∀ c ∈ context.coordinateSeparator.toList,
    ¬ c.isDigit ∧ c ≠ '-' ∧ c ≠ context.decimal
  tuple : ∀ c ∈ context.tupleSeparator.toList, ¬ c.isDigit ∧ c ≠ '-' ∧ c ≠ context.decimal
  decimal : ¬ context.decimal.isDigit ∧ context.decimal ≠ '-'

/-- Reads a number with the decimal character of the context. -/
def readNumber (text : String) : Option Float :=
  parseFloat? (String.ofList (text.toList.map fun c => if c = context.decimal then '.' else c))

/-- Reads a coordinate list: the numbers of its tuples. -/
def readCoordinates (text : String) : List (List (Option Float)) :=
  (pieces text context.tupleSeparator).map fun tuple =>
    (pieces tuple context.coordinateSeparator).map context.readNumber

variable {context} {x : Float} {p : Point Float} {c : Char}

/-- The characters of a finite number are digits, the minus sign and the decimal character. -/
theorem notMem_formatNumber (hx : x.isFinite)
    (h : ¬ c.isDigit ∧ c ≠ '-' ∧ c ≠ context.decimal) : c ∉ (context.formatNumber x).toList := by
  obtain ⟨hdigit, hminus, hdecimal⟩ := h
  rw [context.toList_formatNumber (context.isFinite_roundNumber hx), List.mem_append]
  rintro (h | h)
  · unfold Binary64.signChars at h
    split at h
    · exact hminus (List.mem_singleton.1 h)
    · cases h
  · rcases Positional.isDigit_or_of_mem_chars _ h with h | h
    · exact hdigit h
    · exact hdecimal h

/-- A number is read as it was rounded. -/
theorem readNumber_formatNumber (hdecimal : ¬ context.decimal.isDigit ∧ context.decimal ≠ '-')
    (hx : x.isFinite) :
    context.readNumber (context.formatNumber x) = some (context.roundNumber x) := by
  have hfinite := context.isFinite_roundNumber hx
  have hdigit (c : Char) (hc : c.isDigit) : (if c = context.decimal then '.' else c) = c := by
    refine if_neg ?_
    rintro rfl
    exact hdecimal.1 hc
  have hsign : (Binary64.signChars (context.roundNumber x)).map
      (fun c => if c = context.decimal then '.' else c) =
        Binary64.signChars (context.roundNumber x) := by
    unfold Binary64.signChars
    split
    · rw [List.map_singleton, if_neg hdecimal.2.symm]
    · rfl
  rw [readNumber, context.toList_formatNumber hfinite, List.map_append, hsign,
    Positional.map_chars _ hdigit, if_pos rfl, Binary64.signChars, Numeral.parseFloat?_chars,
    Numeral.toFloat_ofPositional hfinite]

/-- The numbers of a point are joined with the coordinate separator. -/
theorem formatPoint_eq_intercalate (p : Point Float) :
    context.formatPoint p =
      context.coordinateSeparator.intercalate (p.coordinates.map context.formatNumber) := by
  obtain ⟨x, y, z⟩ := p
  cases z <;> simp [formatPoint, Point.coordinates, String.append_assoc]

/-- The coordinates of a point are read back. -/
theorem map_readNumber_formatPoint (h : context.IsSeparating) (hp : p.isFinite) :
    (pieces (context.formatPoint p) context.coordinateSeparator).map context.readNumber =
      p.coordinates.map fun v => some (context.roundNumber v) := by
  have hfinite : ∀ v ∈ p.coordinates, v.isFinite := Point.isFinite_iff_coordinates.1 hp
  have hpieces : pieces (context.formatPoint p) context.coordinateSeparator =
      p.coordinates.map context.formatNumber := by
    rw [formatPoint_eq_intercalate]
    refine pieces_intercalate h.coordinate_ne_empty (by simp [Point.coordinates]) ?_
    intro part hpart c hc hseparator
    obtain ⟨v, hv, rfl⟩ := List.mem_map.1 hpart
    exact notMem_formatNumber (hfinite v hv) (h.coordinate c hseparator) hc
  rw [hpieces, List.map_map]
  refine List.map_congr_left fun v hv => ?_
  rw [Function.comp_apply]
  exact readNumber_formatNumber h.decimal (hfinite v hv)

/-- The characters of a point are those of its numbers and of the coordinate separator. -/
theorem mem_formatPoint (h : c ∈ (context.formatPoint p).toList) :
    (∃ v ∈ p.coordinates, c ∈ (context.formatNumber v).toList) ∨
      c ∈ context.coordinateSeparator.toList := by
  obtain ⟨x, y, z⟩ := p
  cases z with
  | none =>
    simp only [formatPoint, String.toList_append, List.mem_append] at h
    rcases h with (h | h) | h
    · exact .inl ⟨x, by simp [Point.coordinates], h⟩
    · exact .inr h
    · exact .inl ⟨y, by simp [Point.coordinates], h⟩
  | some z =>
    simp only [formatPoint, String.toList_append, List.mem_append] at h
    rcases h with (((h | h) | h) | h) | h
    · exact .inl ⟨x, by simp [Point.coordinates], h⟩
    · exact .inr h
    · exact .inl ⟨y, by simp [Point.coordinates], h⟩
    · exact .inr h
    · exact .inl ⟨z, by simp [Point.coordinates], h⟩

/-- The text of a point has no character of the tuple separator. -/
theorem notMem_tupleSeparator (h : context.IsSeparating) (hp : p.isFinite)
    (hc : c ∈ (context.formatPoint p).toList) : c ∉ context.tupleSeparator.toList := by
  have hfinite : ∀ v ∈ p.coordinates, v.isFinite := Point.isFinite_iff_coordinates.1 hp
  intro htuple
  rcases mem_formatPoint hc with ⟨v, hv, hnumber⟩ | hseparator
  · exact notMem_formatNumber (hfinite v hv) (h.tuple c htuple) hnumber
  · exact h.disjoint c hseparator htuple

/-- A coordinate list is read as its points: one tuple for each, in order, with two numbers or,
where the point has an elevation, with three, and each number as it was rounded. -/
theorem readCoordinates_formatCoordinates (h : context.IsSeparating) {points : List (Point Float)}
    (hne : points ≠ []) (hfinite : ∀ p ∈ points, p.isFinite) :
    context.readCoordinates (context.formatCoordinates points) =
      points.map fun p => p.coordinates.map fun v => some (context.roundNumber v) := by
  have hpieces : pieces (context.formatCoordinates points) context.tupleSeparator =
      points.map context.formatPoint := by
    refine pieces_intercalate h.tuple_ne_empty (by simpa using hne) ?_
    intro part hpart c hc
    obtain ⟨p, hp, rfl⟩ := List.mem_map.1 hpart
    exact notMem_tupleSeparator h (hfinite p hp) hc
  rw [readCoordinates, hpieces, List.map_map]
  refine List.map_congr_left fun p hp => ?_
  rw [Function.comp_apply]
  exact map_readNumber_formatPoint h (hfinite p hp)

/-- A point in space and one in the plane, with separators of two characters. -/
theorem readCoordinates_formatCoordinates_mixed :
    let context : RenderContext :=
      { decimal := ',', coordinateSeparator := "; ", tupleSeparator := "||", numDecimals := 1 }
    context.IsSeparating ∧ (∀ p ∈ [⟨1.26, -2.0, some 3.0⟩, ⟨4.0, 5.0, none⟩], Point.isFinite p) ∧
      context.readCoordinates
          (context.formatCoordinates [⟨1.26, -2.0, some 3.0⟩, ⟨4.0, 5.0, none⟩]) =
        [[some 1.3, some (-2.0), some 3.0], [some 4.0, some 5.0]] := by
  intro context
  have hseparating : context.IsSeparating := by
    refine ⟨by decide, by decide, ?_, ?_, ?_, by decide⟩ <;> simp [context]
  have hfinite : ∀ p ∈ [⟨1.26, -2.0, some 3.0⟩, ⟨4.0, 5.0, none⟩],
      Point.isFinite (p : Point Float) := by
    decide +kernel
  refine ⟨hseparating, hfinite, ?_⟩
  rw [readCoordinates_formatCoordinates hseparating (by simp) hfinite]
  decide +kernel

end Cartouche.RenderContext
