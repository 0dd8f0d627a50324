import Cartouche.Gml.Encoder
import Cartouche.Proofs.Markup.Reader

/-!
# Names

`Markup.isNCName` is the grammar of names without colon. Such names, names of attributes that become
elements, and either of them behind a namespace abbreviation are names for the reader
(`isName_qualified`).
-/

namespace Cartouche.Markup

open Text (inRanges)

/-- The character may begin a name without colon. -/
def isNCNameFirst (c : Char) : Bool :=
  inRanges [(0x41, 0x5A), (0x5F, 0x5F), (0x61, 0x7A), (0xC0, 0xD6), (0xD8, 0xF6), (0xF8, 0x2FF),
    (0x370, 0x37D), (0x37F, 0x1FFF), (0x200C, 0x200D), (0x2070, 0x218F), (0x2C00, 0x2FEF),
    (0x3001, 0xD7FF), (0xF900, 0xFDCF), (0xFDF0, 0xFFFD), (0x10000, 0xEFFFF)] c

/-- The character may stand in a name without colon. -/
def isNCNameChar (c : Char) : Bool :=
  isNCNameFirst c ||
    inRanges [(0x2D, 0x2E), (0x30, 0x39), (0xB7, 0xB7), (0x300, 0x36F), (0x203F, 0x2040)] c

/-- The characters are a name without colon. -/
def isNCName : List Char → Bool
  | [] => false
  | first :: rest => isNCNameFirst first && rest.all isNCNameChar

/-- The characters that cannot stand in a name, and those that cannot begin one. -/
def reservedChars : List Char :=
  [' ', '\t', '\n', '\r', '/', '>', '<', '=', '"', '\'', '!', '?']

/-- A character that is not reserved may begin a name. -/
theorem isNameFirst_of_not_mem {c : Char} (h : c ∉ reservedChars) : isNameFirst c := by
  simp only [reservedChars, List.mem_cons, List.not_mem_nil, or_false, not_or] at h
  simp [isNameFirst, isNameChar, isBlank, h]

/-- A test that no reserved character passes tells characters of names. -/
theorem isNameFirst_of_test {test : Char → Bool} (h : reservedChars.any test = false)
    {c : Char} (hc : test c) : isNameFirst c := by
  refine isNameFirst_of_not_mem fun hmem => ?_
  have hany : reservedChars.any test := List.any_eq_true.2 ⟨c, hmem, hc⟩
  rw [h] at hany
  cases hany

/-- Characters of names without colon are characters of names. -/
theorem isNameFirst_of_isNCNameChar {c : Char} (h : isNCNameChar c) : isNameFirst c :=
  isNameFirst_of_test (by decide) h

/-- So are the characters that the test of attribute names lets pass. -/
theorem isNameFirst_of_isNamePart {c : Char} (h : Gml.isNamePart c) : isNameFirst c :=
  isNameFirst_of_test (by decide +kernel) h

/-- A name without colon is a name. -/
theorem forall_isNameFirst_of_isNCName {name : List Char} (h : isNCName name) :
    name ≠ [] ∧ ∀ c ∈ name, isNameFirst c := by
  cases name with
  | nil => cases h
  | cons first rest =>
    simp only [isNCName, Bool.and_eq_true, List.all_eq_true] at h
    refine ⟨by simp, fun c hc => ?_⟩
    rcases List.mem_cons.1 hc with rfl | hc
    · exact isNameFirst_of_isNCNameChar (by simp [isNCNameChar, h.1])
    · exact isNameFirst_of_isNCNameChar (h.2 c hc)

/-- What may begin a name may go on with it. -/
theorem isNamePart_of_isNameStart {c : Char} (h : Gml.isNameStart c) : Gml.isNamePart c := by
  simp only [Gml.isNameStart, Bool.or_eq_true] at h
  rcases h with h | h
  · simp [Gml.isNamePart, Text.isLetterOrNumber, h]
  · simp [Gml.isNamePart, h]

/-- A name of an attribute that becomes an element is a name. -/
theorem forall_isNameFirst_of_isLocalName {name : String} (h : Gml.isLocalName name) :
    ∀ c ∈ name.toList, isNameFirst c := by
  unfold Gml.isLocalName at h
  cases hname : name.toList with
  | nil => simp
  | cons first rest =>
    simp only [hname, Bool.and_eq_true, List.all_eq_true] at h
    intro c hc
    rcases List.mem_cons.1 hc with rfl | hc
    · exact isNameFirst_of_isNamePart (isNamePart_of_isNameStart h.1)
    · exact isNameFirst_of_isNamePart (h.2 c hc)

/-- Characters that could begin a name are a name, if there are any. -/
theorem isName_of_forall {name : List Char} (hne : name ≠ []) (h : ∀ c ∈ name, isNameFirst c) :
    isName name := by
  cases name with
  | nil => exact absurd rfl hne
  | cons first rest =>
    simp only [isName, Bool.and_eq_true, List.all_eq_true]
    exact ⟨h first (by simp), fun c hc => isNameChar_of_isNameFirst (h c (by simp [hc]))⟩

/-- A name behind a namespace abbreviation is a name. -/
theorem isName_qualified {type : FeatureType} (habbreviation : isNCName type.abbreviation.toList)
    {name : String} (h : ∀ c ∈ name.toList, isNameFirst c) :
    isName (type.qualified name).toList := by
  obtain ⟨hne, hall⟩ := forall_isNameFirst_of_isNCName habbreviation
  have hchars : (type.qualified name).toList =
      type.abbreviation.toList ++ ':' :: name.toList := by
    simp [FeatureType.qualified]
  rw [hchars]
  refine isName_of_forall (by simp) fun c hc => ?_
  rcases List.mem_append.1 hc with hc | hc
  · exact hall c hc
  · rcases List.mem_cons.1 hc with rfl | hc
    · decide
    · exact h c hc

end Cartouche.Markup
