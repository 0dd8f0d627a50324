import Cartouche.Proofs.Markup.Name

/-!
# Names of attributes as names of elements

An attribute becomes an element when its name has letters of any script in front and letters and
numbers of any script behind. Not all of these may stand in a name: `isStrayFirst` and
`isStrayChar` are exactly those that may not (`isNCNameFirst_iff`, `isNCNameChar_iff`), found by
comparing the ranges of code points on both sides. So the name of an element that is written for an
attribute is legal exactly when none of them stands in it (`isNCName_iff_not_hasStray`).
-/

namespace Cartouche

namespace Text

/-- All numbers from `first` to `last` lie in the ranges, gone through in order: each range that is
used takes up where one in front of it ends. -/
def covers : List (Nat × Nat) → Nat → Nat → Bool
  | [], _, _ => false
  | (low, high) :: rest, first, last =>
    if low ≤ first ∧ first ≤ high then decide (last ≤ high) || covers rest (high + 1) last
    else covers rest first last

/-- A character is in ranges when its number lies in one of them. -/
theorem inRanges_iff {ranges : List (Nat × Nat)} {c : Char} :
    inRanges ranges c ↔ ∃ r ∈ ranges, r.1 ≤ c.toNat ∧ c.toNat ≤ r.2 := by
  simp [inRanges]

/-- Ranges can be searched in two runs. -/
theorem inRanges_append (xs ys : List (Nat × Nat)) (c : Char) :
    inRanges (xs ++ ys) c = (inRanges xs c || inRanges ys c) :=
  List.any_append

/-- A number in a range that is covered lies in one of the ranges. -/
theorem exists_of_covers {ranges : List (Nat × Nat)} {first last n : Nat}
    (h : covers ranges first last) (hfirst : first ≤ n) (hlast : n ≤ last) :
    ∃ r ∈ ranges, r.1 ≤ n ∧ n ≤ r.2 := by
  induction ranges generalizing first with
  | nil => cases h
  | cons r rest ih =>
    obtain ⟨low, high⟩ := r
    have hrest : ∀ first, covers rest first last → first ≤ n →
        ∃ r ∈ (low, high) :: rest, r.1 ≤ n ∧ n ≤ r.2 := by
      intro first hcovers hle
      obtain ⟨r, hr, hn⟩ := ih hcovers hle
      exact ⟨r, List.mem_cons_of_mem _ hr, hn⟩
    unfold covers at h
    split at h
    · next hin =>
      by_cases hn : n ≤ high
      · exact ⟨(low, high), List.mem_cons_self, by omega, hn⟩
      · rw [Bool.or_eq_true, decide_eq_true_eq] at h
        rcases h with h | h
        · exact absurd (Nat.le_trans hlast h) hn
        · exact hrest _ h (by omega)
    · exact hrest _ h hfirst

/-- A character of ranges that are covered by others lies in these. -/
theorem inRanges_of_covers {inner outer : List (Nat × Nat)}
    (h : inner.all fun r => covers outer r.1 r.2) {c : Char} (hc : inRanges inner c) :
    inRanges outer c := by
  obtain ⟨r, hr, hlow, hhigh⟩ := inRanges_iff.1 hc
  exact inRanges_iff.2 (exists_of_covers (List.all_eq_true.1 h r hr) hlow hhigh)

/-- No character lies in two lists of ranges of which no two overlap. -/
theorem not_inRanges_of_apart {xs ys : List (Nat × Nat)}
    (h : xs.all fun r => ys.all fun s => r.2 < s.1 || s.2 < r.1) {c : Char}
    (hc : inRanges xs c) : ¬ inRanges ys c := by
  rintro hys
  obtain ⟨r, hr, hrlow, hrhigh⟩ := inRanges_iff.1 hc
  obtain ⟨s, hs, hslow, hshigh⟩ := inRanges_iff.1 hys
  have hapart := List.all_eq_true.1 (List.all_eq_true.1 h r hr) s hs
  rw [Bool.or_eq_true, decide_eq_true_eq, decide_eq_true_eq] at hapart
  omega

end Text

namespace Markup

open Text (inRanges)

/-! ## Characters -/

/-- The letters that may not begin a name: the superscripts `ª` and `º`, the micro sign, combining
letters and letters in circles. -/
def isStrayFirst (c : Char) : Bool :=
  inRanges [(0xAA, 0xAA), (0xB5, 0xB5), (0xBA, 0xBA), (0x345, 0x345), (0x363, 0x36F),
    (0x24B6, 0x24E9)] c

/-- The letters and numbers that may not stand in a name: superscripts, the micro sign, fractions,
and letters and numbers in circles and other dress. -/
def isStrayChar (c : Char) : Bool :=
  inRanges [(0xAA, 0xAA), (0xB2, 0xB3), (0xB5, 0xB5), (0xB9, 0xBA), (0xBC, 0xBE),
    (0x2460, 0x249B), (0x24B6, 0x24FF), (0x2776, 0x2793)] c

/-- A letter is stray or may begin a name. -/
theorem isNCNameFirst_of_isLetter {c : Char} (h : Text.isLetter c) :
    isStrayFirst c || isNCNameFirst c := by
  rw [isStrayFirst, isNCNameFirst, ← Text.inRanges_append]
  exact Text.inRanges_of_covers (by decide +kernel) h

/-- A letter or a number is stray or may stand in a name. -/
theorem isNCNameChar_of_isLetterOrNumber {c : Char} (h : Text.isLetterOrNumber c) :
    isStrayChar c || isNCNameChar c := by
  rw [isStrayChar, isNCNameChar, Bool.or_comm (isNCNameFirst c), isNCNameFirst,
    ← Text.inRanges_append, ← Text.inRanges_append]
  rw [Text.isLetterOrNumber, Bool.or_eq_true] at h
  rcases h with h | h
  · exact Text.inRanges_of_covers (by decide +kernel) h
  · exact Text.inRanges_of_covers (by decide +kernel) h

/-- What may begin the name of an attribute that becomes an element may begin a name, unless it is
stray. -/
theorem isNCNameFirst_iff {c : Char} (h : Gml.isNameStart c) :
    isNCNameFirst c ↔ ¬ isStrayFirst c := by
  constructor
  · intro hfirst hstray
    exact Text.not_inRanges_of_apart (by decide +kernel) hstray hfirst
  · intro hstray
    rw [Gml.isNameStart, Bool.or_eq_true, beq_iff_eq] at h
    rcases h with h | rfl
    · have := isNCNameFirst_of_isLetter h
      simpa [hstray] using this
    · decide

/-- What may stand in the name of an attribute that becomes an element may stand in a name, unless
it is stray. -/
theorem isNCNameChar_iff {c : Char} (h : Gml.isNamePart c) :
    isNCNameChar c ↔ ¬ isStrayChar c := by
  constructor
  · intro hchar hstray
    rw [isNCNameChar, isNCNameFirst, ← Text.inRanges_append] at hchar
    exact Text.not_inRanges_of_apart (by decide +kernel) hstray hchar
  · intro hstray
    simp only [Gml.isNamePart, Bool.or_eq_true, beq_iff_eq] at h
    rcases h with (((h | rfl) | rfl) | rfl) | rfl
    · have := isNCNameChar_of_isLetterOrNumber h
      simpa [hstray] using this
    · decide
    · decide
    · decide
    · decide

/-! ## Names -/

/-- A character stands in the name that may not stand there. -/
def hasStray : List Char → Bool
  | [] => false
  | first :: rest => isStrayFirst first || rest.any isStrayChar

/-- The name of an attribute that becomes an element is a name without colon unless a character in
it is stray. -/
theorem isNCName_iff_not_hasStray {name : String} (h : Gml.isLocalName name) :
    isNCName name.toList ↔ ¬ hasStray name.toList := by
  unfold Gml.isLocalName at h
  cases hname : name.toList with
  | nil => rw [hname] at h; cases h
  | cons first rest =>
    rw [hname, Bool.and_eq_true, List.all_eq_true] at h
    obtain ⟨hfirst, hrest⟩ := h
    have hchars : (∀ c ∈ rest, isNCNameChar c) ↔ ∀ c ∈ rest, ¬ isStrayChar c :=
      forall₂_congr fun c hc => isNCNameChar_iff (hrest c hc)
    rw [isNCName, hasStray, Bool.and_eq_true, List.all_eq_true, isNCNameFirst_iff hfirst, hchars,
      Bool.or_eq_true, List.any_eq_true, not_or, not_exists]
    simp only [not_and]

/-! ## Elements -/

/-- A name in front of a colon and one behind it. -/
def isQName (name : List Char) : Bool :=
  isNCName (name.takeWhile (· != ':')) && isNCName ((name.dropWhile (· != ':')).drop 1)

/-- There is no colon in a name without colon. -/
theorem ne_colon_of_isNCName {name : List Char} (h : isNCName name) : ∀ c ∈ name, c != ':' := by
  have hcolon : isNCNameFirst ':' = false ∧ isNCNameChar ':' = false := by decide
  cases name with
  | nil => cases h
  | cons first rest =>
    rw [isNCName, Bool.and_eq_true, List.all_eq_true] at h
    obtain ⟨hfirst, hrest⟩ := h
    intro c hc
    rw [bne_iff_ne]
    rintro rfl
    rcases List.mem_cons.1 hc with rfl | hc
    · rw [hcolon.1] at hfirst
      cases hfirst
    · exact absurd (hrest ':' hc) (by rw [hcolon.2]; decide)

/-- A name behind a namespace abbreviation is legal when both are. -/
theorem isQName_qualified {type : FeatureType} (h : isNCName type.abbreviation.toList)
    (name : String) : isQName (type.qualified name).toList = isNCName name.toList := by
  have hchars : (type.qualified name).toList = type.abbreviation.toList ++ ':' :: name.toList := by
    simp [FeatureType.qualified]
  have hne := ne_colon_of_isNCName h
  rw [isQName, hchars, List.takeWhile_append_of_pos hne, List.dropWhile_append_of_pos hne]
  simp [h]

/-- The only tag that begins in what is written for an attribute is that of its name, which can be
the name of an element. -/
theorem eq_of_startTag_mem {encoder : Gml.Encoder} {featureId name tag : String}
    {value : AttributeValue} {attributes : Attributes}
    (h : Event.startTag tag attributes ∈ (encoder.attributeElement featureId name value).1) :
    tag = encoder.featureType.qualified name ∧ Gml.isLocalName name := by
  unfold Gml.Encoder.attributeElement at h
  split at h
  · cases h
  · split at h
    · next hlocal =>
      simp only [Event.textElement, Event.element, List.mem_append, List.mem_cons,
        Event.startTag.injEq, List.not_mem_nil, reduceCtorEq, or_false] at h
      exact ⟨h.1, hlocal⟩
    · cases h

/-- A text that is accepted as the name of an attribute is a name without colon exactly when no
character of it is stray. And an element that is written for an attribute has a legal name exactly
when no character of the attribute's name is stray. -/
theorem attributeNames_legal_iff (name : String) :
    (Gml.isLocalName name → (isNCName name.toList ↔ ¬ hasStray name.toList)) ∧
      ∀ encoder : Gml.Encoder, isNCName encoder.featureType.abbreviation.toList →
        ∀ featureId value tag attributes,
          Event.startTag tag attributes ∈ (encoder.attributeElement featureId name value).1 →
            (isQName tag.toList ↔ ¬ hasStray name.toList) := by
  refine ⟨isNCName_iff_not_hasStray, ?_⟩
  intro encoder habbreviation featureId value tag attributes htag
  obtain ⟨rfl, hlocal⟩ := eq_of_startTag_mem htag
  rw [isQName_qualified habbreviation]
  exact isNCName_iff_not_hasStray hlocal

/-- The element of an attribute whose name has letters that are not in ASCII. -/
theorem attributeNames_legal_umlaut :
    let encoder : Gml.Encoder := { context := {}, featureType := {} }
    Gml.isLocalName "Größe" ∧ isNCName "Größe".toList ∧
      Event.startTag "feature:Größe" [] ∈ (encoder.attributeElement "a" "Größe" (.text "x")).1 ∧
      isQName "feature:Größe".toList := by
  intro encoder
  have hname : Gml.isLocalName "Größe" := by decide +kernel
  have hstray : ¬ hasStray "Größe".toList := by decide +kernel
  have hmem : Event.startTag "feature:Größe" [] ∈
      (encoder.attributeElement "a" "Größe" (.text "x")).1 := by decide +kernel
  obtain ⟨hlegal, helement⟩ := attributeNames_legal_iff "Größe"
  have htag := helement encoder (by decide +kernel) _ _ _ _ hmem
  exact ⟨hname, (hlegal hname).2 hstray, hmem, htag.2 hstray⟩

/-- The ordinal indicator is accepted as the name of an attribute and written as one, and is no
name. -/
theorem attributeNames_ordinal :
    let encoder : Gml.Encoder := { context := {}, featureType := {} }
    Gml.isLocalName "ª" ∧ ¬ isNCName "ª".toList ∧
      Event.startTag "feature:ª" [] ∈ (encoder.attributeElement "a" "ª" (.text "x")).1 ∧
      ¬ isQName "feature:ª".toList := by
  decide +kernel

end Markup

end Cartouche
