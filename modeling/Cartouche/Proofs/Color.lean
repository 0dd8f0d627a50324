import Cartouche.Proofs.Json.Forms

/-!
# The texts that are colors

A text is read as a color when it is a `#` and the digits of three channels or four, and the color
is then written as the text in upper case, with full opacity behind three channels
(`ofHex?_eq_some_iff`). One thing more is read: a plus sign in place of the first digit of a channel
counts as a zero (`exists_ofHex?_iff`). The texts that are read and have no plus sign are exactly
those of the grammar `IsHexText` (`isHexText_iff_counts`).
-/

namespace Cartouche.Color

/-- A hexadecimal digit of either case. -/
def isHexDigit (c : Char) : Bool := "0123456789ABCDEFabcdef".toList.contains c

/-- The text is a `#` and the digits of three channels or four. -/
def IsHexText (text : String) : Prop :=
  ∃ digits, text.toList = '#' :: digits ∧ (digits.length = 6 ∨ digits.length = 8) ∧
    ∀ c ∈ digits, isHexDigit c

/-- The first character of a channel; a plus sign counts as a zero. -/
def highDigit (c : Char) : Char := if c = '+' then '0' else c

/-- The characters of channels, with the plus signs that count as zeros replaced. -/
def zeroForPlus : List Char → List Char
  | high :: low :: rest => highDigit high :: low :: zeroForPlus rest
  | rest => rest

/-- The text is a `#` and what counts as the digits of three channels or four. -/
def CountsAsHexText (text : String) : Prop :=
  ∃ digits, text.toList = '#' :: digits ∧ (digits.length = 6 ∨ digits.length = 8) ∧
    ∀ c ∈ zeroForPlus digits, isHexDigit c

/-- The digits of all four channels as they are written: in upper case, and with full opacity behind
three channels. -/
def fullDigits (digits : List Char) : List Char :=
  digits.map Char.toUpper ++ if digits.length = 6 then ['F', 'F'] else []

/-! ## Plus signs -/

/-- Without plus signs there is nothing to replace. -/
theorem zeroForPlus_eq_self {digits : List Char} (h : '+' ∉ digits) :
    zeroForPlus digits = digits := by
  fun_induction zeroForPlus digits with
  | case1 high low rest ih =>
    rw [List.mem_cons, List.mem_cons, not_or, not_or] at h
    obtain ⟨hhigh, -, hrest⟩ := h
    rw [ih hrest, highDigit, if_neg (Ne.symm hhigh)]
  | case2 rest hrest => rfl

/-- Digits are no plus signs. -/
theorem notMem_of_isHexDigit {digits : List Char} (h : ∀ c ∈ digits, isHexDigit c) :
    '+' ∉ digits := by
  intro hmem
  have hplus : isHexDigit '+' = false := by decide
  exact absurd (h '+' hmem) (by rw [hplus]; decide)

/-- The digits of channels are those characters that count as digits and hold no plus sign. -/
theorem isHexText_iff_counts {text : String} :
    IsHexText text ↔ '+' ∉ text.toList ∧ CountsAsHexText text := by
  constructor
  · rintro ⟨digits, htext, hlength, hall⟩
    have hplus := notMem_of_isHexDigit hall
    refine ⟨?_, digits, htext, hlength, ?_⟩
    · rw [htext, List.mem_cons, not_or]
      exact ⟨by decide, hplus⟩
    · rwa [zeroForPlus_eq_self hplus]
  · rintro ⟨hplus, digits, htext, hlength, hall⟩
    rw [htext, List.mem_cons, not_or] at hplus
    rw [zeroForPlus_eq_self hplus.2] at hall
    exact ⟨digits, htext, hlength, hall⟩

/-! ## Digits -/

/-- Below the end of ASCII, digits are those characters that are read as a number, which is below
sixteen, and they are the digits of that number in upper case. -/
theorem digitValue?_ofNat : ∀ k < 128,
    (∀ n < 16, digitValue? (Char.ofNat k) = some n ↔ (Char.ofNat k).toUpper = hexDigit true n) ∧
      (∀ n ∈ digitValue? (Char.ofNat k), n < 16) ∧
      isHexDigit (Char.ofNat k) = (digitValue? (Char.ofNat k)).isSome := by
  decide +kernel

/-- Hexadecimal digits in upper case have one byte each. -/
theorem toNat_hexDigit_lt : ∀ n < 16, (hexDigit true n).toNat < 128 := by
  decide +kernel

/-- Elsewhere are no digits, and no cases. -/
theorem digitValue?_of_le {c : Char} (h : 128 ≤ c.toNat) :
    digitValue? c = none ∧ c.toUpper = c ∧ isHexDigit c = false := by
  have hlast : ∀ d : Char, d.toNat < 128 → ¬ c ≤ d := by
    intro d hd hle
    have : c.toNat ≤ d.toNat := hle
    omega
  refine ⟨?_, ?_, ?_⟩
  · rw [digitValue?, if_neg fun h => hlast '9' (by decide) h.2,
      if_neg fun h => hlast 'f' (by decide) h.2, if_neg fun h => hlast 'F' (by decide) h.2]
  · exact dif_neg fun h => hlast 'z' (by decide) h.2
  · rw [isHexDigit, List.contains_eq_mem, decide_eq_false_iff_not]
    intro hmem
    have hall : ∀ d ∈ "0123456789ABCDEFabcdef".toList, d.toNat < 128 := by simp
    exact absurd (hall c hmem) (by omega)

/-- A digit means a number below sixteen, and is the digit of that number in upper case. -/
theorem digitValue?_eq_some_iff {c : Char} {n : Nat} :
    digitValue? c = some n ↔ n < 16 ∧ c.toUpper = hexDigit true n := by
  rcases Nat.lt_or_ge c.toNat 128 with hc | hc
  · obtain ⟨hvalue, hlt, -⟩ := digitValue?_ofNat c.toNat hc
    rw [Char.ofNat_toNat] at hvalue hlt
    constructor
    · intro h
      have hn : n < 16 := hlt n h
      exact ⟨hn, (hvalue n hn).1 h⟩
    · rintro ⟨hn, h⟩
      exact (hvalue n hn).2 h
  · obtain ⟨hnone, hupper, -⟩ := digitValue?_of_le hc
    rw [hnone, hupper]
    constructor
    · intro h
      cases h
    · rintro ⟨hn, rfl⟩
      exact absurd (toNat_hexDigit_lt n hn) (Nat.not_lt.2 hc)

/-- The digits are the characters that are read as a number. -/
theorem isHexDigit_iff {c : Char} : isHexDigit c ↔ ∃ n, digitValue? c = some n := by
  rw [← Option.isSome_iff_exists]
  rcases Nat.lt_or_ge c.toNat 128 with hc | hc
  · obtain ⟨-, -, hdigit⟩ := digitValue?_ofNat c.toNat hc
    rw [Char.ofNat_toNat] at hdigit
    rw [hdigit]
  · obtain ⟨hnone, -, hdigit⟩ := digitValue?_of_le hc
    simp [hnone, hdigit]

/-! ## Channels -/

/-- A channel is read of two characters that mean numbers. -/
theorem channel?_eq_some_iff_exists {high low : Char} {channel : UInt8} :
    channel? high low = some channel ↔
      ∃ m n, digitValue? (highDigit high) = some m ∧ digitValue? low = some n ∧
        UInt8.ofNat (16 * m + n) = channel := by
  have hhigh : digitValue? (highDigit high) =
      if high = '+' then some 0 else digitValue? high := by
    unfold highDigit
    split
    · rfl
    · rfl
  have hread : channel? high low = (digitValue? (highDigit high)).bind fun m =>
      (digitValue? low).bind fun n => some (UInt8.ofNat (16 * m + n)) := by
    rw [hhigh, channel?]
    split
    · rfl
    · rfl
  simp [hread, Option.bind_eq_some_iff]

/-- A channel is read of its two digits, in either case. -/
theorem channel?_eq_some_iff {high low : Char} {channel : UInt8} :
    channel? high low = some channel ↔
      hexPair true channel = [(highDigit high).toUpper, low.toUpper] := by
  have hlt : channel.toNat < 256 := channel.toNat_lt
  rw [channel?_eq_some_iff_exists, hexPair, List.cons.injEq, List.cons.injEq]
  constructor
  · rintro ⟨m, n, hm, hn, rfl⟩
    obtain ⟨hm16, hm⟩ := digitValue?_eq_some_iff.1 hm
    obtain ⟨hn16, hn⟩ := digitValue?_eq_some_iff.1 hn
    have hnat : (UInt8.ofNat (16 * m + n)).toNat = 16 * m + n := by
      rw [UInt8.toNat_ofNat']
      omega
    have hdiv : (16 * m + n) / 16 = m := by omega
    have hmod : (16 * m + n) % 16 = n := by omega
    rw [hnat, hdiv, hmod, hm, hn]
    exact ⟨rfl, rfl, rfl⟩
  · rintro ⟨hhigh, hlow, -⟩
    have hsplit : 16 * (channel.toNat / 16) + channel.toNat % 16 = channel.toNat := by omega
    exact ⟨channel.toNat / 16, channel.toNat % 16,
      digitValue?_eq_some_iff.2 ⟨by omega, hhigh.symm⟩,
      digitValue?_eq_some_iff.2 ⟨by omega, hlow.symm⟩, by rw [hsplit, UInt8.ofNat_toNat]⟩

/-- Two characters are a channel when both count as digits. -/
theorem exists_channel?_iff {high low : Char} :
    (∃ channel, channel? high low = some channel) ↔
      isHexDigit (highDigit high) ∧ isHexDigit low := by
  rw [isHexDigit_iff, isHexDigit_iff]
  constructor
  · rintro ⟨channel, h⟩
    obtain ⟨m, n, hm, hn, -⟩ := channel?_eq_some_iff_exists.1 h
    exact ⟨⟨m, hm⟩, ⟨n, hn⟩⟩
  · rintro ⟨⟨m, hm⟩, ⟨n, hn⟩⟩
    exact ⟨_, channel?_eq_some_iff_exists.2 ⟨m, n, hm, hn, rfl⟩⟩

/-! ## Colors -/

/-- What is written for a color are the digits of its channels. -/
theorem toList_toHex (color : Color) :
    color.toHex.toList = '#' :: (hexPair true color.r ++ hexPair true color.g ++
      hexPair true color.b ++ hexPair true color.a) := by
  simp [toHex]

/-- The digits that are written for a color belong to its channels two by two. -/
theorem toList_toHex_eq_iff {color : Color} {r₁ r₂ g₁ g₂ b₁ b₂ a₁ a₂ : Char} :
    color.toHex.toList = ['#', r₁, r₂, g₁, g₂, b₁, b₂, a₁, a₂] ↔
      hexPair true color.r = [r₁, r₂] ∧ hexPair true color.g = [g₁, g₂] ∧
        hexPair true color.b = [b₁, b₂] ∧ hexPair true color.a = [a₁, a₂] := by
  simp [toList_toHex, hexPair, and_assoc]

/-- Full opacity is what two digits `F` mean. -/
theorem hexPair_eq_full_iff {channel : UInt8} :
    hexPair true channel = ['F', 'F'] ↔ channel = 255 := by
  have h : channel? 'F' 'F' = some channel ↔ _ := channel?_eq_some_iff
  have hread : channel? 'F' 'F' = some 255 := rfl
  rw [hread, Option.some.injEq] at h
  exact h.symm.trans eq_comm

section

variable {text : String} {color : Color} {r₁ r₂ g₁ g₂ b₁ b₂ a₁ a₂ : Char}

/-- Three channels are read two characters each, and the fourth is full. -/
theorem ofHex?_six (h : text.toList = ['#', r₁, r₂, g₁, g₂, b₁, b₂]) :
    ofHex? text = some color ↔
      channel? r₁ r₂ = some color.r ∧ channel? g₁ g₂ = some color.g ∧
        channel? b₁ b₂ = some color.b ∧ color.a = 255 := by
  rw [ofHex?, h]
  simp only [Option.bind_eq_bind, Option.bind_eq_some_iff, Option.pure_def, Option.some.injEq]
  constructor
  · rintro ⟨r, hr, g, hg, b, hb, rfl⟩
    exact ⟨hr, hg, hb, rfl⟩
  · rintro ⟨hr, hg, hb, ha⟩
    exact ⟨color.r, hr, color.g, hg, color.b, hb, by rw [← ha]⟩

/-- Four channels are read two characters each. -/
theorem ofHex?_eight (h : text.toList = ['#', r₁, r₂, g₁, g₂, b₁, b₂, a₁, a₂]) :
    ofHex? text = some color ↔
      channel? r₁ r₂ = some color.r ∧ channel? g₁ g₂ = some color.g ∧
        channel? b₁ b₂ = some color.b ∧ channel? a₁ a₂ = some color.a := by
  rw [ofHex?, h]
  simp only [Option.bind_eq_bind, Option.bind_eq_some_iff, Option.pure_def, Option.some.injEq]
  constructor
  · rintro ⟨r, hr, g, hg, b, hb, a, ha, rfl⟩
    exact ⟨hr, hg, hb, ha⟩
  · rintro ⟨hr, hg, hb, ha⟩
    exact ⟨color.r, hr, color.g, hg, color.b, hb, color.a, ha, rfl⟩

/-- The digits of three channels are written for the color that is read of them. -/
theorem toList_toHex_six :
    color.toHex.toList = '#' :: fullDigits (zeroForPlus [r₁, r₂, g₁, g₂, b₁, b₂]) ↔
      channel? r₁ r₂ = some color.r ∧ channel? g₁ g₂ = some color.g ∧
        channel? b₁ b₂ = some color.b ∧ color.a = 255 := by
  have hfull : fullDigits (zeroForPlus [r₁, r₂, g₁, g₂, b₁, b₂]) =
      [(highDigit r₁).toUpper, r₂.toUpper, (highDigit g₁).toUpper, g₂.toUpper,
        (highDigit b₁).toUpper, b₂.toUpper, 'F', 'F'] := rfl
  rw [hfull, toList_toHex_eq_iff, hexPair_eq_full_iff, ← channel?_eq_some_iff,
    ← channel?_eq_some_iff, ← channel?_eq_some_iff]

/-- The digits of four channels are written for the color that is read of them. -/
theorem toList_toHex_eight :
    color.toHex.toList = '#' :: fullDigits (zeroForPlus [r₁, r₂, g₁, g₂, b₁, b₂, a₁, a₂]) ↔
      channel? r₁ r₂ = some color.r ∧ channel? g₁ g₂ = some color.g ∧
        channel? b₁ b₂ = some color.b ∧ channel? a₁ a₂ = some color.a := by
  have hfull : fullDigits (zeroForPlus [r₁, r₂, g₁, g₂, b₁, b₂, a₁, a₂]) =
      [(highDigit r₁).toUpper, r₂.toUpper, (highDigit g₁).toUpper, g₂.toUpper,
        (highDigit b₁).toUpper, b₂.toUpper, (highDigit a₁).toUpper, a₂.toUpper] := rfl
  rw [hfull, toList_toHex_eq_iff, ← channel?_eq_some_iff, ← channel?_eq_some_iff,
    ← channel?_eq_some_iff, ← channel?_eq_some_iff]

end

/-- Six or eight characters, one by one. -/
theorem exists_of_length {digits : List Char} (h : digits.length = 6 ∨ digits.length = 8) :
    (∃ r₁ r₂ g₁ g₂ b₁ b₂, digits = [r₁, r₂, g₁, g₂, b₁, b₂]) ∨
      ∃ r₁ r₂ g₁ g₂ b₁ b₂ a₁ a₂, digits = [r₁, r₂, g₁, g₂, b₁, b₂, a₁, a₂] := by
  rcases h with h | h
  · left
    match digits, h with
    | [r₁, r₂, g₁, g₂, b₁, b₂], _ => exact ⟨r₁, r₂, g₁, g₂, b₁, b₂, rfl⟩
  · right
    match digits, h with
    | [r₁, r₂, g₁, g₂, b₁, b₂, a₁, a₂], _ => exact ⟨r₁, r₂, g₁, g₂, b₁, b₂, a₁, a₂, rfl⟩

/-- A text that is read as a color is a `#` and six or eight characters. -/
theorem exists_digits_of_ofHex? {text : String} {color : Color} (h : ofHex? text = some color) :
    ∃ digits, text.toList = '#' :: digits ∧ (digits.length = 6 ∨ digits.length = 8) := by
  unfold ofHex? at h
  split at h
  · next htext => exact ⟨_, htext, .inl rfl⟩
  · next htext => exact ⟨_, htext, .inr rfl⟩
  · cases h

/-- A text is read as the color for which its digits are written. -/
theorem ofHex?_eq_some_iff {text : String} {digits : List Char}
    (htext : text.toList = '#' :: digits) (hlength : digits.length = 6 ∨ digits.length = 8)
    {color : Color} :
    ofHex? text = some color ↔ color.toHex.toList = '#' :: fullDigits (zeroForPlus digits) := by
  rcases exists_of_length hlength with
    ⟨r₁, r₂, g₁, g₂, b₁, b₂, rfl⟩ | ⟨r₁, r₂, g₁, g₂, b₁, b₂, a₁, a₂, rfl⟩
  · exact (ofHex?_six htext).trans toList_toHex_six.symm
  · exact (ofHex?_eight htext).trans toList_toHex_eight.symm

/-- Channels are read when all their characters count as digits. -/
theorem exists_ofHex?_iff_forall {text : String} {digits : List Char}
    (htext : text.toList = '#' :: digits) (hlength : digits.length = 6 ∨ digits.length = 8) :
    (∃ color, ofHex? text = some color) ↔ ∀ c ∈ zeroForPlus digits, isHexDigit c := by
  rcases exists_of_length hlength with
    ⟨r₁, r₂, g₁, g₂, b₁, b₂, rfl⟩ | ⟨r₁, r₂, g₁, g₂, b₁, b₂, a₁, a₂, rfl⟩
  · have hall : (∀ c ∈ zeroForPlus [r₁, r₂, g₁, g₂, b₁, b₂], isHexDigit c) ↔
        (∃ r, channel? r₁ r₂ = some r) ∧ (∃ g, channel? g₁ g₂ = some g) ∧
          ∃ b, channel? b₁ b₂ = some b := by
      simp [zeroForPlus, exists_channel?_iff, and_assoc]
    rw [hall]
    constructor
    · rintro ⟨color, h⟩
      obtain ⟨hr, hg, hb, -⟩ := (ofHex?_six htext).1 h
      exact ⟨⟨_, hr⟩, ⟨_, hg⟩, ⟨_, hb⟩⟩
    · rintro ⟨⟨r, hr⟩, ⟨g, hg⟩, ⟨b, hb⟩⟩
      exact ⟨⟨r, g, b, 255⟩, (ofHex?_six htext).2 ⟨hr, hg, hb, rfl⟩⟩
  · have hall : (∀ c ∈ zeroForPlus [r₁, r₂, g₁, g₂, b₁, b₂, a₁, a₂], isHexDigit c) ↔
        (∃ r, channel? r₁ r₂ = some r) ∧ (∃ g, channel? g₁ g₂ = some g) ∧
          (∃ b, channel? b₁ b₂ = some b) ∧ ∃ a, channel? a₁ a₂ = some a := by
      simp [zeroForPlus, exists_channel?_iff, and_assoc]
    rw [hall]
    constructor
    · rintro ⟨color, h⟩
      obtain ⟨hr, hg, hb, ha⟩ := (ofHex?_eight htext).1 h
      exact ⟨⟨_, hr⟩, ⟨_, hg⟩, ⟨_, hb⟩, ⟨_, ha⟩⟩
    · rintro ⟨⟨r, hr⟩, ⟨g, hg⟩, ⟨b, hb⟩, ⟨a, ha⟩⟩
      exact ⟨⟨r, g, b, a⟩, (ofHex?_eight htext).2 ⟨hr, hg, hb, ha⟩⟩

/-- A text is read as a color when it counts as one. -/
theorem exists_ofHex?_iff {text : String} :
    (∃ color, ofHex? text = some color) ↔ CountsAsHexText text := by
  constructor
  · rintro ⟨color, h⟩
    obtain ⟨digits, htext, hlength⟩ := exists_digits_of_ofHex? h
    exact ⟨digits, htext, hlength, (exists_ofHex?_iff_forall htext hlength).1 ⟨color, h⟩⟩
  · rintro ⟨digits, htext, hlength, hall⟩
    exact (exists_ofHex?_iff_forall htext hlength).2 hall

/-- Which texts are colors, and which colors. The grammar of a `#` and six or eight digits is
exactly what is read and holds no plus sign, and the color that is read is written as the text in
upper case, with full opacity behind six digits. What is read besides are texts in which plus signs
stand for zeros in front of a channel, and nothing else. Every text that is not read is black, and
every color is read from what is written for it. -/
theorem ofHex?_reads_digits (text : String) :
    (IsHexText text ↔ '+' ∉ text.toList ∧ ∃ color, ofHex? text = some color) ∧
      ((∃ color, ofHex? text = some color) ↔ CountsAsHexText text) ∧
      (∀ color, ofHex? text = some color → ∃ digits, text.toList = '#' :: digits ∧
        color.toHex.toList = '#' :: fullDigits (zeroForPlus digits) ∧
        (IsHexText text → color.toHex.toList = '#' :: fullDigits digits)) ∧
      ((¬ ∃ color, ofHex? text = some color) → ofText text = black) ∧
      ∀ color, ofHex? (toHex color) = some color := by
  refine ⟨?_, exists_ofHex?_iff, ?_, ?_, ofHex?_toHex⟩
  · rw [isHexText_iff_counts, exists_ofHex?_iff]
  · intro color h
    obtain ⟨digits, htext, hlength⟩ := exists_digits_of_ofHex? h
    have hwritten := (ofHex?_eq_some_iff htext hlength).1 h
    refine ⟨digits, htext, hwritten, fun hgrammar => ?_⟩
    obtain ⟨hplus, -⟩ := isHexText_iff_counts.1 hgrammar
    rw [htext, List.mem_cons, not_or] at hplus
    rwa [zeroForPlus_eq_self hplus.2] at hwritten
  · intro h
    have hnone : ofHex? text = none := by
      rw [Option.eq_none_iff_forall_ne_some]
      exact fun color hcolor => h ⟨color, hcolor⟩
    rw [ofText, hnone]
    rfl

/-- Plus signs in place of digits are read. -/
theorem ofHex?_plus :
    ofHex? "#+F+F+F" = some ⟨15, 15, 15, 255⟩ ∧ ¬ IsHexText "#+F+F+F" := by
  refine ⟨by decide +kernel, fun h => ?_⟩
  obtain ⟨hplus, -⟩ := isHexText_iff_counts.1 h
  exact hplus (by decide)

end Cartouche.Color
