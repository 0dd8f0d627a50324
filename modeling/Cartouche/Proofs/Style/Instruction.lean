import Cartouche.Style.Instruction

/-!
# The style that instructions come to

Every part of a placemark style is set by instructions of some sorts and left alone by the others
(`Instruction.icon?`, `line?`, `poly?`, `label?`), so after a run of instructions it is what the
last of them that sets it says (`PlacemarkStyle.foldl_follow`), and a run after another one puts its
own style over that of the other (`ofInstructions_append`). Only an area with an outline turns the
outline of areas on, and it sets the line as well; nothing takes a line away again. So a style that
outlines areas has a line (`isOutlined_ofInstructions`), whatever the instructions are.
-/

namespace Cartouche

namespace Instruction

/-- The icon that an instruction sets. -/
def icon? : Instruction → Option IconStyle
  | .icon style => some style
  | _ => none

/-- The line that an instruction sets; an area sets its outline. -/
def line? : Instruction → Option LineStyle
  | .line style => some style
  | .area _ outline => outline
  | _ => none

/-- The filling that an instruction sets. -/
def poly? : Instruction → Option PolyStyle
  | .area fill outline => some { color := fill, outline := outline.isSome }
  | _ => none

/-- The label that an instruction sets. -/
def label? : Instruction → Option LabelStyle
  | .label _ color => some { color }
  | _ => none

end Instruction

namespace PlacemarkStyle

/-! ## The last instruction decides -/

/-- A part that each instruction overrides or leaves as it is holds what the last one set. -/
theorem foldl_follow {α : Type u} {part : PlacemarkStyle → Option α}
    {set? : Instruction → Option α}
    (hfollow : ∀ style instruction,
      part (follow style instruction) = (set? instruction).or (part style))
    (style : PlacemarkStyle) (instructions : List Instruction) :
    part (instructions.foldl follow style) =
      (instructions.reverse.findSome? set?).or (part style) := by
  induction instructions generalizing style with
  | nil => rfl
  | cons instruction rest ih =>
    rw [List.foldl_cons, ih, hfollow, List.reverse_cons, List.findSome?_append,
      List.findSome?_singleton, Option.or_assoc]

variable (style : PlacemarkStyle) (instruction : Instruction) (instructions : List Instruction)

/-- An instruction sets the icon or leaves it as it is. This and the next three lemmas are what one
step does to the four parts of a style. -/
theorem icon_follow : (follow style instruction).icon = instruction.icon?.or style.icon := by
  cases instruction <;> rfl

/-- An instruction sets the line or leaves it as it is; an area without outline takes no line
away. -/
theorem line_follow : (follow style instruction).line = instruction.line?.or style.line := by
  cases instruction <;> rfl

/-- An instruction sets the filling or leaves it as it is. -/
theorem poly_follow : (follow style instruction).poly = instruction.poly?.or style.poly := by
  cases instruction <;> rfl

/-- An instruction sets the label or leaves it as it is. -/
theorem label_follow : (follow style instruction).label = instruction.label?.or style.label := by
  cases instruction <;> rfl

/-- The icon is that of the last instruction that sets one. -/
theorem icon_ofInstructions : (ofInstructions instructions).icon =
    instructions.reverse.findSome? Instruction.icon? := by
  rw [ofInstructions, foldl_follow icon_follow, Option.or_none]

/-- The line is that of the last instruction that sets one, be it a line or an area with an
outline. -/
theorem line_ofInstructions : (ofInstructions instructions).line =
    instructions.reverse.findSome? Instruction.line? := by
  rw [ofInstructions, foldl_follow line_follow, Option.or_none]

/-- The filling is that of the last instruction that sets one. -/
theorem poly_ofInstructions : (ofInstructions instructions).poly =
    instructions.reverse.findSome? Instruction.poly? := by
  rw [ofInstructions, foldl_follow poly_follow, Option.or_none]

/-- The label is that of the last instruction that sets one. -/
theorem label_ofInstructions : (ofInstructions instructions).label =
    instructions.reverse.findSome? Instruction.label? := by
  rw [ofInstructions, foldl_follow label_follow, Option.or_none]

/-! ## Runs one after the other -/

/-- A style above another one, of which the parts show that the upper one does not set. -/
def above (upper lower : PlacemarkStyle) : PlacemarkStyle where
  icon := upper.icon.or lower.icon
  line := upper.line.or lower.line
  poly := upper.poly.or lower.poly
  label := upper.label.or lower.label

/-- A style is known by its parts. -/
theorem eq_of_parts {style style' : PlacemarkStyle} (hicon : style.icon = style'.icon)
    (hline : style.line = style'.line) (hpoly : style.poly = style'.poly)
    (hlabel : style.label = style'.label) : style = style' := by
  cases style
  cases hicon
  cases hline
  cases hpoly
  cases hlabel
  rfl

/-- What is set last is set by the later instructions, or else by the earlier ones. -/
theorem ofInstructions_append (earlier later : List Instruction) :
    ofInstructions (earlier ++ later) = (ofInstructions later).above (ofInstructions earlier) := by
  apply eq_of_parts
  · simp only [above, icon_ofInstructions, List.reverse_append, List.findSome?_append]
  · simp only [above, line_ofInstructions, List.reverse_append, List.findSome?_append]
  · simp only [above, poly_ofInstructions, List.reverse_append, List.findSome?_append]
  · simp only [above, label_ofInstructions, List.reverse_append, List.findSome?_append]

/-! ## Outlines -/

/-- There is a line to outline areas with, if they are outlined. -/
def IsOutlined : Prop := ∀ poly ∈ style.poly, poly.outline → style.line.isSome

variable {style} in
/-- An instruction keeps a line for the outlines. -/
theorem IsOutlined.follow (h : style.IsOutlined) : (follow style instruction).IsOutlined := by
  cases instruction with
  | icon icon => exact h
  | line line => exact fun _ _ _ => rfl
  | area fill outline =>
    intro poly hpoly hline
    obtain rfl : poly = { color := fill, outline := outline.isSome } := (Option.some.inj hpoly).symm
    obtain ⟨line, rfl⟩ := Option.isSome_iff_exists.1 hline
    rfl
  | label text color => exact h

/-- Instructions never leave outlines without a line. -/
theorem isOutlined_ofInstructions : (ofInstructions instructions).IsOutlined := by
  have hrun : ∀ style : PlacemarkStyle, style.IsOutlined →
      (instructions.foldl follow style).IsOutlined := by
    induction instructions with
    | nil => exact fun _ h => h
    | cons instruction rest ih => exact fun style h => ih _ (h.follow instruction)
  exact hrun {} fun _ h => nomatch h

/-- The style of instructions after others is their own style over that of the others. Each part is
what the last instruction says that sets it, where lines and outlines of areas set the same part,
and an area is outlined only when there is a line. -/
theorem ofInstructions_overrides (later : List Instruction) :
    ofInstructions (instructions ++ later) =
        (ofInstructions later).above (ofInstructions instructions) ∧
      (ofInstructions instructions).icon = (instructions.filterMap Instruction.icon?).getLast? ∧
      (ofInstructions instructions).line = (instructions.filterMap Instruction.line?).getLast? ∧
      (ofInstructions instructions).poly = (instructions.filterMap Instruction.poly?).getLast? ∧
      (ofInstructions instructions).label = (instructions.filterMap Instruction.label?).getLast? ∧
      (ofInstructions instructions).IsOutlined := by
  refine ⟨ofInstructions_append instructions later, ?_, ?_, ?_, ?_,
    isOutlined_ofInstructions instructions⟩
  · rw [icon_ofInstructions, List.getLast?_filterMap]
  · rw [line_ofInstructions, List.getLast?_filterMap]
  · rw [poly_ofInstructions, List.getLast?_filterMap]
  · rw [label_ofInstructions, List.getLast?_filterMap]

end PlacemarkStyle

end Cartouche
