import Mathlib.Algebra.Module.Defs
import Mathlib.Algebra.Order.Group.Unbundled.Abs
import Mathlib.Tactic.Ring
import Cartouche.Plane.Point

/-!
# Exact coordinates

The numbers of any ordered field are coordinates, with the arithmetic and the order of the field. So
what is computed in doubles can be studied without rounding, by the same definition: `open scoped
Scalar.Exact` makes rationals and reals such coordinates, and the vectors of the plane over them a
vector space.
-/

namespace Cartouche

attribute [ext] Offset

namespace Scalar.Exact

variable {α : Type u} [Field α] [LinearOrder α]

/-- The numbers of an ordered field as coordinates. -/
scoped instance : Scalar α where
  ofNat n := n
  abs a := |a|
  isFinite _ := true
  decideLT := inferInstance
  decideLE := inferInstance

/-- The whole number zero is the zero of the field. The algorithms start their sums from the former,
the lemmas on fields are about the latter. -/
@[simp] theorem zero_eq : (Scalar.zero : α) = 0 := Nat.cast_zero

/-- Counts are converted as the field converts them. By this and the next lemma the operations of
the algorithms become those that `ring` and `linarith` know. -/
@[simp] theorem ofNat_eq (n : Nat) : (Scalar.ofNat n : α) = n := rfl

/-- The size of a coordinate is its absolute value. -/
@[simp] theorem abs_eq (a : α) : Scalar.abs a = |a| := rfl

/-- Without signed zeros a sum is the sum. -/
@[simp] theorem sum_eq (terms : List α) : Scalar.sum terms = terms.sum := by
  simp [Scalar.sum, List.sum_eq_foldl]

section

variable (u v : Offset α) (factor : α)

/-- Vectors are added in each coordinate. The lemmas of this group take an equation between vectors
apart into two equations in the field. -/
@[simp] theorem dx_add : (u + v).dx = u.dx + v.dx := rfl

/-- Sums in the second coordinate. -/
@[simp] theorem dy_add : (u + v).dy = u.dy + v.dy := rfl

/-- Vectors are subtracted in each coordinate, too. -/
@[simp] theorem dx_sub : (u - v).dx = u.dx - v.dx := rfl

/-- Differences in the second coordinate. -/
@[simp] theorem dy_sub : (u - v).dy = u.dy - v.dy := rfl

/-- The opposite of a vector has the opposite coordinates. -/
@[simp] theorem dx_neg : (-u).dx = -u.dx := rfl

/-- Opposites in the second coordinate. -/
@[simp] theorem dy_neg : (-u).dy = -u.dy := rfl

scoped instance : Zero (Offset α) := ⟨.zero⟩

/-- The vector without length has no first coordinate. It is made of the zero of the algorithms, so
this rests on `zero_eq`. -/
@[simp] theorem dx_zero : (0 : Offset α).dx = 0 := zero_eq

/-- The vector without length has no second coordinate. -/
@[simp] theorem dy_zero : (0 : Offset α).dy = 0 := zero_eq

scoped instance : SMul α (Offset α) := ⟨fun factor u => u.scale factor⟩

/-- A vector is stretched in each coordinate. The factor stands on the right, as in the
algorithms. -/
@[simp] theorem dx_smul : (factor • u).dx = u.dx * factor := rfl

/-- Multiples in the second coordinate. -/
@[simp] theorem dy_smul : (factor • u).dy = u.dy * factor := rfl

end

/-- Vectors are added coordinate by coordinate. -/
scoped instance : AddCommGroup (Offset α) where
  add_assoc u v w := by ext <;> simp [add_assoc]
  zero_add u := by ext <;> simp
  add_zero u := by ext <;> simp
  neg_add_cancel u := by ext <;> simp
  sub_eq_add_neg u v := by ext <;> simp [sub_eq_add_neg]
  add_comm u v := by ext <;> simp [add_comm]
  nsmul := nsmulRec
  zsmul := zsmulRec

/-- Vectors are stretched by the numbers. -/
scoped instance : Module α (Offset α) where
  one_smul u := by ext <;> simp
  mul_smul k l u := by ext <;> simp <;> ring
  smul_zero k := by ext <;> simp
  zero_smul u := by ext <;> simp
  smul_add k u v := by ext <;> simp <;> ring
  add_smul k l u := by ext <;> simp <;> ring

end Scalar.Exact

end Cartouche
