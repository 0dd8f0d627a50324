/-!
# Coordinates

The algorithms on points ask of a coordinate type only its operations: arithmetic, comparisons and
whole numbers. Nothing is assumed about them, so doubles with their infinities and NaN are an
instance as well as exact numbers, and what is computed in doubles is the same definition that is
studied exactly.
-/

namespace Cartouche

/-- The operations of a coordinate type. -/
class Scalar (α : Type u) extends Add α, Sub α, Mul α, Div α, Neg α, LT α, LE α, BEq α where
  /-- A whole number as a coordinate. -/
  ofNat : Nat → α
  abs : α → α
  /-- Neither infinite nor undefined. -/
  isFinite : α → Bool
  decideLT : DecidableLT α
  decideLE : DecidableLE α

namespace Scalar

variable {α : Type u} [Scalar α]

instance : DecidableLT α := decideLT
instance : DecidableLE α := decideLE

/-- The origin of an axis. -/
def zero : α := ofNat 0

/-- The value is not even equal to itself: it is not a number. -/
def isUndefined (a : α) : Bool := !(a == a)

/-- The sum of a list from left to right. It starts from the negative zero, which is the neutral
element of addition also where zeros are signed. -/
def sum (terms : List α) : α := terms.foldl (· + ·) (-zero)

end Scalar

/-- Doubles, compared so that NaN is related to nothing. -/
instance : Scalar Float where
  ofNat := Float.ofNat
  abs := Float.abs
  isFinite := Float.isFinite
  decideLT := inferInstance
  decideLE := inferInstance

/-- Single floats, compared like doubles. -/
instance : Scalar Float32 where
  ofNat := Float32.ofNat
  abs := Float32.abs
  isFinite := Float32.isFinite
  decideLT := inferInstance
  decideLE := inferInstance

/-- Integers of 32 bits; division truncates. -/
instance : Scalar Int32 where
  ofNat := Int32.ofNat
  abs := Int32.abs
  isFinite _ := true
  decideLT := inferInstance
  decideLE := inferInstance

end Cartouche
