import Cartouche.Number.Binary64

/-!
# The fewest digits that read back

`Magnitude.shortest` selects, among the decimals that round to a given double, one with the fewest
digits, and of those the nearest to the double. The search walks the decimal grids from one digit to
seventeen and tests on each the two grid points around the value. All comparisons are exact.
-/

namespace Cartouche

/-- A positional decimal without its sign, `digits * 10 ^ exponent`. -/
structure Decimal where
  digits : Nat
  exponent : Int
deriving DecidableEq, Repr

/-- Which of two equally near candidates is taken. -/
inductive Tie where
  | up
  | toEven
deriving DecidableEq, Repr

namespace Magnitude

/-- Compares `a * 10 ^ i` with `n * 2 ^ j`. -/
def compareScaled (a : Nat) (i : Int) (n : Nat) (j : Int) : Ordering :=
  compare (a * Nat.pow 10 i.toNat * Nat.pow 2 (-j).toNat)
    (n * Nat.pow 2 j.toNat * Nat.pow 10 (-i).toNat)

/-- The decimal lies among the reals that round to this magnitude. The interval reaches half way to
either neighbour, and its ends belong to it when the mantissa is even. -/
def readsBack (m : Magnitude) (d : Decimal) : Bool :=
  let low := 4 * m.mantissa - (if m.narrowBelow then 1 else 2)
  let high := 4 * m.mantissa + 2
  let closed := m.mantissa % 2 == 0
  let atLow := compareScaled d.digits d.exponent low (m.exponent - 2)
  let atHigh := compareScaled d.digits d.exponent high (m.exponent - 2)
  (atLow == .gt || (closed && atLow == .eq)) && (atHigh == .lt || (closed && atHigh == .eq))

/-- The least `k` with `m < 10 ^ k`, found from the binary logarithm by exact comparisons. -/
def decimalScale (m : Magnitude) : Int :=
  let start := ((m.mantissa.log2 : Int) + m.exponent) * 30103 / 100000
  let reached (k : Int) : Bool := compareScaled 1 k m.mantissa m.exponent == .gt
  if reached start then start
  else if reached (start + 1) then start + 1
  else start + 2

/-- The grid point just below or at the magnitude, in units of `10 ^ exponent`. -/
def floorAt (m : Magnitude) (exponent : Int) : Nat :=
  m.mantissa * Nat.pow 2 m.exponent.toNat * Nat.pow 10 (-exponent).toNat /
    (Nat.pow 2 (-m.exponent).toNat * Nat.pow 10 exponent.toNat)

/-- The decimal chosen on the grid of `10 ^ exponent`, if one of the two grid points around the
magnitude reads back: the nearer one, and on a tie the one that `tie` names. -/
def onGrid? (tie : Tie) (m : Magnitude) (exponent : Int) : Option Decimal :=
  let below : Decimal := { digits := m.floorAt exponent, exponent }
  let above : Decimal := { digits := below.digits + 1, exponent }
  match m.readsBack below, m.readsBack above with
  | false, false => none
  | true, false => some below
  | false, true => some above
  | true, true =>
    match compareScaled (2 * below.digits + 1) exponent (2 * m.mantissa) m.exponent with
    | .gt => some below
    | .lt => some above
    | .eq => if tie = .toEven ∧ below.digits % 2 = 0 then some below else some above

/-- The decimal with every digit of the magnitude written out. -/
def exactDecimal (m : Magnitude) : Decimal where
  digits := m.mantissa * Nat.pow 2 m.exponent.toNat * Nat.pow 5 (-m.exponent).toNat
  exponent := min m.exponent 0

/-- The shortest decimal that reads back to a magnitude other than zero. -/
def shortest (tie : Tie) (m : Magnitude) : Decimal :=
  let scale := m.decimalScale
  let onGridOf (count : Nat) : Option Decimal := m.onGrid? tie (scale - count)
  ((List.range' 1 17).findSome? onGridOf).getD m.exactDecimal

end Magnitude

end Cartouche
