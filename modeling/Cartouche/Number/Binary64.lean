/-!
# Doubles as exact numbers

A finite double is `± mantissa * 2 ^ exponent`. `Magnitude.ofFloat` reads that form off the bits,
and `Binary64.ofQuotient` goes the other way: it rounds a quotient of naturals to the nearest
double, a tie going to the even mantissa. Everything between the two is exact arithmetic on
integers, so printing, reading and rounding of numbers never depend on the floating-point unit.
-/

namespace Cartouche

/-- The exact value of a finite double without its sign, `mantissa * 2 ^ exponent`. -/
structure Magnitude where
  mantissa : Nat
  exponent : Int
  /-- The double below is half as far away as the double above: the value is a power of two. -/
  narrowBelow : Bool
deriving DecidableEq, Repr

/-- The magnitude held in the bits of a finite double; infinities and NaN have none. -/
def Magnitude.ofFloat (x : Float) : Magnitude :=
  let bits := x.toBits.toNat
  let biased := bits / Nat.pow 2 52 % Nat.pow 2 11
  let fraction := bits % Nat.pow 2 52
  if biased = 0 then
    { mantissa := fraction, exponent := -1074, narrowBelow := false }
  else
    { mantissa := Nat.pow 2 52 + fraction, exponent := Int.ofNat biased - 1075,
      narrowBelow := fraction == 0 && 1 < biased }

namespace Binary64

/-- The sign bit; it is set for `-0` too. -/
def isNegative (x : Float) : Bool := x.toBits >>> 63 == 1

/-- `num / den` rounded to the nearest natural, a tie going to the even one. -/
def roundQuotient (num den : Nat) : Nat :=
  let quotient := num / den
  let twice := 2 * (num % den)
  if twice < den || (twice == den && quotient % 2 == 0) then quotient else quotient + 1

/-- The largest `e` with `2 ^ e ≤ num / den`, for positive `num` and `den`. -/
def quotientLog2 (num den : Nat) : Int :=
  let estimate : Int := (num.log2 : Int) - den.log2
  if den * Nat.pow 2 estimate.toNat ≤ num * Nat.pow 2 (-estimate).toNat then estimate
  else estimate - 1

/-- The mantissa and the exponent of the double nearest to `num / den`, as if the exponent had no
upper bound. The mantissa has 53 binary digits, fewer at the least exponent only. -/
def nearest (num den : Nat) : Nat × Int :=
  if num = 0 then
    (0, -1074)
  else
    let exponent := max (quotientLog2 num den - 52) (-1074)
    let mantissa :=
      roundQuotient (num * Nat.pow 2 (-exponent).toNat) (den * Nat.pow 2 exponent.toNat)
    if mantissa = Nat.pow 2 53 then (Nat.pow 2 52, exponent + 1) else (mantissa, exponent)

/-- The bits of a mantissa and an exponent as `nearest` gives them; those of infinity when the
exponent is too large. -/
def packBits (mantissa : Nat) (exponent : Int) : Nat :=
  if 971 < exponent then 2047 * Nat.pow 2 52
  else if mantissa < Nat.pow 2 52 then mantissa
  else (exponent + 1075).toNat * Nat.pow 2 52 + (mantissa - Nat.pow 2 52)

/-- The double with the given sign nearest to `num / den`, infinite beyond the range of doubles. -/
def ofQuotient (negative : Bool) (num den : Nat) : Float :=
  let (mantissa, exponent) := nearest num den
  Float.ofBits (UInt64.ofNat ((if negative then Nat.pow 2 63 else 0) + packBits mantissa exponent))

/-- The integer nearest to `x`, a half going away from zero. -/
def roundHalfAway (x : Float) : Float :=
  let magnitude := Magnitude.ofFloat x
  if x.isFinite && magnitude.exponent < 0 then
    let scale := (-magnitude.exponent).toNat
    let rounded := (2 * magnitude.mantissa + Nat.pow 2 scale) / Nat.pow 2 (scale + 1)
    ofQuotient (isNegative x) rounded 1
  else
    x

end Binary64

end Cartouche
