import Cartouche.Plane.Rect

/-!
# Scales

The denominator of the scale at which a map is shown, when a pixel of it has the standard size.
-/

namespace Cartouche

/-- The standard size of a pixel in meters. -/
def standardPixelSize : Float := 0.00028

/-- The length of a degree on the equator in meters. -/
def metersPerDegree : Float := 6378137.0 * 2.0 * 3.14159265358979323846 / 360.0

/-- The scale denominator of a map on which a pixel covers `resolution` units, which are meters or,
on a geographic map, degrees. -/
def resolutionToScale? (resolution : Float) (geographic : Bool) : Option Float :=
  if !resolution.isFinite || resolution ≤ 0.0 then
    none
  else
    some (resolution * (if geographic then metersPerDegree else 1.0) / standardPixelSize)

/-- The scale denominator of a map of an extent that is a number of pixels wide. -/
def scaleDenominator? (extent : Rect Float) (pixels : UInt32) (geographic : Bool) : Option Float :=
  if pixels = 0 then none
  else resolutionToScale? (extent.width / Float.ofNat pixels.toNat) geographic

end Cartouche
