import PullAlgebra.Binary64
import PullAlgebra.Integer64

/-!
# PullAlgebra.Binary64.Truncation

Doubles cut off at the binary point. What stands before the point is an integer, which goes to the
nearest bound where 64 bits do not hold it, and what stands behind it is a double again.

* `fraction`: the double behind the point.
* `toInt64`: the integer before the point.
* `whole?`: the integer that a double is, when it is one of 64 bits. The bounds are compared with it
  as doubles.
-/

namespace PullAlgebra

namespace Dyadic

/-- The integer that is left without what stands behind the binary point. -/
def truncated (d : Dyadic) : Int :=
  let magnitude := if 0 ≤ d.exponent then d.significand <<< d.exponent.toNat
    else d.significand >>> (-d.exponent).toNat
  if d.negative then -(magnitude : Int) else magnitude

/-- What stands behind the binary point, with the sign of the number. -/
def fraction (d : Dyadic) : Dyadic :=
  { d with significand := if 0 ≤ d.exponent then 0 else d.significand % 1 <<< (-d.exponent).toNat }

end Dyadic

namespace Binary64

/-- The double nearest to a dyadic number. -/
def ofDyadic (d : Dyadic) : Float :=
  nearest d.negative (d.significand <<< d.exponent.toNat) (1 <<< (-d.exponent).toNat)

/-- The double without what stands before the binary point; a NaN for an infinity or a NaN. -/
def fraction (x : Float) : Float :=
  match decode? x with
  | some d => ofDyadic d.fraction
  | none => Float.ofBits 0x7ff8000000000000

/-- The double without what stands behind the binary point, as an integer. Beyond the bounds it is
the nearer bound, and a NaN gives zero. -/
def toInt64 (x : Float) : Int64 :=
  match decode? x with
  | some d => Int64.ofIntClamp d.truncated
  | none => if x.isNaN then 0 else if x < 0 then Int64.minValue else Int64.maxValue

/-- The integer that a double is: none for a fraction, an infinity or a NaN, or out of range. -/
def whole? (x : Float) : Option Int64 :=
  if x.isFinite ∧ fraction x == 0 ∧ ofInt Int64.minValue.toInt ≤ x ∧
      x < ofInt Int64.maxValue.toInt then
    some (toInt64 x)
  else none

end Binary64
end PullAlgebra
