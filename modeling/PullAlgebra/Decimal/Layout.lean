import PullAlgebra.Decimal.Shortest

/-!
# PullAlgebra.Decimal.Layout

How a decimal number is laid out in text: all digits around a point, or one digit before the point
and a power of ten after an `e`. Two layouts are in use, `plain` for the text of a value and
`described` for its description in messages.
-/

namespace PullAlgebra
namespace Decimal

/-- The choices that a layout leaves open. -/
structure Layout where
  /-- The powers of ten of the leading digit that are written without an exponent. -/
  positional : Int → Bool
  /-- Whether a whole number is followed by `.0` when it is written without an exponent. -/
  pointed : Bool

/-- Never an exponent, and no point in whole numbers: `1`, `0.00001`. -/
def Layout.plain : Layout := ⟨fun _ => true, false⟩

/-- An exponent below a ten-thousandth and from `10^16` on, and always a point otherwise: `1.0`,
`1e-5`. -/
def Layout.described : Layout := ⟨fun e => decide (-4 ≤ e ∧ e < 16), true⟩

/-- Digits around a point that stands after `point` of them, with zeros where there is none. -/
def positionalText (pointed : Bool) (ds : List Char) (point : Int) : List Char :=
  if point ≤ 0 then '0' :: '.' :: (List.replicate (-point).toNat '0' ++ ds)
  else if point < ds.length then ds.take point.toNat ++ '.' :: ds.drop point.toNat
  else
    ds ++ List.replicate (point.toNat - ds.length) '0' ++ if pointed then ['.', '0'] else []

/-- One digit, the others after a point, and the power of ten of the first one. -/
def scientificText (ds : List Char) (power : Int) : List Char :=
  let fraction := if ds.length ≤ 1 then [] else '.' :: ds.drop 1
  ds.take 1 ++ fraction ++ 'e' :: Numeral.ofInt power

/-- The text of a decimal number. Zero has its leading digit at the power zero. -/
def Layout.write (layout : Layout) (d : Decimal) : List Char :=
  let ds := Numeral.digits d.coefficient
  let point : Int := if d.coefficient = 0 then 1 else ds.length + d.exponent
  let body :=
    if layout.positional (point - 1) then positionalText layout.pointed ds point
    else scientificText ds (point - 1)
  if d.negative then '-' :: body else body

/-- The text of a double: its shortest digits, or the name of what is not a number. -/
def Layout.ofFloat (layout : Layout) (x : Float) : String :=
  match shortest? x with
  | some d => String.ofList (layout.write d)
  | none => if x.isNaN then "NaN" else if x < 0 then "-inf" else "inf"

end Decimal
end PullAlgebra
