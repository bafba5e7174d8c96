import PullAlgebra.Binary64
import PullAlgebra.Numeral
import PullAlgebra.Text.DecimalDigit

/-!
# PullAlgebra.Decimal

Decimal numbers `±coefficient · 10^exponent`, the doubles nearest to them, and their notation in
text: digits with an optional sign, point and exponent.

* `toFloat`: the nearest double. An exponent far out of range is settled without forming a power.
* `ofDyadic`: every dyadic number is a decimal one.
* `read?`: the general notation, as in `-12.5e3`, `.5` and `7.`.
* `isPlain`: the notation with digits on both sides of a point, no plus sign and no exponent. It
  takes the digits of all scripts, of which `read?` only knows the ASCII ones.
-/

namespace PullAlgebra

/-- The number `±coefficient · 10^exponent`. -/
structure Decimal where
  negative : Bool
  coefficient : Nat
  exponent : Int
  deriving DecidableEq, Repr

namespace Decimal

/-- The double nearest to a decimal number. A number below `10^(-324)` is nearest to zero, and a
positive coefficient times `10^310` is above every finite double. -/
def toFloat (d : Decimal) : Float :=
  if d.coefficient = 0 ∨ (d.coefficient.log2 / 3 + 1 : Nat) + d.exponent ≤ -324 then
    Binary64.ofMagnitude d.negative 0
  else if 310 ≤ d.exponent then
    Binary64.ofMagnitude d.negative Binary64.infinityBits
  else
    Binary64.nearest d.negative (d.coefficient * Nat.pow 10 d.exponent.toNat)
      (Nat.pow 10 (-d.exponent).toNat)

/-- A dyadic number as a decimal one: `2^(-k)` is `5^k · 10^(-k)`. -/
def ofDyadic (d : Dyadic) : Decimal :=
  if 0 ≤ d.exponent then ⟨d.negative, d.significand <<< d.exponent.toNat, 0⟩
  else ⟨d.negative, d.significand * Nat.pow 5 (-d.exponent).toNat, d.exponent⟩

/-- Reads what may follow the digits: nothing, or `e` or `E` and an integer. -/
def readExponent? : List Char → Option Int
  | [] => some 0
  | c :: rest => if c = 'e' ∨ c = 'E' then Numeral.readInt? rest else none

/-- The digits before and after the point, and what follows them. -/
def splitPoint (cs : List Char) : List Char × List Char × List Char :=
  let whole := cs.takeWhile Char.isDigit
  match cs.dropWhile Char.isDigit with
  | '.' :: rest => (whole, rest.takeWhile Char.isDigit, rest.dropWhile Char.isDigit)
  | rest => (whole, [], rest)

/-- Reads an optional sign, digits with at most one point among or around them, at least one digit
in all, and an optional exponent. -/
def read? (cs : List Char) : Option Decimal :=
  let (negative, body) := Numeral.splitSign cs
  let (whole, places, rest) := splitPoint body
  if whole = [] ∧ places = [] then none
  else (readExponent? rest).map fun e =>
    ⟨negative, Numeral.value (whole ++ places), e - places.length⟩

/-- Whether a text is an optional `-`, digits, a point and digits, with no part left out. -/
def isPlain (cs : List Char) : Bool :=
  let body := match cs with
    | '-' :: rest => rest
    | rest => rest
  match body.dropWhile Text.isDecimalDigit with
  | '.' :: places =>
    decide (body.takeWhile Text.isDecimalDigit ≠ [] ∧ places ≠ []) &&
      places.all Text.isDecimalDigit
  | _ => false

/-- The number as it is, without the zeros at the end of its coefficient. -/
def stripZeros (d : Decimal) : Decimal :=
  if h : d.coefficient ≠ 0 ∧ d.coefficient % 10 = 0 then
    stripZeros ⟨d.negative, d.coefficient / 10, d.exponent + 1⟩
  else d
termination_by d.coefficient
decreasing_by exact Nat.div_lt_self (Nat.pos_of_ne_zero h.1) (by decide)

end Decimal
end PullAlgebra
