import PullAlgebra.Decimal

/-!
# PullAlgebra.Decimal.Shortest

The decimal number with the fewest digits that reads back as a given double. On the grid of numbers
with `n` digits only the two neighbours of the exact value can be nearest, so `n = 1, 2, …` are
tried in turn and the first grid with a neighbour that reads back wins. When both read back, the
nearer one is taken, and the upper one when both are as near.
-/

namespace PullAlgebra
namespace Decimal

/-- The neighbours of a decimal number on the grid with `drop` digits fewer, the nearer one first. -/
def neighbours (exact : Decimal) (drop : Nat) : Decimal × Decimal :=
  let unit := Nat.pow 10 drop
  let below := exact.coefficient / unit
  let lower : Decimal := ⟨exact.negative, below, exact.exponent + drop⟩
  let upper : Decimal := ⟨exact.negative, below + 1, exact.exponent + drop⟩
  if 2 * (exact.coefficient % unit) < unit then (lower, upper) else (upper, lower)

/-- The neighbour to take on one grid, if any reads back as `x`. -/
def onGrid? (x : Float) (exact : Decimal) (drop : Nat) : Option Decimal :=
  let (near, far) := neighbours exact drop
  if near.toFloat = x then some near
  else if far.toFloat = x then some far
  else none

/-- Tries the grids with `drop` digits fewer than the exact number, `drop - 1` fewer, and so on. -/
def shortestFrom (x : Float) (exact : Decimal) : Nat → Decimal
  | 0 => exact
  | drop + 1 => (onGrid? x exact (drop + 1)).getD (shortestFrom x exact drop)

/-- The shortest decimal number for a finite double, without zeros at its end; none for an infinity
or a NaN. -/
def shortest? (x : Float) : Option Decimal :=
  (Binary64.decode? x).map fun d =>
    let exact := ofDyadic d
    stripZeros (shortestFrom x exact ((Numeral.digits exact.coefficient).length - 1))

end Decimal
end PullAlgebra
