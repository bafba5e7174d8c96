import PullAlgebra.Value

/-!
# PullAlgebra.Value.Order

The comparison of values. Booleans, strings and numbers compare among their own kind: false before
true, strings by their code points, two integers exactly, and an integer with a double after
rounding it to the nearest double. A NaN compares with nothing.
-/

namespace PullAlgebra

/-- Two numbers brought to a common kind. -/
inductive NumberPair where
  | integers (a b : Int64)
  | floats (a b : Float)

def compareFloats? (a b : Float) : Option Ordering :=
  if a < b then some .lt else if b < a then some .gt else if a == b then some .eq else none

def NumberPair.compare? : NumberPair → Option Ordering
  | integers a b => some (compare a b)
  | floats a b => compareFloats? a b

namespace Value

/-- Two numbers as integers if both are, and as doubles otherwise. -/
def numbers? : Value → Value → Option NumberPair
  | .integer a, .integer b => some (.integers a b)
  | .integer a, .float b => some (.floats (Binary64.ofInt a.toInt) b)
  | .float a, .integer b => some (.floats a (Binary64.ofInt b.toInt))
  | .float a, .float b => some (.floats a b)
  | _, _ => none

def compare? : Value → Value → Option Ordering
  | .boolean a, .boolean b => some (compare a b)
  | .string a, .string b => some (compare a b)
  | a, b => (numbers? a b).bind NumberPair.compare?

end Value
end PullAlgebra
