import PullAlgebra.Value.Order

/-!
# PullAlgebra.Value.Arithmetic

The four operations on numbers. Integers are computed exactly and must stay in range; the quotient
of integers loses its fractional part. As soon as a double is involved the operation is that of
doubles, and the result must be finite.
-/

namespace PullAlgebra

inductive ArithmeticOp where
  | add
  | subtract
  | multiply
  | divide
  deriving DecidableEq, Repr

namespace ArithmeticOp

def onIntegers? : ArithmeticOp → Int64 → Int64 → Option Int64
  | add => Integer64.add?
  | subtract => Integer64.sub?
  | multiply => Integer64.mul?
  | divide => Integer64.div?

def onFloats : ArithmeticOp → Float → Float → Float
  | add, a, b => a + b
  | subtract, a, b => a - b
  | multiply, a, b => a * b
  | divide, a, b => a / b

/-- The result of the operation, if both values are numbers and there is one. -/
def result? (op : ArithmeticOp) (a b : Value) : Option Value :=
  match Value.numbers? a b with
  | none => none
  | some (.integers a b) => (op.onIntegers? a b).map .integer
  | some (.floats a b) => (some (op.onFloats a b)).filter Float.isFinite |>.map .float

/-- What cannot be done with two values, in the words of a message. -/
def failure (op : ArithmeticOp) (a b : Value) : String :=
  match op with
  | add => s!"add {a.describe} and {b.describe}"
  | subtract => s!"subtract {a.describe} and {b.describe}"
  | multiply => s!"multiply {a.describe} and {b.describe}"
  | divide => s!"divide {a.describe} by {b.describe}"

end ArithmeticOp
end PullAlgebra
