import PullAlgebra.QueryError
import PullAlgebra.Tuple

/-!
# PullAlgebra.Expression

Expressions over the columns of a row. Columns are named until `bind` replaces each name by its
position in a schema; after that `evaluate` finds the values of a row by position. Both operands of
an operation are evaluated, the left one first, and the first failure is the answer.
-/

namespace PullAlgebra

inductive ComparisonOp where
  | eq
  | notEq
  | lt
  | ltEq
  | gt
  | gtEq
  deriving DecidableEq, Repr

/-- Whether the comparison holds of two values in the given order. -/
def ComparisonOp.holds : ComparisonOp → Ordering → Bool
  | eq, o => o == .eq
  | notEq, o => o != .eq
  | lt, o => o == .lt
  | ltEq, o => o != .gt
  | gt, o => o == .gt
  | gtEq, o => o != .lt

def LogicalOp.apply : LogicalOp → Bool → Bool → Bool
  | and, a, b => a && b
  | or, a, b => a || b

inductive BinaryOp where
  | arithmetic (op : ArithmeticOp)
  | comparison (op : ComparisonOp)
  | logical (op : LogicalOp)
  deriving DecidableEq, Repr

/-- The value of an operation on two values. -/
def BinaryOp.apply (op : BinaryOp) (a b : Value) : Except QueryError Value :=
  match op with
  | arithmetic op =>
    match op.result? a b with
    | some v => .ok v
    | none => .error (.noArithmetic op a b)
  | comparison op =>
    match a.compare? b with
    | some o => .ok (.boolean (op.holds o))
    | none => .error (.noComparison a b)
  | logical op =>
    match a, b with
    | .boolean a, .boolean b => .ok (.boolean (op.apply a b))
    | _, _ => .error (.noLogic op a b)

inductive Expression where
  | column (name : String)
  | bound (index : Nat)
  | literal (v : Value)
  | binary (op : BinaryOp) (left right : Expression)
  | not (e : Expression)
  deriving DecidableEq

namespace Expression

/-- The expression with each column name replaced by the column's position. -/
def bind (s : Schema) : Expression → Except QueryError Expression
  | column name =>
    match s.indexOf? name with
    | some i => .ok (bound i)
    | none => .error (.columnNotFound name)
  | bound i => .ok (bound i)
  | literal v => .ok (literal v)
  | binary op left right => do
    let left ← bind s left
    let right ← bind s right
    return binary op left right
  | not e => return not (← bind s e)

def negate : Value → Except QueryError Value
  | .boolean b => .ok (.boolean (!b))
  | v => .error (.noNegation v)

/-- The value of the expression on a tuple whose fields are in the order of the bound schema. -/
def evaluate (t : Tuple) : Expression → Except QueryError Value
  | column name => .error (.unbound name)
  | bound i =>
    match t.fields[i]? with
    | some f => .ok f.value
    | none => .error (.noField i)
  | literal v => .ok v
  | binary op left right => do
    let a ← evaluate t left
    let b ← evaluate t right
    op.apply a b
  | not e => do negate (← evaluate t e)

/-- Whether the tuple satisfies the expression, which must have a boolean value. -/
def test (t : Tuple) (e : Expression) : Except QueryError Bool :=
  match evaluate t e with
  | .ok (.boolean b) => .ok b
  | .ok v => .error (.notBoolean v)
  | .error e => .error e

/-- The expression that two columns are equal. -/
def columnsEqual (left right : String) : Expression :=
  binary (.comparison .eq) (column left) (column right)

end Expression
end PullAlgebra
