import PullAlgebra.TableError
import PullAlgebra.Value.Arithmetic

/-!
# PullAlgebra.QueryError

What can go wrong while a query is set up or run, and the message for each cause. An operator goes
through phases: it is unopened, open, exhausted or closed.
-/

namespace PullAlgebra

inductive Phase where
  | unopened
  | running
  | exhausted
  | closed
  deriving DecidableEq, Repr, Inhabited

def Phase.name : Phase → String
  | unopened => "Unopened"
  | running => "Open"
  | exhausted => "Exhausted"
  | closed => "Closed"

/-- The calls on an operator that can fail. -/
inductive Call where
  | start
  | next
  | previous
  deriving DecidableEq, Repr

def Call.name : Call → String
  | start => "open"
  | next => "next"
  | previous => "previous"

inductive LogicalOp where
  | and
  | or
  deriving DecidableEq, Repr

def LogicalOp.name : LogicalOp → String
  | and => "And"
  | or => "Or"

inductive QueryError where
  /-- An operator was called in a phase that does not allow the call. -/
  | invalidState (operator : String) (call : Call) (phase : Phase)
  /-- An expression or a key names a column that the input lacks. -/
  | columnNotFound (name : String)
  /-- Two key columns have different types. -/
  | keyTypesDiffer (left : String) (leftType : ColumnType) (right : String) (rightType : ColumnType)
  | noArithmetic (op : ArithmeticOp) (a b : Value)
  | noComparison (a b : Value)
  | noLogic (op : LogicalOp) (a b : Value)
  | noNegation (v : Value)
  /-- A predicate has a value that is not a boolean. -/
  | notBoolean (v : Value)
  /-- An expression was evaluated before its columns were bound. -/
  | unbound (name : String)
  /-- A bound column lies beyond the fields of the tuple. -/
  | noField (index : Nat)
  /-- A row number lies beyond the rows of a relation or the items of a log. -/
  | noRow (index : Nat)
  /-- A bucket number lies beyond the buckets of a hash table. -/
  | noBucket (index : Nat)
  /-- A hash join was asked for without key columns. -/
  | noKeys
  /-- A probe was told to fail this call. -/
  | injected (call : Call) (count : Nat)
  | table (e : TableError)
  deriving DecidableEq

namespace QueryError

def message : QueryError → String
  | invalidState operator call phase =>
    s!"invalid state: cannot call {call.name}() on {operator} while {phase.name}"
  | columnNotFound name => s!"column not found: {name}"
  | keyTypesDiffer left leftType right rightType =>
    s!"type mismatch: cannot join {left} ({leftType.name}) with {right} ({rightType.name})"
  | noArithmetic op a b => s!"type mismatch: Cannot {op.failure a b}"
  | noComparison a b => s!"type mismatch: Cannot compare {a.describe} and {b.describe}"
  | noLogic op a b =>
    s!"type mismatch: Cannot apply {op.name} to {a.describe} and {b.describe}"
  | noNegation v => s!"type mismatch: Cannot apply NOT to {v.describe}"
  | notBoolean v => s!"type mismatch: Predicate produced {v.describe}, expected a boolean"
  | unbound name => s!"execution error: Unbound column: {name}. Call bind() first."
  | noField index => s!"execution error: Column index {index} out of bounds"
  | noRow index => s!"execution error: Row index {index} out of bounds"
  | noBucket index => s!"execution error: Bucket index {index} out of bounds"
  | noKeys => "execution error: hash join needs at least one key pair"
  | injected call count => s!"execution error: probe {call.name} {count}"
  | table e => e.message

end QueryError

/-- The result of an operation on schemas or tuples within a query. -/
def liftTable {α : Type} : Except TableError α → Except QueryError α := Except.mapError .table

/-- Whether an operator in this phase produces rows; it must have been opened and not closed. -/
def Phase.producing (phase : Phase) (operator : String) : Except QueryError Bool :=
  match phase with
  | running => .ok true
  | exhausted => .ok false
  | unopened | closed => .error (.invalidState operator .next phase)

end PullAlgebra
