import PullAlgebra.Iterator
import PullAlgebra.Relation

/-!
# PullAlgebra.Source.RowPairs

The pairs of rows of two relations in row-major order: all pairs of the first outer row come before
any pair of the second.

* `PairCursor.advance`: the pair at a cursor, and the cursor behind it.
* `joinRows`: the combined tuple of a pair.
-/

namespace PullAlgebra

/-- A place among the pairs: the numbers of the outer and of the inner row of the next pair. -/
structure PairCursor where
  outer : Nat
  inner : Nat
  deriving DecidableEq, Repr

namespace PairCursor

def first : PairCursor := ⟨0, 0⟩

/-- The cursor one pair further on. -/
def behind (innerRows : Nat) (c : PairCursor) : PairCursor :=
  if innerRows ≤ c.inner + 1 then ⟨c.outer + 1, 0⟩ else ⟨c.outer, c.inner + 1⟩

/-- The pair at the cursor, and the cursor behind it. There is none after the last outer row, and
without inner rows there is none at all. -/
def advance (outerRows innerRows : Nat) (c : PairCursor) : Option ((Nat × Nat) × PairCursor) :=
  if outerRows ≤ c.outer ∨ innerRows = 0 then none
  else some ((c.outer, c.inner), c.behind innerRows)

/-- A bound on the pairs that are still to come. -/
def bound (outerRows innerRows : Nat) (c : PairCursor) : Nat :=
  (outerRows - c.outer) * (innerRows + 1) + (innerRows - c.inner)

theorem bound_behind {outerRows : Nat} {c : PairCursor} (more : c.outer < outerRows)
    (innerRows : Nat) : (c.behind innerRows).bound outerRows innerRows < c.bound outerRows innerRows := by
  unfold bound behind
  split
  · have split : outerRows - c.outer = outerRows - (c.outer + 1) + 1 := by omega
    rw [split, Nat.add_mul]
    dsimp only
    omega
  · dsimp only
    omega

theorem bound_advance {outerRows innerRows : Nat} {c after : PairCursor} {pair : Nat × Nat}
    (h : c.advance outerRows innerRows = some (pair, after)) :
    after.bound outerRows innerRows < c.bound outerRows innerRows := by
  unfold advance at h
  split at h
  · cases h
  · rename_i more
    cases h
    exact bound_behind (by omega) innerRows

end PairCursor

/-- Row `i` of `r` and row `j` of `s` as one tuple. -/
def joinRows (r s : Relation) (i j : Nat) : Except QueryError Tuple :=
  match r.get? i with
  | none => .error (.noRow i)
  | some t =>
    match s.get? j with
    | none => .error (.noRow j)
    | some u => liftTable (t.join u)

end PullAlgebra
