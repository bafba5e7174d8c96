import PullAlgebra.Source.RowPairs

/-!
# PullAlgebra.Source.CrossJoin

The cross product of two relations: every row of the first with every row of the second, in
row-major order.
-/

namespace PullAlgebra

structure CrossJoin where
  r : Relation
  s : Relation
  schema : Schema
  joined : r.schema.join s.schema = .ok schema
  /-- The place of the next pair. -/
  cursor : PairCursor
  phase : Phase

namespace CrossJoin

/-- The cross product of relations without a common column name. -/
def ofRelations (r s : Relation) : Except TableError CrossJoin :=
  match h : r.schema.join s.schema with
  | .ok schema => .ok ⟨r, s, schema, h, .first, .unopened⟩
  | .error e => .error e

def produce (j : CrossJoin) : Reply CrossJoin (Option Tuple) :=
  match j.cursor.advance j.r.size j.s.size with
  | none => ⟨.ok none, { j with phase := .exhausted }⟩
  | some ((a, b), cursor) => ⟨(joinRows j.r j.s a b).map some, { j with cursor }⟩

instance : Iterator CrossJoin Tuple where
  start j := ⟨.ok (), { j with cursor := .first, phase := .running }⟩
  next j := j.phase.gate "CrossJoin" j fun _ => j.produce
  close j := { j with cursor := .first, phase := .closed }

def budget (j : CrossJoin) : Nat := j.cursor.bound j.r.size j.s.size

theorem budget_produce {j : CrossJoin} {t : Tuple} (h : j.produce.result = .ok (some t)) :
    j.produce.after.budget < j.budget := by
  unfold produce at h ⊢
  split at h
  · cases h
  · rename_i advanced
    exact PairCursor.bound_advance advanced

instance : FiniteIterator CrossJoin Tuple where
  budget := budget
  budget_next h := Phase.lt_of_gate _ h budget_produce

end CrossJoin
end PullAlgebra
