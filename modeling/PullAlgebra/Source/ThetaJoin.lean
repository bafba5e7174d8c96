import PullAlgebra.Expression
import PullAlgebra.Source.RowPairs

/-!
# PullAlgebra.Source.ThetaJoin

The pairs of rows of two relations that satisfy a predicate, in row-major order. A pair on which the
predicate fails is reported as an error once; the run can go on with the pair after it.
-/

namespace PullAlgebra

structure ThetaJoin where
  r : Relation
  s : Relation
  schema : Schema
  joined : r.schema.join s.schema = .ok schema
  /-- The predicate, bound to the joined schema. -/
  predicate : Expression
  /-- The place of the next pair. -/
  cursor : PairCursor
  phase : Phase

namespace ThetaJoin

/-- The join of relations without a common column name by a predicate over the columns of both. -/
def ofRelations (r s : Relation) (predicate : Expression) : Except QueryError ThetaJoin :=
  match h : r.schema.join s.schema with
  | .error e => .error (.table e)
  | .ok schema =>
    match predicate.bind schema with
    | .error e => .error e
    | .ok bound => .ok ⟨r, s, schema, h, bound, .first, .unopened⟩

/-- The first pair from a cursor on that satisfies the predicate or fails, and the cursor behind
it. -/
def seek (r s : Relation) (predicate : Expression) (cursor : PairCursor) :
    Except QueryError (Option Tuple) × PairCursor :=
  match h : cursor.advance r.size s.size with
  | none => (.ok none, cursor)
  | some ((a, b), after) =>
    have := PairCursor.bound_advance h
    match joinRows r s a b with
    | .error e => (.error e, after)
    | .ok t =>
      match predicate.test t with
      | .error e => (.error e, after)
      | .ok true => (.ok (some t), after)
      | .ok false => seek r s predicate after
termination_by cursor.bound r.size s.size

def produce (j : ThetaJoin) : Reply ThetaJoin (Option Tuple) :=
  match seek j.r j.s j.predicate j.cursor with
  | (.ok none, cursor) => ⟨.ok none, { j with cursor, phase := .exhausted }⟩
  | (result, cursor) => ⟨result, { j with cursor }⟩

instance : Iterator ThetaJoin Tuple where
  start j := ⟨.ok (), { j with cursor := .first, phase := .running }⟩
  next j := j.phase.gate "ThetaJoin" j fun _ => j.produce
  close j := { j with cursor := .first, phase := .closed }

def budget (j : ThetaJoin) : Nat := j.cursor.bound j.r.size j.s.size

theorem bound_seek {r s : Relation} {predicate : Expression} {cursor : PairCursor} {t : Tuple}
    (h : (seek r s predicate cursor).1 = .ok (some t)) :
    (seek r s predicate cursor).2.bound r.size s.size < cursor.bound r.size s.size := by
  fun_induction seek r s predicate cursor with
  | case1 => cases h
  | case2 => cases h
  | case3 => cases h
  | case4 _ _ _ _ _ lt => exact lt
  | case5 _ _ _ _ _ lt _ _ _ ih => exact Nat.lt_trans (ih h) lt

theorem budget_produce {j : ThetaJoin} {t : Tuple} (h : j.produce.result = .ok (some t)) :
    j.produce.after.budget < j.budget := by
  have found : (seek j.r j.s j.predicate j.cursor).1 = .ok (some t) := by
    unfold produce at h
    split at h
    · cases h
    · rename_i hs; rw [hs]; exact h
  have := bound_seek found
  unfold produce
  split
  · rename_i hs; rw [hs] at found; cases found
  · rename_i hs
    rw [hs] at this
    exact this

instance : FiniteIterator ThetaJoin Tuple where
  budget := budget
  budget_next h := Phase.lt_of_gate _ h budget_produce

end ThetaJoin
end PullAlgebra
