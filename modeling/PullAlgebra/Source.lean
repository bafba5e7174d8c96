import PullAlgebra.Source.CrossJoin
import PullAlgebra.Source.HashJoin
import PullAlgebra.Source.Scan
import PullAlgebra.Source.ThetaJoin

/-!
# PullAlgebra.Source

Where the rows of a query come from: the scan of a relation, or the join of two relations by one of
three methods.

* `Join.build`: the source that joins two relations by a given method.
* The instance `FiniteIterator Source Tuple`: a run of any source comes to an end.
-/

namespace PullAlgebra

inductive Source where
  | scan (s : Scan)
  | cross (j : CrossJoin)
  | theta (j : ThetaJoin)
  | hash (j : HashJoin)

namespace Source

def ofRelation (r : Relation) : Source := .scan (.ofRelation r)

def start : Source → Reply Source Unit
  | .scan s => (Iterator.start s).inside .scan
  | .cross j => (Iterator.start j).inside .cross
  | .theta j => (Iterator.start j).inside .theta
  | .hash j => (Iterator.start j).inside .hash

def next : Source → Reply Source (Option Tuple)
  | .scan s => (Iterator.next s).inside .scan
  | .cross j => (Iterator.next j).inside .cross
  | .theta j => (Iterator.next j).inside .theta
  | .hash j => (Iterator.next j).inside .hash

def close : Source → Source
  | .scan s => .scan (Iterator.close s)
  | .cross j => .cross (Iterator.close j)
  | .theta j => .theta (Iterator.close j)
  | .hash j => .hash (Iterator.close j)

def budget : Source → Nat
  | .scan s => s.budget
  | .cross j => j.budget
  | .theta j => j.budget
  | .hash j => j.budget

theorem budget_next {o : Source} {t : Tuple} (h : o.next.result = .ok (some t)) :
    o.next.after.budget < o.budget := by
  cases o with
  | scan s => exact FiniteIterator.budget_next (s := s) h
  | cross j => exact FiniteIterator.budget_next (s := j) h
  | theta j => exact FiniteIterator.budget_next (s := j) h
  | hash j => exact FiniteIterator.budget_next (s := j) h

instance : FiniteIterator Source Tuple where
  start := start
  next := next
  close := close
  budget := budget
  budget_next := budget_next

def schema : Source → Schema
  | .scan s => s.relation.schema
  | .cross j => j.schema
  | .theta j => j.schema
  | .hash j => j.schema

instance : HasSchema Source := ⟨schema⟩

end Source

/-- A method to join two relations. -/
inductive Join where
  /-- All pairs of rows. -/
  | cross
  /-- The pairs of rows that satisfy a predicate. -/
  | theta (predicate : Expression)
  /-- The pairs of rows with equal values in pairs of columns. -/
  | hash (keys : List (String × String))
  deriving DecidableEq

namespace Join

def name : Join → String
  | cross => "cross"
  | theta _ => "theta"
  | hash _ => "hash"

/-- The source that joins two relations. -/
def build (join : Join) (r s : Relation) : Except QueryError Source :=
  match join with
  | cross => (liftTable (CrossJoin.ofRelations r s)).map .cross
  | theta predicate => (ThetaJoin.ofRelations r s predicate).map .theta
  | hash keys => (HashJoin.ofRelations r s keys).map .hash

end Join
end PullAlgebra
