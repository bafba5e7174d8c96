import PullAlgebra.Iterator
import PullAlgebra.Relation

/-!
# PullAlgebra.Source.Scan

The rows of a relation, one after the other.
-/

namespace PullAlgebra

structure Scan where
  relation : Relation
  /-- The number of the next row. -/
  row : Nat
  phase : Phase

namespace Scan

def ofRelation (r : Relation) : Scan := ⟨r, 0, .unopened⟩

def produce (s : Scan) : Reply Scan (Option Tuple) :=
  match s.relation.get? s.row with
  | some t => ⟨.ok (some t), { s with row := s.row + 1 }⟩
  | none => ⟨.ok none, { s with phase := .exhausted }⟩

instance : Iterator Scan Tuple where
  start s := ⟨.ok (), { s with row := 0, phase := .running }⟩
  next s := s.phase.gate "RelationScan" s fun _ => s.produce
  close s := { s with row := 0, phase := .closed }

def budget (s : Scan) : Nat := s.relation.size - s.row

theorem budget_produce {s : Scan} {t : Tuple} (h : s.produce.result = .ok (some t)) :
    s.produce.after.budget < s.budget := by
  unfold produce at h ⊢
  split at h
  · rename_i u hu
    have : s.row < s.relation.size := (Array.getElem?_eq_some_iff.1 hu).1
    simp only [budget]
    omega
  · cases h

instance : FiniteIterator Scan Tuple where
  budget := budget
  budget_next h := Phase.lt_of_gate _ h budget_produce

end Scan
end PullAlgebra
