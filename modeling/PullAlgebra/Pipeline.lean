import PullAlgebra.Pipeline.Probe
import PullAlgebra.Pipeline.Projection
import PullAlgebra.Pipeline.Timeline

/-!
# PullAlgebra.Pipeline

A source of tuples under any number of projections, timelines and probes, in any order. A call on a
pipeline is a call on the outermost of them, which calls what is below it.

* `Pipeline.ind`: what holds of all sources and is passed on by each operator above holds of every
  pipeline.
* The instance `FiniteIterator (Pipeline σ) Tuple`: over a finite source a run comes to an end.
-/

namespace PullAlgebra

inductive Pipeline (σ : Type) where
  | source (s : σ)
  | projection (p : Projection (Pipeline σ))
  | timeline (t : Timeline (Pipeline σ) Tuple)
  | probe (p : Probe (Pipeline σ))

namespace Pipeline

variable {σ : Type}

@[elab_as_elim, induction_eliminator]
theorem ind {motive : Pipeline σ → Prop} (source : ∀ s, motive (.source s))
    (projection : ∀ p : Projection (Pipeline σ), motive p.inner → motive (.projection p))
    (timeline : ∀ t : Timeline (Pipeline σ) Tuple, motive t.inner → motive (.timeline t))
    (probe : ∀ p : Probe (Pipeline σ), motive p.inner → motive (.probe p)) : ∀ o, motive o
  | .source s => source s
  | .projection ⟨inner, outputs, schema, phase⟩ =>
    projection ⟨inner, outputs, schema, phase⟩ (ind source projection timeline probe inner)
  | .timeline ⟨inner, log, cursor, phase⟩ =>
    timeline ⟨inner, log, cursor, phase⟩ (ind source projection timeline probe inner)
  | .probe ⟨inner, failsStart, failsNext, starts, nexts, closes⟩ =>
    probe ⟨inner, failsStart, failsNext, starts, nexts, closes⟩
      (ind source projection timeline probe inner)

section Calls

variable [Iterator σ Tuple]

def start : Pipeline σ → Reply (Pipeline σ) Unit
  | .source s => (Iterator.start s).inside .source
  | .projection ⟨inner, outputs, schema, phase⟩ =>
    (Projection.started ⟨inner, outputs, schema, phase⟩ inner.start).inside .projection
  | .timeline ⟨inner, log, cursor, phase⟩ =>
    (Timeline.started ⟨inner, log, cursor, phase⟩ inner.start).inside .timeline
  | .probe ⟨inner, failsStart, failsNext, starts, nexts, closes⟩ =>
    (Probe.startBy ⟨inner, failsStart, failsNext, starts, nexts, closes⟩
      fun _ => inner.start).inside .probe

def next : Pipeline σ → Reply (Pipeline σ) (Option Tuple)
  | .source s => (Iterator.next s).inside .source
  | .projection ⟨inner, outputs, schema, phase⟩ =>
    (Projection.nextBy ⟨inner, outputs, schema, phase⟩ fun _ => inner.next).inside .projection
  | .timeline ⟨inner, log, cursor, phase⟩ =>
    (Timeline.nextBy ⟨inner, log, cursor, phase⟩ fun _ => inner.next).inside .timeline
  | .probe ⟨inner, failsStart, failsNext, starts, nexts, closes⟩ =>
    (Probe.nextBy ⟨inner, failsStart, failsNext, starts, nexts, closes⟩
      fun _ => inner.next).inside .probe

def close : Pipeline σ → Pipeline σ
  | .source s => .source (Iterator.close s)
  | .projection ⟨inner, outputs, schema, phase⟩ =>
    .projection (Projection.closed ⟨inner, outputs, schema, phase⟩ inner.close)
  | .timeline ⟨inner, log, cursor, phase⟩ =>
    .timeline (Timeline.closed ⟨inner, log, cursor, phase⟩ inner.close)
  | .probe ⟨inner, failsStart, failsNext, starts, nexts, closes⟩ =>
    .probe (Probe.closed ⟨inner, failsStart, failsNext, starts, nexts, closes⟩ inner.close)

instance : Iterator (Pipeline σ) Tuple where
  start := start
  next := next
  close := close

end Calls

section Budget

variable [FiniteIterator σ Tuple]

/-- A bound on the tuples that a run still yields: those of the source, and those in the logs. -/
def budget : Pipeline σ → Nat
  | .source s => FiniteIterator.budget s
  | .projection ⟨inner, _, _, _⟩ => inner.budget
  | .timeline ⟨inner, log, cursor, phase⟩ =>
    (log.size - Timeline.ahead (⟨inner, log, cursor, phase⟩ : Timeline (Pipeline σ) Tuple)) +
      inner.budget
  | .probe ⟨inner, _, _, _, _, _⟩ => inner.budget

theorem budget_next (o : Pipeline σ) :
    ∀ t, o.next.result = .ok (some t) → o.next.after.budget < o.budget := by
  induction o with
  | source s => exact fun t h => FiniteIterator.budget_next (s := s) h
  | projection p ih => exact fun t h => Projection.budget_nextBy budget h ih
  | timeline t ih => exact fun a h => Timeline.budget_nextBy budget h ih
  | probe p ih => exact fun t h => Probe.budget_nextBy budget h ih

instance : FiniteIterator (Pipeline σ) Tuple where
  budget := budget
  budget_next h := budget_next _ _ h

end Budget

section Schemas

variable [HasSchema σ]

/-- The schema of the tuples: that of the outermost projection, or else of the source. -/
def schema : Pipeline σ → Schema
  | .source s => HasSchema.schemaOf s
  | .projection p => p.schema
  | .timeline ⟨inner, _, _, _⟩ => inner.schema
  | .probe ⟨inner, _, _, _, _, _⟩ => inner.schema

instance : HasSchema (Pipeline σ) := ⟨schema⟩

/-- The pipeline under a projection to some of its columns. -/
def project (o : Pipeline σ) (outputs : List OutputColumn) : Except TableError (Pipeline σ) :=
  (o.schema.project outputs).map fun schema => .projection ⟨o, outputs, schema, .unopened⟩

end Schemas

/-- The pipeline under a timeline. -/
def logged (o : Pipeline σ) : Pipeline σ := .timeline (.ofInner o)

/-- The pipeline under a probe that fails the chosen calls. -/
def probed (o : Pipeline σ) (failsStart failsNext : Nat → Bool) : Pipeline σ :=
  .probe (.ofInner o failsStart failsNext)

/-- The numbers of calls of `start`, `next` and `close` on each probe, from the outermost on. -/
def probeCounts : Pipeline σ → List (Nat × Nat × Nat)
  | .source _ => []
  | .projection ⟨inner, _, _, _⟩ => inner.probeCounts
  | .timeline ⟨inner, _, _, _⟩ => inner.probeCounts
  | .probe ⟨inner, _, _, starts, nexts, closes⟩ => (starts, nexts, closes) :: inner.probeCounts

end Pipeline
end PullAlgebra
