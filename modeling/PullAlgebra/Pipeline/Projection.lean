import PullAlgebra.Iterator
import PullAlgebra.Tuple

/-!
# PullAlgebra.Pipeline.Projection

A choice of columns from the tuples of an inner iterator. A call that fails in the inner iterator
leaves the phase of the projection as it was.
-/

namespace PullAlgebra

structure Projection (σ : Type) where
  inner : σ
  outputs : List OutputColumn
  schema : Schema
  phase : Phase

namespace Projection

variable {σ : Type}

/-- The answer to `start` after the inner iterator's answer. -/
@[inline] def started (p : Projection σ) (reply : Reply σ Unit) : Reply (Projection σ) Unit :=
  match reply with
  | ⟨.ok (), inner⟩ => ⟨.ok (), { p with inner, phase := .running }⟩
  | ⟨.error e, inner⟩ => ⟨.error e, { p with inner }⟩

/-- The answer to `next` after the inner iterator's answer. -/
@[inline] def yielded (p : Projection σ) (reply : Reply σ (Option Tuple)) :
    Reply (Projection σ) (Option Tuple) :=
  match reply with
  | ⟨.ok (some t), inner⟩ => ⟨(liftTable (t.project p.outputs)).map some, { p with inner }⟩
  | ⟨.ok none, inner⟩ => ⟨.ok none, { p with inner, phase := .exhausted }⟩
  | ⟨.error e, inner⟩ => ⟨.error e, { p with inner }⟩

/-- The answer to `next`; the inner iterator is asked only while the projection is running. -/
@[inline] def nextBy (p : Projection σ) (inner : Unit → Reply σ (Option Tuple)) :
    Reply (Projection σ) (Option Tuple) :=
  p.phase.gate "ProjectionExecutor" p fun _ => p.yielded (inner ())

/-- The projection after the inner iterator was closed. -/
@[inline] def closed (p : Projection σ) (inner : σ) : Projection σ :=
  { p with inner, phase := .closed }

instance [Iterator σ Tuple] : Iterator (Projection σ) Tuple where
  start p := p.started (Iterator.start p.inner)
  next p := p.nextBy fun _ => Iterator.next p.inner
  close p := p.closed (Iterator.close p.inner)

theorem budget_nextBy {p : Projection σ} {inner : Unit → Reply σ (Option Tuple)} {t : Tuple}
    (budget : σ → Nat) (h : (p.nextBy inner).result = .ok (some t))
    (falls : ∀ u, (inner ()).result = .ok (some u) → budget (inner ()).after < budget p.inner) :
    budget (p.nextBy inner).after.inner < budget p.inner := by
  refine Phase.lt_of_gate (fun p : Projection σ => budget p.inner) h ?_
  intro hy
  unfold yielded at hy ⊢
  split at hy
  · rename_i u after hr
    have := falls u
    rw [hr] at this
    exact this rfl
  · cases hy
  · cases hy

instance [FiniteIterator σ Tuple] : FiniteIterator (Projection σ) Tuple where
  budget p := FiniteIterator.budget p.inner
  budget_next h := budget_nextBy _ h fun _ => FiniteIterator.budget_next

end Projection
end PullAlgebra
