import PullAlgebra.Proofs.Pipeline.Asking
import PullAlgebra.Proofs.Pipeline.History

/-!
# PullAlgebra.Proofs.Pipeline.Nesting

Calls on a pipeline as calls on the operators inside it. One call of `next` on the root is one call
on each operator from the root down to the first that answers by itself, or to the source.

* `asked`: the pipelines inside whose `next` is called.
* `Unprobed`: pipelines of projections and timelines alone; `unprobed_perform` that they stay so.
-/

namespace PullAlgebra

variable {σ : Type}

namespace Probe

/-- Whether `next` calls the inner iterator. -/
def asks (p : Probe σ) : Bool := !p.failsNext (p.nexts + 1)

end Probe

namespace Pipeline

/-- The pipelines inside whose `next` is called by a call of `next`, from the outermost on. -/
def asked : Pipeline σ → List (Pipeline σ)
  | .source _ => []
  | .projection ⟨inner, outputs, schema, phase⟩ =>
    if Projection.asks ⟨inner, outputs, schema, phase⟩ then inner :: inner.asked else []
  | .timeline ⟨inner, log, cursor, phase⟩ =>
    if Timeline.asks ⟨inner, log, cursor, phase⟩ then inner :: inner.asked else []
  | .probe ⟨inner, failsStart, failsNext, starts, nexts, closes⟩ =>
    if Probe.asks ⟨inner, failsStart, failsNext, starts, nexts, closes⟩ then inner :: inner.asked
    else []

theorem asked_projection (p : Projection (Pipeline σ)) :
    asked (.projection p) = if p.asks then p.inner :: p.inner.asked else [] := rfl

theorem asked_timeline (t : Timeline (Pipeline σ) Tuple) :
    asked (.timeline t) = if t.asks then t.inner :: t.inner.asked else [] := rfl

/-- There is no probe in the pipeline. -/
def Unprobed : Pipeline σ → Prop
  | .source _ => True
  | .projection ⟨inner, _, _, _⟩ => inner.Unprobed
  | .timeline ⟨inner, _, _, _⟩ => inner.Unprobed
  | .probe _ => False

section Calls

variable [Iterator σ Tuple]

theorem start_source (s : σ) : start (.source s) = (Iterator.start s).inside .source := rfl

theorem start_projection (p : Projection (Pipeline σ)) :
    start (.projection p) = (Iterator.start p).inside .projection := rfl

theorem start_timeline (t : Timeline (Pipeline σ) Tuple) :
    start (.timeline t) = (Iterator.start t).inside .timeline := rfl

theorem start_probe (p : Probe (Pipeline σ)) :
    start (.probe p) = (Iterator.start p).inside .probe := rfl

theorem next_source (s : σ) : next (.source s) = (Iterator.next s).inside .source := rfl

theorem next_projection (p : Projection (Pipeline σ)) :
    next (.projection p) = (Iterator.next p).inside .projection := rfl

theorem next_timeline (t : Timeline (Pipeline σ) Tuple) :
    next (.timeline t) = (Iterator.next t).inside .timeline := rfl

theorem next_probe (p : Probe (Pipeline σ)) :
    next (.probe p) = (Iterator.next p).inside .probe := rfl

variable {o : Pipeline σ}

theorem unprobed_start (h : o.Unprobed) : o.start.after.Unprobed := by
  induction o with
  | source s => trivial
  | projection p ih =>
    obtain ⟨phase, after⟩ := p.after_start
    rw [start_projection, Reply.inside, after]
    exact ih h
  | timeline t ih =>
    change (Iterator.start t).after.inner.Unprobed
    rw [t.inner_start]
    exact ih h
  | probe p _ => exact False.elim h

theorem unprobed_next (h : o.Unprobed) : o.next.after.Unprobed := by
  induction o with
  | source s => trivial
  | projection p ih =>
    rw [next_projection, Reply.inside]
    rcases p.after_next with after | ⟨phase, after⟩
    · rw [after]
      exact h
    · rw [after]
      exact ih h
  | timeline t ih =>
    change (Iterator.next t).after.inner.Unprobed
    rcases t.inner_next with after | after
    · rw [after]
      exact h
    · rw [after]
      exact ih h
  | probe p _ => exact False.elim h

theorem unprobed_close (h : o.Unprobed) : o.close.Unprobed := by
  induction o with
  | source s => trivial
  | projection p ih => exact ih h
  | timeline t ih => exact ih h
  | probe p _ => exact False.elim h

theorem unprobed_perform (h : o.Unprobed) (c : Command) : (o.perform c).after.Unprobed := by
  cases c with
  | start => exact unprobed_start h
  | next => exact unprobed_next h
  | close => exact unprobed_close h
  | previous =>
    cases o with
    | timeline t =>
      change t.previous.after.inner.Unprobed
      rw [t.inner_previous]
      exact h
    | _ => exact h

theorem unprobed_after (h : o.Unprobed) (history : List Command) : (o.after history).Unprobed :=
  after_induction (P := Unprobed) (fun _ c h => unprobed_perform h c) h history

end Calls

end Pipeline

theorem Fresh.unprobed {o : Pipeline Source} (h : Fresh o) : o.Unprobed := by
  induction h with
  | scan r => trivial
  | join built => trivial
  | project _ projected ih =>
    obtain ⟨schema, -, rfl⟩ := Pipeline.project_eq_ok projected
    exact ih
  | logged _ ih => exact ih

end PullAlgebra
