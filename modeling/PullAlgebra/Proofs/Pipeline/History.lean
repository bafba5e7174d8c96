import PullAlgebra.Pipeline
import PullAlgebra.Proofs.Pipeline.Steps
import PullAlgebra.Proofs.Source.Construction
import PullAlgebra.Proofs.Source.Reset

/-!
# PullAlgebra.Proofs.Pipeline.History

Calls on a pipeline in any order, and what stays of a pipeline through all of them.

* `Pipeline.after`, `Pipeline.answers`: the state after a history of calls, and their answers.
* `after_induction`: what every call preserves holds after every history.
* `Pipeline.reset`: the pipeline as it was before its first call; `reset_after` that no history
  changes it.
* `Fresh`: the pipelines that are built from sources by projections and timelines.
-/

namespace PullAlgebra

/-- A call on the root of a pipeline. -/
inductive Command where
  | start
  | next
  | close
  /-- A step back of a timeline. Other pipelines do not have it. -/
  | previous
  deriving DecidableEq, Repr

namespace Pipeline

section Commands

variable {σ : Type} [Iterator σ Tuple]

def perform (o : Pipeline σ) : Command → Reply (Pipeline σ) (Option Tuple)
  | .start => ⟨o.start.result.map fun _ => none, o.start.after⟩
  | .next => o.next
  | .close => ⟨.ok none, o.close⟩
  | .previous =>
    match o with
    | .timeline t => ⟨t.previous.result.map some, .timeline t.previous.after⟩
    | o => ⟨.ok none, o⟩

/-- The pipeline after some calls. -/
def after (o : Pipeline σ) (history : List Command) : Pipeline σ :=
  history.foldl (fun o c => (o.perform c).after) o

/-- What the calls answer. -/
def answers : Pipeline σ → List Command → List (Except QueryError (Option Tuple))
  | _, [] => []
  | o, c :: history => (o.perform c).result :: (o.perform c).after.answers history

theorem after_append (o : Pipeline σ) (history more : List Command) :
    o.after (history ++ more) = (o.after history).after more := List.foldl_append

theorem after_cons (o : Pipeline σ) (c : Command) (history : List Command) :
    o.after (c :: history) = (o.perform c).after.after history := rfl

theorem after_induction {P : Pipeline σ → Prop} (step : ∀ o c, P o → P (o.perform c).after)
    {o : Pipeline σ} (h : P o) (history : List Command) : P (o.after history) := by
  induction history generalizing o with
  | nil => exact h
  | cons c history ih => exact ih (step o c h)

theorem exists_of_mem_answers {o : Pipeline σ} {history : List Command}
    {answer : Except QueryError (Option Tuple)} (h : answer ∈ o.answers history) :
    ∃ earlier c, ((o.after earlier).perform c).result = answer := by
  induction history generalizing o with
  | nil => cases h
  | cons c history ih =>
    rcases List.mem_cons.1 h with rfl | h
    · exact ⟨[], c, rfl⟩
    · obtain ⟨earlier, d, hd⟩ := ih h
      exact ⟨c :: earlier, d, hd⟩

end Commands

/-! ## The fixed part -/

/-- The pipeline as it was before its first call. -/
def reset : Pipeline Source → Pipeline Source
  | .source s => .source s.reset
  | .projection ⟨inner, outputs, schema, _⟩ =>
    .projection ⟨inner.reset, outputs, schema, .unopened⟩
  | .timeline ⟨inner, _, _, _⟩ => .timeline (.ofInner inner.reset)
  | .probe ⟨inner, failsStart, failsNext, _, _, _⟩ =>
    .probe (.ofInner inner.reset failsStart failsNext)

theorem reset_projection (p : Projection (Pipeline Source)) :
    reset (.projection p) = .projection ⟨p.inner.reset, p.outputs, p.schema, .unopened⟩ := rfl

theorem reset_timeline (t : Timeline (Pipeline Source) Tuple) :
    reset (.timeline t) = .timeline (.ofInner t.inner.reset) := rfl

theorem reset_probe (p : Probe (Pipeline Source)) :
    reset (.probe p) = .probe (.ofInner p.inner.reset p.failsStart p.failsNext) := rfl

theorem schema_reset (o : Pipeline Source) : o.reset.schema = o.schema := by
  induction o with
  | source s => exact s.schema_reset
  | projection p _ => rfl
  | timeline t ih => exact ih
  | probe p ih => exact ih

theorem reset_start (o : Pipeline Source) : o.start.after.reset = o.reset := by
  induction o with
  | source s => exact congrArg Pipeline.source s.reset_start
  | projection p ih =>
    obtain ⟨phase, h⟩ := p.after_start
    change reset (.projection (Iterator.start p).after) = _
    rw [h, reset_projection, reset_projection]
    exact congrArg (fun o => Pipeline.projection ⟨o, _, _, _⟩) ih
  | timeline t ih =>
    change reset (.timeline (Iterator.start t).after) = _
    rw [reset_timeline, t.inner_start, reset_timeline]
    exact congrArg (fun o => Pipeline.timeline (.ofInner o)) ih
  | probe p ih =>
    obtain ⟨inner, starts, h, asked⟩ := p.after_start
    change reset (.probe (Iterator.start p).after) = _
    rw [h, reset_probe, reset_probe]
    rcases asked with rfl | rfl
    · rfl
    · exact congrArg (fun o => Pipeline.probe (.ofInner o _ _)) ih

theorem reset_next (o : Pipeline Source) : o.next.after.reset = o.reset := by
  induction o with
  | source s => exact congrArg Pipeline.source s.reset_next
  | projection p ih =>
    change reset (.projection (Iterator.next p).after) = _
    rcases p.after_next with h | ⟨phase, h⟩
    · rw [h]
    · rw [h, reset_projection, reset_projection]
      exact congrArg (fun o => Pipeline.projection ⟨o, _, _, _⟩) ih
  | timeline t ih =>
    change reset (.timeline (Iterator.next t).after) = _
    rcases t.inner_next with h | h
    · rw [reset_timeline, h, reset_timeline]
    · rw [reset_timeline, h, reset_timeline]
      exact congrArg (fun o => Pipeline.timeline (.ofInner o)) ih
  | probe p ih =>
    obtain ⟨inner, nexts, h, asked⟩ := p.after_next
    change reset (.probe (Iterator.next p).after) = _
    rw [h, reset_probe, reset_probe]
    rcases asked with rfl | rfl
    · rfl
    · exact congrArg (fun o => Pipeline.probe (.ofInner o _ _)) ih

theorem reset_close (o : Pipeline Source) : o.close.reset = o.reset := by
  induction o with
  | source s => exact congrArg Pipeline.source s.reset_close
  | projection p ih =>
    change Pipeline.projection ⟨p.inner.close.reset, _, _, _⟩ = _
    rw [ih]
    rfl
  | timeline t ih => exact congrArg (fun o => Pipeline.timeline (.ofInner o)) ih
  | probe p ih =>
    exact congrArg (fun o => Pipeline.probe (.ofInner o p.failsStart p.failsNext)) ih

theorem reset_perform (o : Pipeline Source) (c : Command) :
    (o.perform c).after.reset = o.reset := by
  cases c with
  | start => exact o.reset_start
  | next => exact o.reset_next
  | close => exact o.reset_close
  | previous =>
    cases o with
    | timeline t =>
      change reset (.timeline t.previous.after) = _
      rw [reset_timeline, t.inner_previous, reset_timeline]
    | _ => rfl

theorem reset_after (o : Pipeline Source) (history : List Command) :
    (o.after history).reset = o.reset :=
  after_induction (P := fun u => u.reset = o.reset) (fun u c h => (u.reset_perform c).trans h) rfl
    history

theorem schema_after (o : Pipeline Source) (history : List Command) :
    (o.after history).schema = o.schema := by
  rw [← schema_reset, reset_after, schema_reset]

end Pipeline

/-! ## Pipelines as they are built -/

/-- A source of a relation or of a join, under projections and timelines. -/
inductive Fresh : Pipeline Source → Prop where
  | scan (r : Relation) : Fresh (.source (.ofRelation r))
  | join {join : Join} {r s : Relation} {source : Source} :
      join.build r s = .ok source → Fresh (.source source)
  | project {o o' : Pipeline Source} {outputs : List OutputColumn} :
      Fresh o → o.project outputs = .ok o' → Fresh o'
  | logged {o : Pipeline Source} : Fresh o → Fresh o.logged

theorem Pipeline.project_eq_ok {o o' : Pipeline Source} {outputs : List OutputColumn}
    (h : o.project outputs = .ok o') :
    ∃ schema, o.schema.project outputs = .ok schema ∧
      o' = .projection ⟨o, outputs, schema, .unopened⟩ := by
  obtain ⟨schema, hs, rfl⟩ := map_eq_ok h
  exact ⟨schema, hs, rfl⟩

theorem reset_of_build {join : Join} {r s : Relation} {source : Source}
    (h : join.build r s = .ok source) : source.reset = source := by
  cases join with
  | cross =>
    obtain ⟨j, hj, rfl⟩ := map_eq_ok h
    obtain ⟨schema, joined, rfl⟩ := CrossJoin.exists_of_ofRelations (mapError_eq_ok hj)
    rfl
  | theta predicate =>
    obtain ⟨j, hj, rfl⟩ := map_eq_ok h
    obtain ⟨schema, joined, q, -, rfl⟩ := ThetaJoin.exists_of_ofRelations hj
    rfl
  | hash keys =>
    obtain ⟨j, hj, rfl⟩ := map_eq_ok h
    obtain ⟨schema, joined, pairs, -, rfl⟩ := HashJoin.exists_of_ofRelations hj
    rfl

theorem Fresh.reset_eq {o : Pipeline Source} (h : Fresh o) : o.reset = o := by
  induction h with
  | scan r => rfl
  | join built => exact congrArg Pipeline.source (reset_of_build built)
  | @project o _ outputs _ projected ih =>
    obtain ⟨schema, -, rfl⟩ := Pipeline.project_eq_ok projected
    exact congrArg (fun o => Pipeline.projection ⟨o, _, _, _⟩) ih
  | logged _ ih => exact congrArg Pipeline.logged ih

end PullAlgebra
