import PullAlgebra.Proofs.Pipeline.Nesting
import PullAlgebra.Proofs.Relation.OneColumn

/-!
# PullAlgebra.Proofs.Pipeline.Faults

Failures from below. At the bottom of a stack of projections and timelines stands an iterator whose
calls may fail and then leave it as it was. Each wrapper calls what is inside before it changes
anything of its own, so a failure comes out at the top unchanged and no wrapper shows a trace of it.
The caller can go on as if the call had not been made.

* `Pipeline.start_of_fails`, `Pipeline.next_of_fails`: one failure, of whatever iterator.
* `Pipeline.start_map`, `next_map`, `close_map`, `previous_map`: a stack answers as another one with
  the same wrappers whose bottom answers alike.
* `Faulty`: an iterator with failures planned for some of its calls; `Pipeline.bare` the stack
  without them.
* `failed_calls_leave_no_trace`: the calls that did not fail give what they give without failures.
-/

namespace PullAlgebra

namespace Pipeline

variable {σ τ : Type}

/-- The iterator at the bottom. -/
def base : Pipeline σ → σ
  | .source s => s
  | .projection ⟨inner, _, _, _⟩ => inner.base
  | .timeline ⟨inner, _, _, _⟩ => inner.base
  | .probe ⟨inner, _, _, _, _, _⟩ => inner.base

/-- Whether a call of `next` on the root calls `next` on the iterator at the bottom. -/
def asksBase : Pipeline σ → Bool
  | .source _ => true
  | .projection ⟨inner, outputs, schema, phase⟩ =>
    Projection.asks ⟨inner, outputs, schema, phase⟩ && inner.asksBase
  | .timeline ⟨inner, log, cursor, phase⟩ =>
    Timeline.asks ⟨inner, log, cursor, phase⟩ && inner.asksBase
  | .probe ⟨inner, failsStart, failsNext, starts, nexts, closes⟩ =>
    Probe.asks ⟨inner, failsStart, failsNext, starts, nexts, closes⟩ && inner.asksBase

/-- The same operators over another iterator. -/
def map (f : σ → τ) : Pipeline σ → Pipeline τ
  | .source s => .source (f s)
  | .projection ⟨inner, outputs, schema, phase⟩ => .projection ⟨inner.map f, outputs, schema, phase⟩
  | .timeline ⟨inner, log, cursor, phase⟩ => .timeline ⟨inner.map f, log, cursor, phase⟩
  | .probe ⟨inner, failsStart, failsNext, starts, nexts, closes⟩ =>
    .probe ⟨inner.map f, failsStart, failsNext, starts, nexts, closes⟩

theorem map_timeline (f : σ → τ) (t : Timeline (Pipeline σ) Tuple) :
    map f (.timeline t) = .timeline (t.mapInner (map f)) := rfl

theorem asksBase_projection (p : Projection (Pipeline σ)) :
    asksBase (.projection p) = (p.asks && p.inner.asksBase) := rfl

theorem asksBase_timeline (t : Timeline (Pipeline σ) Tuple) :
    asksBase (.timeline t) = (t.asks && t.inner.asksBase) := rfl

theorem map_map_const {s : σ} (f : σ → τ) {o : Pipeline σ} (same : f s = f o.base) :
    (o.map fun _ => s).map f = o.map f := by
  induction o with
  | source _ => exact congrArg Pipeline.source same
  | projection p ih =>
    exact congrArg (fun o => Pipeline.projection ⟨o, p.outputs, p.schema, p.phase⟩) (ih same)
  | timeline t ih =>
    exact congrArg (fun o => Pipeline.timeline ⟨o, t.log, t.cursor, t.phase⟩) (ih same)
  | probe p ih =>
    exact congrArg (fun o => Pipeline.probe ⟨o, p.failsStart, p.failsNext, p.starts, p.nexts,
      p.closes⟩) (ih same)

/-! ## One failure -/

section Failure

variable [Iterator σ Tuple] {o : Pipeline σ} {s : σ} {e : QueryError}

theorem start_of_fails (h : o.Unprobed) (fails : Iterator.start o.base = ⟨.error e, s⟩) :
    o.start = ⟨.error e, o.map fun _ => s⟩ := by
  induction o with
  | source _ =>
    rw [start_source]
    exact congrArg (Reply.inside Pipeline.source) fails
  | projection p ih =>
    rw [start_projection, Projection.start_of_error (ih h fails)]
    rfl
  | timeline t ih =>
    rw [start_timeline, Timeline.start_of_error (ih h fails)]
    rfl
  | probe p _ => exact False.elim h

theorem next_of_fails (h : o.Unprobed) (asked : o.asksBase)
    (fails : Iterator.next o.base = ⟨.error e, s⟩) : o.next = ⟨.error e, o.map fun _ => s⟩ := by
  induction o with
  | source _ =>
    rw [next_source]
    exact congrArg (Reply.inside Pipeline.source) fails
  | projection p ih =>
    rw [asksBase_projection, Bool.and_eq_true_iff] at asked
    have below : Iterator.next p.inner = _ := ih h asked.2 fails
    rw [next_projection, Projection.next_of_asks asked.1, below]
    rfl
  | timeline t ih =>
    rw [asksBase_timeline, Bool.and_eq_true_iff] at asked
    have below : Iterator.next t.inner = _ := ih h asked.2 fails
    rw [next_timeline, Timeline.next_of_asks asked.1, below]
    rfl
  | probe p _ => exact False.elim h

end Failure

/-! ## Another iterator at the bottom -/

section Map

variable [Iterator σ Tuple] [Iterator τ Tuple] {o : Pipeline σ} {f : σ → τ}

theorem start_map (h : o.Unprobed)
    (same : (Iterator.start o.base).inside f = Iterator.start (f o.base)) :
    o.start.inside (map f) = (o.map f).start := by
  induction o with
  | source s => exact congrArg (Reply.inside Pipeline.source) same
  | projection p ih =>
    exact congrArg (Reply.inside Pipeline.projection)
      (Projection.start_mapInner (f := map f) (ih h same))
  | timeline t ih =>
    exact congrArg (Reply.inside Pipeline.timeline)
      (Timeline.start_mapInner (f := map f) (ih h same))
  | probe p _ => exact False.elim h

theorem next_map (h : o.Unprobed)
    (same : o.asksBase → (Iterator.next o.base).inside f = Iterator.next (f o.base)) :
    o.next.inside (map f) = (o.map f).next := by
  induction o with
  | source s => exact congrArg (Reply.inside Pipeline.source) (same rfl)
  | projection p ih =>
    refine congrArg (Reply.inside Pipeline.projection) (Projection.next_mapInner (f := map f) ?_)
    intro asks
    exact ih h fun below => same (by rw [asksBase_projection, asks, below]; rfl)
  | timeline t ih =>
    refine congrArg (Reply.inside Pipeline.timeline) (Timeline.next_mapInner (f := map f) ?_)
    intro asks
    exact ih h fun below => same (by rw [asksBase_timeline, asks, below]; rfl)
  | probe p _ => exact False.elim h

theorem close_map (h : o.Unprobed) (same : f (Iterator.close o.base) = Iterator.close (f o.base)) :
    o.close.map f = (o.map f).close := by
  induction o with
  | source s => exact congrArg Pipeline.source same
  | projection p ih =>
    exact congrArg (fun o => Pipeline.projection ⟨o, p.outputs, p.schema, .closed⟩) (ih h same)
  | timeline t ih =>
    exact congrArg (fun o => Pipeline.timeline ⟨o, t.log, t.cursor, .closed⟩) (ih h same)
  | probe p _ => exact False.elim h

theorem previous_map (o : Pipeline σ) (f : σ → τ) :
    (o.perform .previous).inside (map f) = (o.map f).perform .previous := by
  cases o with
  | timeline t =>
    have same := Timeline.previous_mapInner (map f) t
    rw [map_timeline, perform, perform, ← same]
    rfl
  | _ => rfl

end Map

end Pipeline

/-! ## Planned failures -/

/-- An iterator with failures planned for some of its calls. A call that fails leaves it as it is. -/
structure Faulty (σ : Type) where
  inner : σ
  /-- The failures of the calls of `start` and `next`, counted together from zero. -/
  plan : Nat → Option QueryError
  calls : Nat

namespace Faulty

variable {σ α β : Type}

/-- The failure that the next call of `start` or `next` meets. -/
def failure? (s : Faulty σ) : Option QueryError := s.plan s.calls

def attempt (s : Faulty σ) (call : Reply σ β) : Reply (Faulty σ) β :=
  match s.failure? with
  | some e => ⟨.error e, { s with calls := s.calls + 1 }⟩
  | none => call.inside fun inner => { s with inner, calls := s.calls + 1 }

instance [Iterator σ α] : Iterator (Faulty σ) α where
  start s := s.attempt (Iterator.start s.inner)
  next s := s.attempt (Iterator.next s.inner)
  close s := { s with inner := Iterator.close s.inner }

theorem attempt_of_some {s : Faulty σ} {e : QueryError} (h : s.failure? = some e)
    (call : Reply σ β) : s.attempt call = ⟨.error e, { s with calls := s.calls + 1 }⟩ := by
  rw [attempt, h]

theorem inner_attempt_of_none {s : Faulty σ} (h : s.failure? = none) (call : Reply σ β) :
    (s.attempt call).inside inner = call := by
  rw [attempt, h]
  rfl

end Faulty

namespace Pipeline

variable {σ : Type}

/-- The stack without the planned failures. -/
def bare (o : Pipeline (Faulty σ)) : Pipeline σ := o.map Faulty.inner

/-- The planned failure that a call on the stack meets at the bottom. -/
def failure? (o : Pipeline (Faulty σ)) : Command → Option QueryError
  | .start => o.base.failure?
  | .next => if o.asksBase then o.base.failure? else none
  | .close | .previous => none

variable [Iterator σ Tuple]

/-- The calls that meet no failure, each with its answer. -/
def unfailed : Pipeline (Faulty σ) → List Command → List (Command × Except QueryError (Option Tuple))
  | _, [] => []
  | o, c :: history =>
    match o.failure? c with
    | some _ => (o.perform c).after.unfailed history
    | none => (c, (o.perform c).result) :: (o.perform c).after.unfailed history

variable {o : Pipeline (Faulty σ)}

theorem perform_of_failure {c : Command} {e : QueryError} (h : o.Unprobed)
    (fails : o.failure? c = some e) :
    (o.perform c).result = .error e ∧ (o.perform c).after.bare = o.bare := by
  cases c with
  | start =>
    have below : Iterator.start o.base = _ := Faulty.attempt_of_some fails _
    rw [perform, start_of_fails h below]
    exact ⟨rfl, map_map_const Faulty.inner rfl⟩
  | next =>
    rw [failure?] at fails
    split at fails
    · rename_i asked
      have below : Iterator.next o.base = _ := Faulty.attempt_of_some fails _
      rw [perform, next_of_fails h asked below]
      exact ⟨rfl, map_map_const Faulty.inner rfl⟩
    · cases fails
  | close | previous => cases fails

theorem perform_of_no_failure {c : Command} (h : o.Unprobed) (passes : o.failure? c = none) :
    (o.perform c).inside bare = o.bare.perform c := by
  cases c with
  | start =>
    have whole := start_map (f := Faulty.inner) h (Faulty.inner_attempt_of_none passes _)
    rw [bare, perform, perform, ← whole]
    rfl
  | next =>
    refine next_map (f := Faulty.inner) h ?_
    intro asked
    rw [failure?, if_pos asked] at passes
    exact Faulty.inner_attempt_of_none passes _
  | close => exact congrArg (Reply.mk (.ok none)) (close_map (f := Faulty.inner) h rfl)
  | previous => exact o.previous_map Faulty.inner

theorem unfailed_eq (h : o.Unprobed) (history : List Command) :
    (o.unfailed history).map Prod.snd = o.bare.answers ((o.unfailed history).map Prod.fst) ∧
      (o.after history).bare = o.bare.after ((o.unfailed history).map Prod.fst) := by
  induction history generalizing o with
  | nil => exact ⟨rfl, rfl⟩
  | cons c history ih =>
    obtain ⟨answers, state⟩ := ih (unprobed_perform h c)
    rw [unfailed]
    split
    · rename_i e fails
      -- the call is left out, and the stack without failures waits where it was
      rw [(perform_of_failure h fails).2] at answers state
      exact ⟨answers, state⟩
    · rename_i passes
      have step := perform_of_no_failure h passes
      have after : (o.perform c).after.bare = (o.bare.perform c).after := congrArg Reply.after step
      rw [after] at answers state
      refine ⟨?_, state⟩
      rw [List.map_cons, List.map_cons, Pipeline.answers, answers, ← step]
      rfl

/-- A call that meets a failure answers with this failure and leaves every wrapper and the iterator
at the bottom as they were. The other calls answer as if the ones that failed had not been made, and
no failure had been planned. -/
theorem failed_calls_leave_no_trace (h : o.Unprobed) (history : List Command) :
    (∀ c e, (o.after history).failure? c = some e →
      ((o.after history).perform c).result = .error e ∧
        ((o.after history).perform c).after.bare = (o.after history).bare) ∧
      (o.unfailed history).map Prod.snd = o.bare.answers ((o.unfailed history).map Prod.fst) ∧
      (o.after history).bare = o.bare.after ((o.unfailed history).map Prod.fst) := by
  refine ⟨?_, unfailed_eq h history⟩
  intro c e fails
  exact perform_of_failure (unprobed_after h history) fails

end Pipeline

/-- A timeline over a projection: a second start fails in the middle of a run, and so does the call
of `next` after it. Neither loses a row or the place in the run. -/
theorem rows_survive_failures :
    ∃ o : Pipeline (Faulty Scan), o.Unprobed ∧
      (o.unfailed [.start, .next, .start, .next, .next, .previous]).map Prod.fst =
        [.start, .next, .next, .previous] ∧
      (o.unfailed [.start, .next, .start, .next, .next, .previous]).map Prod.snd =
        o.bare.answers [.start, .next, .next, .previous] ∧
      (o.answers [.start, .next, .start, .next, .next, .previous]).map
          (Except.map (Option.map Tuple.values)) =
        [.ok none, .ok (some [.integer 1]), .error .noKeys, .error (.noRow 7),
          .ok (some [.integer 2]), .ok (some [.integer 1])] := by
  let r := Relation.ofColumn ⟨"n", .integer⟩ [.integer 1, .integer 2] (by decide)
  let plan : Nat → Option QueryError
    | 2 => some .noKeys
    | 3 => some (.noRow 7)
    | _ => none
  let p : Projection (Pipeline (Faulty Scan)) :=
    ⟨.source ⟨.ofRelation r, plan, 0⟩, [⟨"n", some "m"⟩], .ofDistinct [⟨"m", .integer⟩] (by simp),
      .unopened⟩
  let o := (Pipeline.projection p).logged
  have unprobed : o.Unprobed := trivial
  have calls : (o.unfailed [.start, .next, .start, .next, .next, .previous]).map Prod.fst =
      [.start, .next, .next, .previous] := by decide +kernel
  obtain ⟨-, same, -⟩ :=
    Pipeline.failed_calls_leave_no_trace unprobed [.start, .next, .start, .next, .next, .previous]
  rw [calls] at same
  refine ⟨o, unprobed, calls, same, ?_⟩
  decide +kernel

end PullAlgebra
