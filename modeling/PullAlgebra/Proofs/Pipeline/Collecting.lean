import PullAlgebra.Proofs.Emission
import PullAlgebra.Proofs.Pipeline.Phases
import PullAlgebra.Proofs.Relation.OneColumn

/-!
# PullAlgebra.Proofs.Pipeline.Collecting

The ways in which collecting can go, over operators of any depth and with failures anywhere in them.
If the run cannot be started it has not begun: the error comes out and every operator is as it was. A
run that has begun is closed, whether it comes to its end or a call fails in the middle of it, and
the root gives the call on to all that is below, in whatever phase the failure has left it.

* `Pipeline.uncounted`: a pipeline but for the numbers that its probes keep.
* `uncounted_start_of_error`: a start that fails changes nothing else.
* `next_of_closed`: who answers when the root is closed.
* `collecting_leaves_nothing_open`: all ways of collecting.
-/

namespace PullAlgebra

namespace Pipeline

/-! ## A start that fails -/

/-- The pipeline with its probes as if they had not been called. They keep nothing but numbers of
calls, so that this leaves the operators and all that is below them alone. -/
def uncounted {σ : Type} : Pipeline σ → Pipeline σ
  | .source s => .source s
  | .projection ⟨inner, outputs, schema, phase⟩ =>
    .projection ⟨inner.uncounted, outputs, schema, phase⟩
  | .timeline ⟨inner, log, cursor, phase⟩ => .timeline ⟨inner.uncounted, log, cursor, phase⟩
  | .probe ⟨inner, failsStart, failsNext, _, _, _⟩ =>
    .probe (.ofInner inner.uncounted failsStart failsNext)

theorem uncounted_start_of_error {o after : Pipeline Source} {e : QueryError}
    (h : o.start = ⟨.error e, after⟩) : after.uncounted = o.uncounted := by
  induction o generalizing after with
  | source s =>
    rw [start_source, show Iterator.start s = s.start from rfl] at h
    rcases s.start_cases with ⟨opened, step, -⟩ | ⟨_, step⟩
    · rw [step] at h
      cases h
    · rw [step] at h
      cases h
      rfl
  | projection p ih =>
    rw [start_projection] at h
    rcases p.start_cases with ⟨inner, -, step⟩ | ⟨_, inner, below, step⟩
    · rw [step] at h
      cases h
    · rw [step] at h
      cases h
      exact congrArg (fun o => Pipeline.projection ⟨o, p.outputs, p.schema, p.phase⟩) (ih below)
  | timeline t ih =>
    rw [start_timeline] at h
    rcases t.start_cases with ⟨inner, -, step⟩ | ⟨_, inner, below, step⟩
    · rw [step] at h
      cases h
    · rw [step] at h
      cases h
      exact congrArg (fun o => Pipeline.timeline ⟨o, t.log, t.cursor, t.phase⟩) (ih below)
  | probe p ih =>
    rw [start_probe] at h
    rcases p.start_cases with ⟨count, step⟩ | ⟨count, step⟩
    · rw [step] at h
      cases h
      rfl
    · match below : Iterator.start p.inner with
      | ⟨.ok (), inner⟩ =>
        rw [step, below] at h
        cases h
      | ⟨.error _, inner⟩ =>
        rw [step, below] at h
        cases h
        exact congrArg (fun o => Pipeline.probe (.ofInner o p.failsStart p.failsNext)) (ih below)

/-! ## The root after it was closed -/

theorem eq_probe_of_reset {o : Pipeline Source} {p : Probe (Pipeline Source)}
    (same : (Pipeline.probe p).reset = o.reset) : ∃ q, o = .probe q := by
  cases o with
  | probe q => exact ⟨q, rfl⟩
  | _ => cases same

/-- A pipeline that is closed refuses `next`, unless its root is a probe that fails the call before
it comes to an operator. -/
theorem next_of_closed {o : Pipeline Source} (closed : o.phase = .closed) :
    o.next.result = .error (.invalidState o.operator .next .closed) ∨
      ∃ p n, o = .probe p ∧ o.next.result = .error (.injected .next n) := by
  induction o with
  | probe p ih =>
    rw [next_probe]
    rcases p.next_cases with ⟨count, step⟩ | ⟨count, step⟩
    · rw [step]
      exact .inr ⟨p, count, rfl, rfl⟩
    · rw [step]
      rcases ih closed with refused | ⟨_, n, -, failed⟩
      · exact .inl refused
      · exact .inr ⟨p, n, rfl, failed⟩
  | _ =>
    rw [next_of_root_not_isOpen (by rintro _ ⟨⟩) (by rw [closed]; rfl), closed]
    exact .inl rfl

/-! ## Collecting -/

theorem reset_collect (o : Pipeline Source) : (collect o).after.reset = o.reset := by
  refine collect_induction (P := fun u : Pipeline Source => u.reset = o.reset) o.reset_start ?_ ?_
  · exact fun u same => u.reset_next.trans same
  · exact fun u same => u.reset_close.trans same

theorem operator_collect (o : Pipeline Source) : (collect o).after.operator = o.operator := by
  rw [← operator_reset, reset_collect, operator_reset]

theorem phases_collect {o opened : Pipeline Source} (started : o.start = ⟨.ok (), opened⟩) :
    (collect o).after.phase = .closed ∧ ∀ phase ∈ (collect o).after.phases, phase = .closed := by
  obtain ⟨last, closed⟩ := exists_close_of_collect (s := o) started
  rw [closed]
  exact ⟨last.phase_close, last.phases_close⟩

end Pipeline

open Pipeline

/-- Collecting, from any state of the operators and with failures at any places among them. If the
start fails, its error is the answer and every operator keeps its phase, its log and its place. If it
succeeds, the answer is all items of the run in their order when they end, and otherwise the first
error that a call of `next` gives; then every operator is closed, and the root refuses `next`, unless
it is a probe that fails the call itself. -/
theorem collecting_leaves_nothing_open (o : Pipeline Source) :
    (∀ e, o.start.result = .error e →
      (collect o).result = .error e ∧ (collect o).after.uncounted = o.uncounted) ∧
    (o.start.result = .ok () →
      (∃ items : List Tuple,
        (∀ n (h : n < items.length), nthAnswer o.start.after n = .ok (some items[n])) ∧
        (nthAnswer o.start.after items.length = .ok none ∧
            (collect o).result = .ok items.toArray ∨
          ∃ e, nthAnswer o.start.after items.length = .error e ∧
            (collect o).result = .error e)) ∧
      (∀ phase ∈ (collect o).after.phases, phase = .closed) ∧
      ((collect o).after.next.result = .error (.invalidState o.operator .next .closed) ∨
        ∃ p n, o = .probe p ∧ (collect o).after.next.result = .error (.injected .next n))) := by
  match started : o.start with
  | ⟨.error e, after⟩ =>
    refine ⟨?_, by rintro ⟨⟩⟩
    rintro _ ⟨⟩
    rw [collect_of_start_error (s := o) started]
    exact ⟨rfl, uncounted_start_of_error started⟩
  | ⟨.ok (), after⟩ =>
    refine ⟨by rintro _ ⟨⟩, fun _ => ⟨exists_items_of_collect (s := o) started, ?_⟩⟩
    obtain ⟨root, phases⟩ := phases_collect started
    refine ⟨phases, ?_⟩
    rcases next_of_closed root with refused | ⟨p, n, probed, failed⟩
    · rw [operator_collect] at refused
      exact .inl refused
    · have reset := o.reset_collect
      rw [probed] at reset
      obtain ⟨q, rfl⟩ := eq_probe_of_reset reset
      exact .inr ⟨q, n, rfl, failed⟩

/-- A projection over a timeline over a scan, with a probe between each two of them. In the middle of a
run the second start fails; the third call of `next` fails in the run after it; the run after that is
collected whole. -/
theorem third_run_collected_whole :
    ∃ o : Pipeline Source,
      ((collect (o.after [.start, .next])).result.map fun _ => ()) = .error (.injected .start 2) ∧
      (collect (o.after [.start, .next])).after.uncounted = (o.after [.start, .next]).uncounted ∧
      (o.after [.start, .next]).phases = [.running, .running, .running] ∧
      ((collect (o.after [.start, .next, .start])).result.map fun _ => ()) =
        .error (.injected .next 3) ∧
      (∀ phase ∈ (collect (o.after [.start, .next, .start])).after.phases, phase = .closed) ∧
      ((collect (o.after [.start, .next, .start, .start, .next, .next])).result.map fun rows =>
        rows.toList.map Tuple.values) = .ok [[.integer 1], [.integer 2]] ∧
      (∀ phase ∈ (collect (o.after [.start, .next, .start, .start, .next, .next])).after.phases,
        phase = .closed) ∧
      (collect (o.after [.start, .next, .start, .start, .next, .next])).after.next.result =
        .error (.invalidState "ProjectionExecutor" .next .closed) := by
  let r := Relation.ofColumn ⟨"n", .integer⟩ [.integer 1, .integer 2] (by decide)
  let failsStart : Nat → Bool := (· == 2)
  let failsNext : Nat → Bool := (· == 3)
  let below := ((Pipeline.source (Source.ofRelation r)).probed failsStart failsNext).logged
  let o : Pipeline Source := .projection ⟨below.probed (fun _ => false) fun _ => false,
    [⟨"n", some "m"⟩], .ofDistinct [⟨"m", .integer⟩] (by simp), .unopened⟩
  have unstarted : (o.after [.start, .next]).start.result = .error (.injected .start 2) := rfl
  have broken : (o.after [.start, .next, .start]).start.result = .ok () := rfl
  have whole : (o.after [.start, .next, .start, .start, .next, .next]).start.result = .ok () := rfl
  obtain ⟨reported, same⟩ := (collecting_leaves_nothing_open _).1 _ unstarted
  obtain ⟨-, released, -⟩ := (collecting_leaves_nothing_open _).2 broken
  obtain ⟨-, closed, refused⟩ := (collecting_leaves_nothing_open _).2 whole
  refine ⟨o, by rw [reported]; rfl, same, rfl, by decide +kernel, released, by decide +kernel,
    closed, ?_⟩
  rcases refused with refused | ⟨p, n, root, -⟩
  · exact refused
  · cases root

end PullAlgebra
