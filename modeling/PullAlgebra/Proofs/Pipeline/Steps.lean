import PullAlgebra.Pipeline.Probe
import PullAlgebra.Pipeline.Projection
import PullAlgebra.Pipeline.Timeline

/-!
# PullAlgebra.Proofs.Pipeline.Steps

The calls on projections, timelines and probes as equations, one for each way in which a call can
go, and what these ways have in common.

* `Projection.after_start`, `Projection.after_next`: the inner iterator and the phase are all that
  changes in a projection.
* `Projection.exists_of_next`: where a projected tuple comes from.
* `Timeline.next_cases`, `Timeline.previous_cases`: the ways of a timeline.
* `Probe.start_cases`, `Probe.next_cases`: a failure, or a call on the inner iterator.
* `Timeline.inner_next`, `Probe.after_next`: what becomes of the inner iterator.
-/

namespace PullAlgebra

namespace Projection

variable {σ : Type} [Iterator σ Tuple] {p : Projection σ}

theorem start_of_ok {inner : σ} (h : Iterator.start p.inner = ⟨.ok (), inner⟩) :
    Iterator.start p = ⟨.ok (), { p with inner, phase := .running }⟩ := by
  change p.started _ = _
  rw [h]
  rfl

theorem start_of_error {inner : σ} {e : QueryError}
    (h : Iterator.start p.inner = ⟨.error e, inner⟩) :
    Iterator.start p = ⟨.error e, { p with inner }⟩ := by
  change p.started _ = _
  rw [h]
  rfl

theorem next_of_running (h : p.phase = .running) :
    Iterator.next p = p.yielded (Iterator.next p.inner) := by
  change p.phase.gate "ProjectionExecutor" p (fun _ => p.yielded (Iterator.next p.inner)) = _
  rw [h]
  rfl

theorem next_of_not_running (h : p.phase ≠ .running) :
    (Iterator.next p).after = p ∧ ∀ t, (Iterator.next p).result ≠ .ok (some t) := by
  change (p.phase.gate "ProjectionExecutor" p _).after = p ∧
    ∀ t, (p.phase.gate "ProjectionExecutor" p _).result ≠ .ok (some t)
  cases phase : p.phase with
  | running => exact absurd phase h
  | _ => exact ⟨rfl, nofun⟩

theorem after_start (p : Projection σ) :
    ∃ phase, (Iterator.start p).after = { p with inner := (Iterator.start p.inner).after, phase } := by
  match h : Iterator.start p.inner with
  | ⟨.ok (), inner⟩ => exact ⟨.running, by rw [start_of_ok h]⟩
  | ⟨.error e, inner⟩ => exact ⟨p.phase, by rw [start_of_error h]⟩

omit [Iterator σ Tuple] in
theorem after_yielded (p : Projection σ) (reply : Reply σ (Option Tuple)) :
    ∃ phase, (p.yielded reply).after = { p with inner := reply.after, phase } := by
  match reply with
  | ⟨.ok (some _), _⟩ => exact ⟨p.phase, rfl⟩
  | ⟨.ok none, _⟩ => exact ⟨.exhausted, rfl⟩
  | ⟨.error _, _⟩ => exact ⟨p.phase, rfl⟩

theorem after_next (p : Projection σ) :
    (Iterator.next p).after = p ∨
      ∃ phase, (Iterator.next p).after = { p with inner := (Iterator.next p.inner).after, phase } := by
  by_cases h : p.phase = .running
  · rw [next_of_running h]
    exact .inr (p.after_yielded _)
  · exact .inl (next_of_not_running h).1

theorem exists_of_next {t : Tuple} (h : (Iterator.next p).result = .ok (some t)) :
    ∃ u, (Iterator.next p.inner).result = .ok (some u) ∧
      liftTable (u.project p.outputs) = .ok t := by
  by_cases running : p.phase = .running
  · rw [next_of_running running] at h
    match inner : Iterator.next p.inner with
    | ⟨.ok (some u), _⟩ =>
      rw [inner] at h
      change (liftTable (u.project p.outputs)).map some = _ at h
      refine ⟨u, rfl, ?_⟩
      cases projected : liftTable (u.project p.outputs) with
      | ok v =>
        rw [projected] at h
        cases h
        rfl
      | error e =>
        rw [projected] at h
        cases h
    | ⟨.ok none, _⟩ => rw [inner] at h; cases h
    | ⟨.error _, _⟩ => rw [inner] at h; cases h
  · exact absurd h ((next_of_not_running running).2 t)

end Projection

namespace Timeline

variable {σ α : Type} {t : Timeline σ α}

theorem yielded_item (t : Timeline σ α) (a : α) (inner : σ) :
    t.yielded ⟨.ok (some a), inner⟩ =
      ⟨.ok (some a), ⟨inner, t.log.push a, some t.log.size, t.phase⟩⟩ := rfl

theorem yielded_other (t : Timeline σ α) {answer : Except QueryError (Option α)} (inner : σ)
    (h : ∀ a, answer ≠ .ok (some a)) : t.yielded ⟨answer, inner⟩ = ⟨answer, { t with inner }⟩ := by
  match answer with
  | .ok (some a) => exact absurd rfl (h a)
  | .ok none => rfl
  | .error _ => rfl

theorem previous_of_log {p : Nat} {a : α} (running : t.phase = .running)
    (hc : t.cursor = some (p + 1)) (h : t.log[p]? = some a) :
    t.previous = ⟨.ok a, { t with cursor := some p }⟩ := by
  simp only [previous, running, hc, h]

theorem previous_of_refused (h : ¬(t.phase = .running ∧ ∃ p, t.cursor = some (p + 1))) :
    t.previous = ⟨.error (.invalidState "Timeline" .previous t.phase), t⟩ := by
  unfold previous
  split
  · rename_i p running hc
    exact absurd ⟨running, p, hc⟩ h
  · rfl

theorem previous_cases (t : Timeline σ α) :
    (∃ p a, t.log[p]? = some a ∧ t.previous = ⟨.ok a, { t with cursor := some p }⟩) ∨
      ∃ e, t.previous = ⟨.error e, t⟩ := by
  unfold previous
  split
  · rename_i p _ _
    cases h : t.log[p]? with
    | some a => exact .inl ⟨p, a, h, rfl⟩
    | none => exact .inr ⟨_, rfl⟩
  · exact .inr ⟨_, rfl⟩

theorem inner_previous (t : Timeline σ α) : t.previous.after.inner = t.inner := by
  rcases t.previous_cases with ⟨p, a, -, h⟩ | ⟨e, h⟩
  · rw [h]
  · rw [h]

theorem inner_yielded (t : Timeline σ α) (reply : Reply σ (Option α)) :
    (t.yielded reply).after.inner = reply.after := by
  match reply with
  | ⟨.ok (some _), _⟩ => rfl
  | ⟨.ok none, _⟩ => rfl
  | ⟨.error _, _⟩ => rfl

theorem log_previous (t : Timeline σ α) : t.previous.after.log = t.log := by
  rcases t.previous_cases with ⟨p, a, -, h⟩ | ⟨e, h⟩
  · rw [h]
  · rw [h]

theorem mem_log_of_previous {a : α} (h : t.previous.result = .ok a) : a ∈ t.log := by
  rcases t.previous_cases with ⟨p, b, row, step⟩ | ⟨e, step⟩
  · rw [step] at h
    cases h
    exact Array.mem_of_getElem? row
  · rw [step] at h
    cases h

variable [Iterator σ α]

theorem start_of_ok {inner : σ} (h : Iterator.start t.inner = ⟨.ok (), inner⟩) :
    Iterator.start t = ⟨.ok (), ⟨inner, #[], none, .running⟩⟩ := by
  change t.started _ = _
  rw [h]
  rfl

theorem start_of_error {inner : σ} {e : QueryError}
    (h : Iterator.start t.inner = ⟨.error e, inner⟩) :
    Iterator.start t = ⟨.error e, { t with inner }⟩ := by
  change t.started _ = _
  rw [h]
  rfl

theorem inner_start (t : Timeline σ α) :
    (Iterator.start t).after.inner = (Iterator.start t.inner).after := by
  match h : Iterator.start t.inner with
  | ⟨.ok (), inner⟩ => rw [start_of_ok h]
  | ⟨.error e, inner⟩ => rw [start_of_error h]

theorem mem_log_of_start {a : α} (h : a ∈ (Iterator.start t).after.log) : a ∈ t.log := by
  match started : Iterator.start t.inner with
  | ⟨.ok (), inner⟩ =>
    rw [start_of_ok started] at h
    exact absurd h (Array.not_mem_empty a)
  | ⟨.error e, inner⟩ =>
    rw [start_of_error started] at h
    exact h

theorem next_of_refused {e : QueryError} (refused : t.phase.producing "Timeline" = .error e) :
    Iterator.next t = ⟨.error e, t⟩ := by
  change t.nextBy _ = _
  simp only [nextBy, refused]

theorem next_of_log {produces : Bool} {a : α}
    (opened : t.phase.producing "Timeline" = .ok produces) (h : t.log[t.ahead]? = some a) :
    Iterator.next t = ⟨.ok (some a), { t with cursor := some t.ahead }⟩ := by
  change t.nextBy _ = _
  simp only [nextBy, opened, h]

theorem next_of_end {produces : Bool} (opened : t.phase.producing "Timeline" = .ok produces)
    (h : t.log[t.ahead]? = none) : Iterator.next t = t.yielded (Iterator.next t.inner) := by
  change t.nextBy _ = _
  simp only [nextBy, opened, h]

theorem next_cases (t : Timeline σ α) :
    (∃ e, Iterator.next t = ⟨.error e, t⟩) ∨
      (∃ p a, t.log[p]? = some a ∧ Iterator.next t = ⟨.ok (some a), { t with cursor := some p }⟩) ∨
      Iterator.next t = t.yielded (Iterator.next t.inner) := by
  cases phase : t.phase.producing "Timeline" with
  | error e => exact .inl ⟨e, next_of_refused phase⟩
  | ok produces =>
    cases log : t.log[t.ahead]? with
    | some a => exact .inr (.inl ⟨t.ahead, a, log, next_of_log phase log⟩)
    | none => exact .inr (.inr (next_of_end phase log))

theorem inner_next (t : Timeline σ α) :
    (Iterator.next t).after.inner = t.inner ∨
      (Iterator.next t).after.inner = (Iterator.next t.inner).after := by
  rcases t.next_cases with ⟨e, h⟩ | ⟨p, a, -, h⟩ | h
  · exact .inl (by rw [h])
  · exact .inl (by rw [h])
  · exact .inr (by rw [h, inner_yielded])

/-- Whatever a timeline yields or has in its log afterwards was in its log before, or has just come
from the inner iterator. -/
theorem mem_of_next {a : α}
    (h : (Iterator.next t).result = .ok (some a) ∨ a ∈ (Iterator.next t).after.log) :
    a ∈ t.log ∨ (Iterator.next t.inner).result = .ok (some a) := by
  rcases t.next_cases with ⟨e, step⟩ | ⟨p, b, row, step⟩ | step
  · rw [step] at h
    rcases h with h | h
    · cases h
    · exact .inl h
  · rw [step] at h
    rcases h with h | h
    · cases h
      exact .inl (Array.mem_of_getElem? row)
    · exact .inl h
  · rw [step] at h
    match asked : Iterator.next t.inner with
    | ⟨.ok (some b), inner⟩ =>
      rw [asked, yielded_item] at h
      rcases h with h | h
      · cases h
        exact .inr rfl
      · rcases Array.mem_push.1 h with h | rfl
        · exact .inl h
        · exact .inr rfl
    | ⟨.ok none, inner⟩ =>
      rw [asked] at h
      rcases h with h | h
      · cases h
      · exact .inl h
    | ⟨.error e, inner⟩ =>
      rw [asked] at h
      rcases h with h | h
      · cases h
      · exact .inl h

end Timeline

namespace Probe

variable {σ α : Type} [Iterator σ α]

theorem start_cases (p : Probe σ) :
    (∃ count, Iterator.start p = ⟨.error (.injected .start count), { p with starts := count }⟩) ∨
      ∃ count, Iterator.start p =
        (Iterator.start p.inner).inside fun inner => { p with inner, starts := count } := by
  by_cases fails : p.failsStart (p.starts + 1)
  · exact .inl ⟨_, if_pos fails⟩
  · exact .inr ⟨_, if_neg fails⟩

theorem next_cases (p : Probe σ) :
    (∃ count, Iterator.next p = ⟨.error (.injected .next count), { p with nexts := count }⟩) ∨
      ∃ count, Iterator.next p =
        (Iterator.next p.inner).inside fun inner => { p with inner, nexts := count } := by
  by_cases fails : p.failsNext (p.nexts + 1)
  · exact .inl ⟨_, if_pos fails⟩
  · exact .inr ⟨_, if_neg fails⟩

theorem after_start (p : Probe σ) :
    ∃ inner starts, (Iterator.start p).after = { p with inner, starts } ∧
      (inner = p.inner ∨ inner = (Iterator.start p.inner).after) := by
  rcases p.start_cases with ⟨count, step⟩ | ⟨count, step⟩
  · exact ⟨_, _, congrArg Reply.after step, .inl rfl⟩
  · exact ⟨_, _, congrArg Reply.after step, .inr rfl⟩

theorem after_next (p : Probe σ) :
    ∃ inner nexts, (Iterator.next p).after = { p with inner, nexts } ∧
      (inner = p.inner ∨ inner = (Iterator.next p.inner).after) := by
  rcases p.next_cases with ⟨count, step⟩ | ⟨count, step⟩
  · exact ⟨_, _, congrArg Reply.after step, .inl rfl⟩
  · exact ⟨_, _, congrArg Reply.after step, .inr rfl⟩

theorem result_of_next {p : Probe σ} {a : α} (h : (Iterator.next p).result = .ok (some a)) :
    (Iterator.next p.inner).result = .ok (some a) := by
  rcases p.next_cases with ⟨count, step⟩ | ⟨count, step⟩
  · rw [step] at h
    cases h
  · rw [step] at h
    exact h

end Probe
end PullAlgebra
