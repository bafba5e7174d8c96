import PullAlgebra.Proofs.OpenPhase
import PullAlgebra.Proofs.Pipeline.Steps

/-!
# PullAlgebra.Proofs.Pipeline.Asking

When a projection or a timeline calls the iterator inside. `start` and `close` always do. `next`
does not outside of a run, and a timeline with a row ahead in its log answers from the log. What is
inside counts for nothing else: with another inner iterator that answers alike, so does the whole.

* `asks`: whether `next` calls the inner iterator; `nextBy_of_not_asks` that it does not matter
  otherwise.
* `mapInner`: another inner iterator; `start_mapInner`, `next_mapInner`, `previous_mapInner` that
  the calls go on as before.
-/

namespace PullAlgebra

variable {σ : Type}

namespace Projection

variable {p : Projection σ}

/-- Whether `next` calls the inner iterator. -/
def asks (p : Projection σ) : Bool := p.phase == .running

theorem next_of_asks [Iterator σ Tuple] (h : p.asks) :
    Iterator.next p = p.yielded (Iterator.next p.inner) := next_of_running (eq_of_beq h)

/-- What `next` answers without the inner iterator. -/
def ownReply (p : Projection σ) : Reply (Projection σ) (Option Tuple) :=
  ⟨(p.phase.producing "ProjectionExecutor").map fun _ => none, p⟩

theorem nextBy_of_not_asks (h : p.asks = false) (inner : Unit → Reply σ (Option Tuple)) :
    p.nextBy inner = p.ownReply := by
  unfold nextBy Phase.gate ownReply
  cases phase : p.phase with
  | running => simp [asks, phase] at h
  | _ => rfl

theorem next_of_not_asks [Iterator σ Tuple] (h : p.asks = false) :
    Iterator.next p = p.ownReply := nextBy_of_not_asks h _

theorem isOpen_of_asks (h : p.asks) : p.phase.isOpen := by
  rw [eq_of_beq h]
  rfl

theorem start_cases [Iterator σ Tuple] (p : Projection σ) :
    (∃ inner, Iterator.start p.inner = ⟨.ok (), inner⟩ ∧
        Iterator.start p = ⟨.ok (), { p with inner, phase := .running }⟩) ∨
      ∃ e inner, Iterator.start p.inner = ⟨.error e, inner⟩ ∧
        Iterator.start p = ⟨.error e, { p with inner }⟩ := by
  match started : Iterator.start p.inner with
  | ⟨.ok (), inner⟩ => exact .inl ⟨inner, rfl, start_of_ok started⟩
  | ⟨.error e, inner⟩ => exact .inr ⟨e, inner, rfl, start_of_error started⟩

/-- The projection with another inner iterator. -/
def mapInner {τ : Type} (f : σ → τ) (p : Projection σ) : Projection τ :=
  ⟨f p.inner, p.outputs, p.schema, p.phase⟩

section MapInner

variable {τ : Type} [Iterator σ Tuple] [Iterator τ Tuple] {f : σ → τ}

theorem start_mapInner (same : (Iterator.start p.inner).inside f = Iterator.start (f p.inner)) :
    (Iterator.start p).inside (mapInner f) = Iterator.start (p.mapInner f) := by
  rcases p.start_cases with ⟨inner, below, step⟩ | ⟨e, inner, below, step⟩
  · rw [below] at same
    rw [step, start_of_ok (p := p.mapInner f) same.symm]
    rfl
  · rw [below] at same
    rw [step, start_of_error (p := p.mapInner f) same.symm]
    rfl

omit [Iterator σ Tuple] [Iterator τ Tuple] in
theorem yielded_mapInner (f : σ → τ) (p : Projection σ) (reply : Reply σ (Option Tuple)) :
    (p.yielded reply).inside (mapInner f) = (p.mapInner f).yielded (reply.inside f) := by
  match reply with
  | ⟨.ok (some _), _⟩ => rfl
  | ⟨.ok none, _⟩ => rfl
  | ⟨.error _, _⟩ => rfl

theorem next_mapInner
    (same : p.asks → (Iterator.next p.inner).inside f = Iterator.next (f p.inner)) :
    (Iterator.next p).inside (mapInner f) = Iterator.next (p.mapInner f) := by
  cases asks : p.asks with
  | true =>
    have asks' : (p.mapInner f).asks := asks
    rw [next_of_asks asks, next_of_asks asks', yielded_mapInner, same asks]
    rfl
  | false =>
    have asks' : (p.mapInner f).asks = false := asks
    rw [next_of_not_asks asks, next_of_not_asks asks']
    rfl

end MapInner

end Projection


namespace Timeline

variable {α : Type} {t : Timeline σ α}

/-- Whether `next` calls the inner iterator. -/
def asks (t : Timeline σ α) : Bool := t.phase.isOpen && t.log[t.ahead]?.isNone

theorem isOpen_of_asks (h : t.asks) : t.phase.isOpen := (Bool.and_eq_true_iff.1 h).1

theorem start_cases [Iterator σ α] (t : Timeline σ α) :
    (∃ inner, Iterator.start t.inner = ⟨.ok (), inner⟩ ∧
        Iterator.start t = ⟨.ok (), ⟨inner, #[], none, .running⟩⟩) ∨
      ∃ e inner, Iterator.start t.inner = ⟨.error e, inner⟩ ∧
        Iterator.start t = ⟨.error e, { t with inner }⟩ := by
  match started : Iterator.start t.inner with
  | ⟨.ok (), inner⟩ => exact .inl ⟨inner, rfl, start_of_ok started⟩
  | ⟨.error e, inner⟩ => exact .inr ⟨e, inner, rfl, start_of_error started⟩

theorem next_of_asks [Iterator σ α] (h : t.asks) :
    Iterator.next t = t.yielded (Iterator.next t.inner) := by
  obtain ⟨opened, last⟩ := Bool.and_eq_true_iff.1 h
  obtain ⟨_, producing⟩ := Phase.producing_of_isOpen opened "Timeline"
  exact next_of_end producing (Option.isNone_iff_eq_none.1 last)

/-- What `next` answers without the inner iterator. -/
def ownReply (t : Timeline σ α) : Reply (Timeline σ α) (Option α) :=
  match t.phase.producing "Timeline" with
  | .error e => ⟨.error e, t⟩
  | .ok _ => ⟨.ok t.log[t.ahead]?, { t with cursor := some t.ahead }⟩

theorem exists_row_of_not_asks (h : t.asks = false) (opened : t.phase.isOpen) :
    ∃ a, t.log[t.ahead]? = some a := by
  rw [asks, opened, Bool.true_and] at h
  exact Option.isSome_iff_exists.1 (Option.isNone_eq_false_iff.1 h)

theorem nextBy_of_not_asks (h : t.asks = false) (inner : Unit → Reply σ (Option α)) :
    t.nextBy inner = t.ownReply := by
  unfold nextBy ownReply
  cases producing : t.phase.producing "Timeline" with
  | error e => rfl
  | ok _ =>
    obtain ⟨a, row⟩ := exists_row_of_not_asks h (Phase.isOpen_of_producing producing)
    simp only [row]

theorem next_of_not_asks [Iterator σ α] (h : t.asks = false) :
    Iterator.next t = t.ownReply := nextBy_of_not_asks h _

/-- The timeline with another inner iterator. -/
def mapInner {τ : Type} (f : σ → τ) (t : Timeline σ α) : Timeline τ α :=
  ⟨f t.inner, t.log, t.cursor, t.phase⟩

section MapInner

variable {τ : Type} {f : σ → τ}

theorem yielded_mapInner (f : σ → τ) (t : Timeline σ α) (reply : Reply σ (Option α)) :
    (t.yielded reply).inside (mapInner f) = (t.mapInner f).yielded (reply.inside f) := by
  match reply with
  | ⟨.ok (some _), _⟩ => rfl
  | ⟨.ok none, _⟩ => rfl
  | ⟨.error _, _⟩ => rfl

theorem ownReply_mapInner (f : σ → τ) (t : Timeline σ α) :
    t.ownReply.inside (mapInner f) = (t.mapInner f).ownReply := by
  obtain ⟨inner, log, cursor, phase⟩ := t
  cases phase <;> rfl

theorem previous_mapInner (f : σ → τ) (t : Timeline σ α) :
    t.previous.inside (mapInner f) = (t.mapInner f).previous := by
  obtain ⟨inner, log, cursor, phase⟩ := t
  by_cases back : phase = .running ∧ ∃ p, cursor = some (p + 1)
  · obtain ⟨rfl, p, rfl⟩ := back
    cases h : log[p]? with
    | some a =>
      rw [previous_of_log rfl rfl h, previous_of_log (t := mapInner f _) rfl rfl h]
      rfl
    | none =>
      simp only [previous, mapInner, h]
      rfl
  · rw [previous_of_refused back,
      previous_of_refused (t := mapInner f ⟨inner, log, cursor, phase⟩) back]
    rfl

variable [Iterator σ α] [Iterator τ α]

theorem start_mapInner (same : (Iterator.start t.inner).inside f = Iterator.start (f t.inner)) :
    (Iterator.start t).inside (mapInner f) = Iterator.start (t.mapInner f) := by
  rcases t.start_cases with ⟨inner, below, step⟩ | ⟨e, inner, below, step⟩
  · rw [below] at same
    rw [step, start_of_ok (t := t.mapInner f) same.symm]
    rfl
  · rw [below] at same
    rw [step, start_of_error (t := t.mapInner f) same.symm]
    rfl

theorem next_mapInner
    (same : t.asks → (Iterator.next t.inner).inside f = Iterator.next (f t.inner)) :
    (Iterator.next t).inside (mapInner f) = Iterator.next (t.mapInner f) := by
  cases asks : t.asks with
  | true =>
    have asks' : (t.mapInner f).asks := asks
    rw [next_of_asks asks, next_of_asks asks', yielded_mapInner, same asks]
    rfl
  | false =>
    have asks' : (t.mapInner f).asks = false := asks
    rw [next_of_not_asks asks, next_of_not_asks asks', ownReply_mapInner]

end MapInner

end Timeline

end PullAlgebra
