import PullAlgebra.Iterator

/-!
# PullAlgebra.Pipeline.Timeline

A log of the items of an inner iterator, with a cursor that moves both ways. Behind the end of the
log items are replayed from it; at the end the inner iterator is asked for another one. A timeline
is never exhausted itself, so it can be stepped back after the last item.

* `previous`: one step back.
* `rewind`: steps back to the first item.
-/

namespace PullAlgebra

structure Timeline (σ α : Type) where
  inner : σ
  /-- The items since the last start. -/
  log : Array α
  /-- The position of the item that was returned last. -/
  cursor : Option Nat
  phase : Phase

namespace Timeline

variable {σ α : Type}

def ofInner (inner : σ) : Timeline σ α := ⟨inner, #[], none, .unopened⟩

/-- The position after the cursor. -/
@[inline] def ahead (t : Timeline σ α) : Nat :=
  match t.cursor with
  | none => 0
  | some i => i + 1

/-- The answer to `start` after the inner iterator's answer. -/
@[inline] def started (t : Timeline σ α) (reply : Reply σ Unit) : Reply (Timeline σ α) Unit :=
  match reply with
  | ⟨.ok (), inner⟩ => ⟨.ok (), ⟨inner, #[], none, .running⟩⟩
  | ⟨.error e, inner⟩ => ⟨.error e, { t with inner }⟩

/-- The answer to `next` after the inner iterator's answer. -/
@[inline] def yielded (t : Timeline σ α) (reply : Reply σ (Option α)) :
    Reply (Timeline σ α) (Option α) :=
  match t, reply with
  | ⟨_, log, _, phase⟩, ⟨.ok (some a), inner⟩ =>
    ⟨.ok (some a), ⟨inner, log.push a, some log.size, phase⟩⟩
  | ⟨_, log, cursor, phase⟩, ⟨.ok none, inner⟩ => ⟨.ok none, ⟨inner, log, cursor, phase⟩⟩
  | ⟨_, log, cursor, phase⟩, ⟨.error e, inner⟩ => ⟨.error e, ⟨inner, log, cursor, phase⟩⟩

/-- The answer to `next`; the inner iterator is asked only at the end of the log. -/
@[inline] def nextBy (t : Timeline σ α) (inner : Unit → Reply σ (Option α)) :
    Reply (Timeline σ α) (Option α) :=
  match t.phase.producing "Timeline" with
  | .error e => ⟨.error e, t⟩
  | .ok _ =>
    match t.log[t.ahead]? with
    | some a => ⟨.ok (some a), { t with cursor := some t.ahead }⟩
    | none => t.yielded (inner ())

/-- The timeline after the inner iterator was closed. It keeps its log. -/
@[inline] def closed (t : Timeline σ α) (inner : σ) : Timeline σ α :=
  { t with inner, phase := .closed }

instance [Iterator σ α] : Iterator (Timeline σ α) α where
  start t := t.started (Iterator.start t.inner)
  next t := t.nextBy fun _ => Iterator.next t.inner
  close t := t.closed (Iterator.close t.inner)

/-- Moves the cursor one step back and returns the item there. -/
def previous (t : Timeline σ α) : Reply (Timeline σ α) α :=
  match t.phase, t.cursor with
  | .running, some (i + 1) =>
    match t.log[i]? with
    | some a => ⟨.ok a, { t with cursor := some i }⟩
    | none => ⟨.error (.noRow i), t⟩
  | phase, _ => ⟨.error (.invalidState "Timeline" .previous phase), t⟩

/-- The items of the log and of the inner iterator that are still to come. -/
def budgetWith (budget : σ → Nat) (t : Timeline σ α) : Nat :=
  (t.log.size - t.ahead) + budget t.inner

theorem budget_nextBy {t : Timeline σ α} {inner : Unit → Reply σ (Option α)} {a : α}
    (budget : σ → Nat) (h : (t.nextBy inner).result = .ok (some a))
    (falls : ∀ b, (inner ()).result = .ok (some b) → budget (inner ()).after < budget t.inner) :
    (t.nextBy inner).after.budgetWith budget < t.budgetWith budget := by
  unfold nextBy at h ⊢
  split at h
  · cases h
  · split at h
    · rename_i hl
      have : t.ahead < t.log.size := (Array.getElem?_eq_some_iff.1 hl).1
      simp only [budgetWith, ahead] at this ⊢
      omega
    · unfold yielded at h ⊢
      split at h
      · rename_i hr _ _
        rw [hr] at falls
        have := falls _ rfl
        simp only [budgetWith, ahead, Array.size_push] at this ⊢
        omega
      · cases h
      · cases h

instance [FiniteIterator σ α] : FiniteIterator (Timeline σ α) α where
  budget := budgetWith FiniteIterator.budget
  budget_next h := budget_nextBy _ h fun _ => FiniteIterator.budget_next

theorem ahead_previous {t after : Timeline σ α} {a : α} (h : t.previous = ⟨.ok a, after⟩) :
    after.ahead < t.ahead := by
  unfold previous at h
  split at h
  · rename_i hc
    split at h
    · cases h; simp [ahead, hc]
    · cases h
  · cases h

/-- Calls `previous` until it fails, and keeps the items. -/
def rewindFrom (items : Array α) (t : Timeline σ α) : Drained (Timeline σ α) (Array α) :=
  match h : t.previous with
  | ⟨.ok a, after⟩ =>
    have := ahead_previous h
    rewindFrom (items.push a) after
  | ⟨.error e, after⟩ => ⟨items, some e, after⟩
termination_by t.ahead

/-- Steps back until there is no earlier item. -/
def rewind (t : Timeline σ α) : Drained (Timeline σ α) (Array α) := rewindFrom #[] t

end Timeline
end PullAlgebra
