import PullAlgebra.Reply

/-!
# PullAlgebra.Iterator

The pull protocol. An iterator is a state with three calls: `start` begins a run, or begins it
again; `next` yields one more item or says that there is none; `close` gives up what the run holds.

An iterator is finite when a budget falls with each item that it yields. Only for such iterators
are there runs to the end.

* `foldNext`: calls `next` until there is no item or an error.
* `collect`: a whole run, with all its items.
-/

namespace PullAlgebra

/-- The answer to `next` as the phase decides it: an error before the start and after the end of a
run, nothing when it is exhausted, and otherwise what the operator produces. -/
@[inline] def Phase.gate {σ α : Type} (phase : Phase) (operator : String) (s : σ)
    (produce : Unit → Reply σ (Option α)) : Reply σ (Option α) :=
  match phase.producing operator with
  | .ok true => produce ()
  | .ok false => ⟨.ok none, s⟩
  | .error e => ⟨.error e, s⟩

class Iterator (σ : Type) (α : outParam Type) where
  /-- Begins a run from the first item, in whatever state the iterator is. -/
  start : σ → Reply σ Unit
  /-- Yields the next item of the run, or none at its end. -/
  next : σ → Reply σ (Option α)
  /-- Ends the run. -/
  close : σ → σ

class FiniteIterator (σ : Type) (α : outParam Type) extends Iterator σ α where
  /-- A bound on the items that are still to come. -/
  budget : σ → Nat
  budget_next : ∀ {s : σ} {a : α}, (next s).result = .ok (some a) → budget (next s).after < budget s

/-- What calling `next` to the end comes to: a total over the items, the error that ended it if it
was one, and the state after it. -/
structure Drained (σ : Type) (β : Type) where
  total : β
  failure : Option QueryError
  after : σ

/-- What makes a budget fall in an operator's own work makes it fall behind the gate. -/
theorem Phase.lt_of_gate {σ α : Type} {phase : Phase} {operator : String} {s : σ}
    {produce : Unit → Reply σ (Option α)} {a : α} (budget : σ → Nat)
    (h : (phase.gate operator s produce).result = .ok (some a))
    (falls : (produce ()).result = .ok (some a) → budget (produce ()).after < budget s) :
    budget (phase.gate operator s produce).after < budget s := by
  cases phase with
  | running => exact falls h
  | _ => cases h

section Runs

variable {σ α : Type} [FiniteIterator σ α]

open Iterator FiniteIterator

theorem budget_lt_of_next {s after : σ} {a : α} (h : next s = ⟨.ok (some a), after⟩) :
    budget after < budget s := by
  have lt := budget_next (s := s) (a := a)
  rw [h] at lt
  exact lt rfl

/-- Calls `next` until it yields nothing or fails, and folds the items. -/
@[specialize] def foldNext {β : Type} (f : β → α → β) (total : β) (s : σ) : Drained σ β :=
  match h : next s with
  | ⟨.ok (some a), after⟩ =>
    have := budget_lt_of_next h
    foldNext f (f total a) after
  | ⟨.ok none, after⟩ => ⟨total, none, after⟩
  | ⟨.error e, after⟩ => ⟨total, some e, after⟩
termination_by budget s

/-- The items of the rest of a run. -/
def drain (s : σ) : Drained σ (Array α) := foldNext Array.push #[] s

/-- The number of items of the rest of a run, which are not kept. -/
def countRest (s : σ) : Drained σ Nat := foldNext (fun n _ => n + 1) 0 s

/-- Starts the iterator, folds the whole run, and closes it, also after an error of `next`. -/
@[specialize] def foldRun {β : Type} (f : β → α → β) (total : β) (s : σ) : Reply σ β :=
  match start s with
  | ⟨.error e, after⟩ => ⟨.error e, after⟩
  | ⟨.ok (), after⟩ =>
    let run := foldNext f total after
    match run.failure with
    | none => ⟨.ok run.total, close run.after⟩
    | some e => ⟨.error e, close run.after⟩

/-- All items of a run. -/
def collect (s : σ) : Reply σ (Array α) := foldRun Array.push #[] s

end Runs

end PullAlgebra
