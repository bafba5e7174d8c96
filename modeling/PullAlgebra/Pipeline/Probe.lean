import PullAlgebra.Iterator

/-!
# PullAlgebra.Pipeline.Probe

A place in a plan at which calls are counted and chosen ones fail. A call that fails here does not
reach the inner iterator; all others pass through unchanged.
-/

namespace PullAlgebra

structure Probe (σ : Type) where
  inner : σ
  /-- Which calls of `start` fail, counted from one. -/
  failsStart : Nat → Bool
  /-- Which calls of `next` fail, counted from one. -/
  failsNext : Nat → Bool
  starts : Nat
  nexts : Nat
  closes : Nat

namespace Probe

variable {σ α : Type}

def ofInner (inner : σ) (failsStart failsNext : Nat → Bool) : Probe σ :=
  ⟨inner, failsStart, failsNext, 0, 0, 0⟩

@[inline] def startBy (p : Probe σ) (inner : Unit → Reply σ Unit) : Reply (Probe σ) Unit :=
  let count := p.starts + 1
  if p.failsStart count then ⟨.error (.injected .start count), { p with starts := count }⟩
  else (inner ()).inside fun inner => { p with inner, starts := count }

@[inline] def nextBy (p : Probe σ) (inner : Unit → Reply σ (Option α)) :
    Reply (Probe σ) (Option α) :=
  let count := p.nexts + 1
  if p.failsNext count then ⟨.error (.injected .next count), { p with nexts := count }⟩
  else (inner ()).inside fun inner => { p with inner, nexts := count }

@[inline] def closed (p : Probe σ) (inner : σ) : Probe σ :=
  { p with inner, closes := p.closes + 1 }

instance [Iterator σ α] : Iterator (Probe σ) α where
  start p := p.startBy fun _ => Iterator.start p.inner
  next p := p.nextBy fun _ => Iterator.next p.inner
  close p := p.closed (Iterator.close p.inner)

theorem budget_nextBy {p : Probe σ} {inner : Unit → Reply σ (Option α)} {a : α}
    (budget : σ → Nat) (h : (p.nextBy inner).result = .ok (some a))
    (falls : ∀ b, (inner ()).result = .ok (some b) → budget (inner ()).after < budget p.inner) :
    budget (p.nextBy inner).after.inner < budget p.inner := by
  unfold nextBy at h ⊢
  dsimp only at h ⊢
  split at h
  · cases h
  · rename_i hf
    rw [if_neg hf]
    exact falls a h

instance [FiniteIterator σ α] : FiniteIterator (Probe σ) α where
  budget p := FiniteIterator.budget p.inner
  budget_next h := budget_nextBy _ h fun _ => FiniteIterator.budget_next

end Probe
end PullAlgebra
