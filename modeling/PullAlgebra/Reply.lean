import PullAlgebra.QueryError

/-!
# PullAlgebra.Reply

The answers to calls that change what is called. A call answers with a result and the state after
it, also when the result is an error.
-/

namespace PullAlgebra

/-- The answer to a call: its result, and the state in which the call leaves what was called. -/
structure Reply (σ : Type) (β : Type) (ε : Type := QueryError) where
  result : Except ε β
  after : σ

namespace Reply

variable {σ τ β ε : Type}

/-- The same answer of something that contains what was called. -/
@[inline] def inside (wrap : σ → τ) (r : Reply σ β ε) : Reply τ β ε := ⟨r.result, wrap r.after⟩

/-- The state after a call that succeeded, or only the error of one that failed. -/
def kept (r : Reply σ β ε) : Except ε σ := r.result.map fun _ => r.after

@[simp] theorem kept_ok (b : β) (s : σ) : (⟨.ok b, s⟩ : Reply σ β ε).kept = .ok s := rfl

@[simp] theorem kept_error (e : ε) (s : σ) : (⟨.error e, s⟩ : Reply σ β ε).kept = .error e := rfl

end Reply
end PullAlgebra
