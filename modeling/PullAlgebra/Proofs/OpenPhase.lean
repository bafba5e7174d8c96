import PullAlgebra.Iterator

/-!
# PullAlgebra.Proofs.OpenPhase

The phases in which `next` is let through: an operator that is running or exhausted is open, and in
both other phases the call is refused.
-/

namespace PullAlgebra

namespace Phase

/-- Whether a start has succeeded, after which there was no close. -/
def isOpen : Phase → Bool
  | running | exhausted => true
  | unopened | closed => false

theorem producing_of_isOpen {phase : Phase} (h : phase.isOpen) (operator : String) :
    ∃ produces, phase.producing operator = .ok produces := by
  cases phase with
  | running => exact ⟨true, rfl⟩
  | exhausted => exact ⟨false, rfl⟩
  | _ => cases h

theorem isOpen_of_producing {phase : Phase} {operator : String} {produces : Bool}
    (h : phase.producing operator = .ok produces) : phase.isOpen := by
  cases phase with
  | running | exhausted => rfl
  | _ => cases h

theorem producing_of_not_isOpen {phase : Phase} (h : phase.isOpen = false) (operator : String) :
    phase.producing operator = .error (.invalidState operator .next phase) := by
  cases phase with
  | unopened | closed => rfl
  | _ => cases h

theorem gate_of_not_isOpen {σ α : Type} {phase : Phase} (h : phase.isOpen = false)
    (operator : String) (s : σ) (produce : Unit → Reply σ (Option α)) :
    phase.gate operator s produce = ⟨.error (.invalidState operator .next phase), s⟩ := by
  unfold gate
  rw [producing_of_not_isOpen h]

end Phase

end PullAlgebra
