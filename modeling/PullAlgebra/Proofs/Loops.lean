import PullAlgebra.Proofs.Emission

/-!
# PullAlgebra.Proofs.Loops

Loops turn by turn. A function that calls itself at its end is a loop that goes on from state to state
until there is a result, and it comes to its end if a number falls with every turn. How many turns it
takes is then a statement about the loop and not about the function.

* `within`: the result of a loop, if it comes in a given number of turns.
* `within_of_variant`: a loop that computes a function, and the number that falls.
* `foldTurn`: the loop of a fold over the items of a run; `within_foldNext`,
  `within_foldNext_of_emits` how many turns it takes.
-/

namespace PullAlgebra

section Loops

variable {σ β : Type} {turn : σ → σ ⊕ β}

/-- The result of a loop within a number of turns. A turn leads to the next state or to the result. -/
def within (turn : σ → σ ⊕ β) : Nat → σ → Option β
  | 0, _ => none
  | n + 1, s =>
    match turn s with
    | .inl after => within turn n after
    | .inr b => some b

theorem within_succ_of_inl {s after : σ} (h : turn s = .inl after) (n : Nat) :
    within turn (n + 1) s = within turn n after := by
  simp only [within, h]

theorem within_succ_of_inr {s : σ} {b : β} (h : turn s = .inr b) (n : Nat) :
    within turn (n + 1) s = some b := by
  simp only [within, h]

theorem within_mono {n m : Nat} (le : n ≤ m) {s : σ} {b : β} (h : within turn n s = some b) :
    within turn m s = some b := by
  induction n generalizing m s with
  | zero => cases h
  | succ n ih =>
    obtain ⟨m, rfl⟩ := Nat.exists_eq_add_of_lt le
    cases turned : turn s with
    | inl after =>
      rw [within_succ_of_inl turned] at h ⊢
      exact ih (Nat.le_add_right n m) h
    | inr b' =>
      rw [within_succ_of_inr turned] at h ⊢
      exact h

/-- A loop whose turns keep what a function gives, and let a number fall, gives the same in at most one
turn more than this number. -/
theorem within_of_variant (run : σ → β) (variant : σ → Nat)
    (step : ∀ s, turn s = .inr (run s) ∨
      ∃ after, turn s = .inl after ∧ run after = run s ∧ variant after < variant s) (s : σ) :
    within turn (variant s + 1) s = some (run s) := by
  suffices enough : ∀ n s, variant s ≤ n → within turn (n + 1) s = some (run s) from
    enough _ s (Nat.le_refl _)
  intro n
  induction n with
  | zero =>
    intro s le
    rcases step s with result | ⟨after, -, -, less⟩
    · exact within_succ_of_inr result 0
    · omega
  | succ n ih =>
    intro s le
    rcases step s with result | ⟨after, turned, same, less⟩
    · exact within_succ_of_inr result _
    · rw [within_succ_of_inl turned, ih after (by omega), same]

end Loops

/-! ## Folds -/

section Folds

variable {σ α β : Type}

/-- One turn of a fold: the total and the state after one more item, or what the fold comes to. -/
def foldTurn [Iterator σ α] (f : β → α → β) (x : β × σ) : (β × σ) ⊕ Drained σ β :=
  match Iterator.next x.2 with
  | ⟨.ok (some a), after⟩ => .inl (f x.1 a, after)
  | ⟨.ok none, after⟩ => .inr ⟨x.1, none, after⟩
  | ⟨.error e, after⟩ => .inr ⟨x.1, some e, after⟩

variable [FiniteIterator σ α]

/-- One turn of a fold is one unfolding of it. -/
theorem foldTurn_cases (f : β → α → β) (total : β) (s : σ) :
    foldTurn f (total, s) = .inr (foldNext f total s) ∨
      ∃ a after, Iterator.next s = ⟨.ok (some a), after⟩ ∧
        foldTurn f (total, s) = .inl (f total a, after) ∧
        foldNext f (f total a) after = foldNext f total s := by
  rw [foldNext_eq f total s]
  match hn : Iterator.next s with
  | ⟨.ok (some a), after⟩ => exact .inr ⟨a, after, rfl, by simp only [foldTurn, hn], rfl⟩
  | ⟨.ok none, after⟩ => exact .inl (by simp only [foldTurn, hn])
  | ⟨.error e, after⟩ => exact .inl (by simp only [foldTurn, hn])

theorem within_foldNext (f : β → α → β) (total : β) (s : σ) :
    within (foldTurn f) (FiniteIterator.budget s + 1) (total, s) = some (foldNext f total s) := by
  refine within_of_variant (fun x : β × σ => foldNext f x.1 x.2) (fun x => FiniteIterator.budget x.2)
    ?_ (total, s)
  rintro ⟨total, s⟩
  rcases foldTurn_cases f total s with result | ⟨a, after, item, turned, same⟩
  · exact .inl result
  · exact .inr ⟨_, turned, same, budget_lt_of_next item⟩

/-- A fold takes one turn for each outcome of the run and one more, or fewer after an error. -/
theorem within_foldNext_of_emits {s : σ} {outcomes : List (Except QueryError α)} (h : Emits s outcomes)
    (f : β → α → β) (total : β) :
    within (foldTurn f) (outcomes.length + 1) (total, s) = some (foldNext f total s) := by
  induction h generalizing total with
  | @done s after hn =>
    rcases foldTurn_cases f total s with result | ⟨_, _, item, -, -⟩
    · exact within_succ_of_inr result 0
    · cases hn.symm.trans item
  | @item s after a rest hn _ ih =>
    rcases foldTurn_cases f total s with result | ⟨_, _, item, turned, same⟩
    · exact within_succ_of_inr result _
    · cases hn.symm.trans item
      rw [List.length_cons, within_succ_of_inl turned, ih, same]
  | @fail s after e rest hn _ ih =>
    rcases foldTurn_cases f total s with result | ⟨_, _, item, -, -⟩
    · exact within_succ_of_inr result _
    · cases hn.symm.trans item

end Folds
end PullAlgebra
