import PullAlgebra.Proofs.Expression.Evaluation
import PullAlgebra.Proofs.Result

/-!
# PullAlgebra.Proofs.Expression.Formulas

Predicates as propositional formulas. Both operands of a logical operation are evaluated, whatever
the first one comes to, so a predicate succeeds if and only if all its atoms have boolean values, and
then it comes to the truth value of the formula. Formulas with the same atoms and the same truth
values can therefore stand for each other.

* `Formula`: a predicate by the logical operations that it is built with, down to its atoms.
* `Formula.truth`: its truth value, given those of its atoms.
* `Formula.test_cases`: what the predicate comes to on a tuple.
* `Formula.equivalent_predicates_agree`: equivalent formulas.
-/

namespace PullAlgebra

/-- How a predicate is built with the logical operations. What counts as an atom is left open: it may
be any expression, also one with logical operations of its own. -/
inductive Formula where
  | atom (e : Expression)
  | and (left right : Formula)
  | or (left right : Formula)
  | not (f : Formula)

namespace Expression

variable {t : Tuple} {e p q : Expression} {b : Bool}

theorem test_eq_ok_iff : e.test t = .ok b ↔ e.evaluate t = .ok (.boolean b) := by
  unfold test
  split
  · rename_i c h
    simp [h]
  · rename_i v notBoolean h
    simp only [h, reduceCtorEq, Except.ok.injEq, false_iff]
    exact notBoolean b
  · rename_i err h
    simp [h]

/-- The truth value of an expression on a tuple, if it has one. -/
def reading (t : Tuple) (e : Expression) : Bool :=
  match e.test t with
  | .ok b => b
  | .error _ => false

theorem evaluate_reading (h : e.evaluate t = .ok (.boolean b)) :
    e.evaluate t = .ok (.boolean (e.reading t)) := by
  rw [reading, test_eq_ok_iff.2 h]
  exact h

/-- A logical operation has a value only if both operands have boolean ones. -/
theorem booleans_of_logical {op : LogicalOp} {v : Value}
    (h : (binary (.logical op) p q).evaluate t = .ok v) :
    ∃ a b, p.evaluate t = .ok (.boolean a) ∧ q.evaluate t = .ok (.boolean b) := by
  obtain ⟨v, hv, h⟩ := bind_eq_ok h
  obtain ⟨w, hw, h⟩ := bind_eq_ok h
  cases v <;> cases w <;> cases h
  exact ⟨_, _, hv, hw⟩

theorem boolean_of_not {v : Value} (h : p.not.evaluate t = .ok v) :
    ∃ a, p.evaluate t = .ok (.boolean a) := by
  obtain ⟨v, hv, h⟩ := bind_eq_ok h
  cases v <;> cases h
  exact ⟨_, hv⟩

end Expression

namespace Formula

open Expression (reading test_eq_ok_iff)

/-- The predicate itself. -/
def expression : Formula → Expression
  | atom e => e
  | and f g => .binary (.logical .and) f.expression g.expression
  | or f g => .binary (.logical .or) f.expression g.expression
  | not f => .not f.expression

def atoms : Formula → List Expression
  | atom e => [e]
  | and f g => f.atoms ++ g.atoms
  | or f g => f.atoms ++ g.atoms
  | not f => f.atoms

/-- The truth value, given those of the atoms. -/
def truth (value : Expression → Bool) : Formula → Bool
  | atom e => value e
  | and f g => f.truth value && g.truth value
  | or f g => f.truth value || g.truth value
  | not f => !f.truth value

variable {f g : Formula} {t : Tuple}

theorem evaluate_of_atoms {value : Expression → Bool}
    (h : ∀ e ∈ f.atoms, e.evaluate t = .ok (.boolean (value e))) :
    f.expression.evaluate t = .ok (.boolean (f.truth value)) := by
  induction f with
  | atom e => exact h e (List.mem_singleton_self e)
  | and f g ihf ihg | or f g ihf ihg =>
    have left := ihf fun e he => h e (List.mem_append_left _ he)
    have right := ihg fun e he => h e (List.mem_append_right _ he)
    exact Expression.evaluate_binary left right
  | not f ih => exact Expression.evaluate_not (ih h)

theorem atoms_of_evaluate {b : Bool} (h : f.expression.evaluate t = .ok (.boolean b)) :
    ∀ e ∈ f.atoms, e.evaluate t = .ok (.boolean (e.reading t)) := by
  induction f generalizing b with
  | atom e =>
    intro e he
    obtain rfl := List.mem_singleton.1 he
    exact Expression.evaluate_reading h
  | and f g ihf ihg | or f g ihf ihg =>
    -- a result needs both operands, also where the first one settles it
    obtain ⟨_, _, left, right⟩ := Expression.booleans_of_logical h
    intro e he
    exact (List.mem_append.1 he).elim (ihf left e) (ihg right e)
  | not f ih =>
    obtain ⟨_, operand⟩ := Expression.boolean_of_not h
    exact ih operand

/-- All atoms have boolean values and the predicate comes to its truth value, or there is an atom
without one and the predicate fails. -/
theorem test_cases (f : Formula) (t : Tuple) :
    ((∀ e ∈ f.atoms, e.evaluate t = .ok (.boolean (e.reading t))) ∧
      f.expression.test t = .ok (f.truth (reading t))) ∨
    (∃ e ∈ f.atoms, ∀ b, e.evaluate t ≠ .ok (.boolean b)) ∧
      ∃ err, f.expression.test t = .error err := by
  by_cases h : ∀ e ∈ f.atoms, e.evaluate t = .ok (.boolean (e.reading t))
  · exact .inl ⟨h, test_eq_ok_iff.2 (evaluate_of_atoms h)⟩
  · refine .inr ⟨?_, ?_⟩
    · push Not at h
      obtain ⟨e, he, unread⟩ := h
      exact ⟨e, he, fun b value => unread (Expression.evaluate_reading value)⟩
    · cases tested : f.expression.test t with
      | ok b => exact absurd (atoms_of_evaluate (test_eq_ok_iff.1 tested)) h
      | error err => exact ⟨err, rfl⟩

/-- Predicates that are equivalent as formulas over the same atoms agree on every tuple: if all atoms
have boolean values, both come to the truth value that these give, and otherwise both fail. -/
theorem equivalent_predicates_agree (sameAtoms : ∀ e, e ∈ f.atoms ↔ e ∈ g.atoms)
    (equivalent : ∀ value, f.truth value = g.truth value) (t : Tuple) :
    (∃ value : Expression → Bool, (∀ e ∈ f.atoms, e.evaluate t = .ok (.boolean (value e))) ∧
      f.expression.test t = .ok (f.truth value) ∧ g.expression.test t = .ok (f.truth value)) ∨
    (∃ e ∈ f.atoms, ∀ b, e.evaluate t ≠ .ok (.boolean b)) ∧
      (∃ err, f.expression.test t = .error err) ∧ ∃ err, g.expression.test t = .error err := by
  rcases f.test_cases t with ⟨values, left⟩ | ⟨⟨e, he, unread⟩, left⟩ <;>
  rcases g.test_cases t with ⟨values', right⟩ | ⟨⟨e', he', unread'⟩, right⟩
  · exact .inl ⟨reading t, values, left, equivalent (reading t) ▸ right⟩
  · exact absurd (values e' ((sameAtoms e').2 he')) (unread' _)
  · exact absurd (values' e ((sameAtoms e).1 he)) (unread _)
  · exact .inr ⟨⟨e, he, unread⟩, left, right⟩

/-- `p or q` and `not (not p and not q)`: both are true of two true columns, and both fail when the
second column holds a number, though the first one alone would settle the matter. -/
theorem disjunction_by_negations : ∃ (f g : Formula) (t u : Tuple),
    f = .or (.atom (.bound 0)) (.atom (.bound 1)) ∧
      g = .not (.and (.not (.atom (.bound 0))) (.not (.atom (.bound 1)))) ∧
      (∀ e, e ∈ f.atoms ↔ e ∈ g.atoms) ∧ (∀ value, f.truth value = g.truth value) ∧
      t.values = [.boolean true, .boolean true] ∧ u.values = [.boolean true, .integer 1] ∧
      g.expression.test t = .ok true ∧ ∃ err, g.expression.test u = .error err := by
  let p : Expression := .bound 0
  let q : Expression := .bound 1
  let f : Formula := .or (.atom p) (.atom q)
  let g : Formula := .not (.and (.not (.atom p)) (.not (.atom q)))
  let flag : Field := ⟨⟨"flag", .boolean⟩, .boolean true⟩
  let other : Field := ⟨⟨"other", .boolean⟩, .boolean true⟩
  let count : Field := ⟨⟨"count", .integer⟩, .integer 1⟩
  let t : Tuple := ⟨[flag, other], by decide, by
    simp [flag, other, Field.Stored, ColumnType.Stores, Value.type]⟩
  let u : Tuple := ⟨[flag, count], by decide, by
    simp [flag, count, Field.Stored, ColumnType.Stores, Value.type]⟩
  have sameAtoms : ∀ e, e ∈ f.atoms ↔ e ∈ g.atoms := fun _ => Iff.rfl
  have equivalent : ∀ value, f.truth value = g.truth value := by
    intro value
    simp [f, g, truth]
  refine ⟨f, g, t, u, rfl, rfl, sameAtoms, equivalent, rfl, rfl, ?_, ?_⟩
  · rcases equivalent_predicates_agree sameAtoms equivalent t with
      ⟨value, values, -, right⟩ | ⟨⟨e, he, unread⟩, -⟩
    · have first : p.evaluate t = .ok (.boolean true) := rfl
      have known : value p = true := by
        simpa using (values p (List.mem_cons_self ..)).symm.trans first
      have whole : f.truth value = true := by simp [f, truth, known]
      rwa [whole] at right
    · rcases List.mem_cons.1 he with rfl | he
      · exact absurd rfl (unread true)
      · obtain rfl := List.mem_singleton.1 he
        exact absurd rfl (unread true)
  · rcases equivalent_predicates_agree sameAtoms equivalent u with
      ⟨value, values, -, -⟩ | ⟨-, -, failed⟩
    · have second : q.evaluate u = .ok (.integer 1) := rfl
      cases second.symm.trans (values q (List.mem_cons_of_mem _ (List.mem_singleton_self q)))
    · exact failed

end Formula
end PullAlgebra
