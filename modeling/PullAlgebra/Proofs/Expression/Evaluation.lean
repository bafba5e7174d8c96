import PullAlgebra.Expression

/-!
# PullAlgebra.Proofs.Expression.Evaluation

Evaluation taken apart: the result of an operation from the results of its operands, and the parts
of an expression that its errors come from.

* `parts`: an expression and all expressions in it.
* `Raises`: a part fails on its own account, not because an operand fails.
* `exists_raises`: every error of an expression is raised by one of its parts.
-/

namespace PullAlgebra

theorem BinaryOp.apply_error {op : BinaryOp} {v w : Value} {e : QueryError}
    (h : op.apply v w = .error e) :
    (∃ a, op = .arithmetic a ∧ a.result? v w = none ∧ e = .noArithmetic a v w) ∨
      (∃ c, op = .comparison c ∧ v.compare? w = none ∧ e = .noComparison v w) ∨
        ∃ l, op = .logical l ∧ ¬(v.type = .boolean ∧ w.type = .boolean) ∧ e = .noLogic l v w := by
  cases op with
  | arithmetic a =>
    simp only [apply] at h
    split at h
    · cases h
    · cases h; exact .inl ⟨a, rfl, ‹_›, rfl⟩
  | comparison c =>
    simp only [apply] at h
    split at h
    · cases h
    · cases h; exact .inr (.inl ⟨c, rfl, ‹_›, rfl⟩)
  | logical l =>
    refine .inr (.inr ⟨l, rfl, ?_⟩)
    cases v <;> cases w <;> cases h <;> exact ⟨by simp [Value.type], rfl⟩

namespace Expression

variable {t : Tuple} {e : Expression}

theorem evaluate_binary {op : BinaryOp} {p q : Expression} {v w : Value}
    (hp : p.evaluate t = .ok v) (hq : q.evaluate t = .ok w) :
    (binary op p q).evaluate t = op.apply v w := by
  simp only [evaluate, hp, hq]
  rfl

theorem evaluate_bound {i : Nat} {f : Field} (h : t.fields[i]? = some f) :
    (bound i).evaluate t = .ok f.value := by
  simp only [evaluate, h]

theorem evaluate_not {v : Value} (h : e.evaluate t = .ok v) : e.not.evaluate t = negate v := by
  simp only [evaluate, h]
  rfl

/-- An expression and all expressions in it. -/
def parts : Expression → List Expression
  | column name => [column name]
  | bound i => [bound i]
  | literal v => [literal v]
  | binary op left right => binary op left right :: (left.parts ++ right.parts)
  | not e => not e :: e.parts

theorem self_mem_parts (e : Expression) : e ∈ e.parts := by
  cases e <;> exact List.mem_cons_self ..

/-- The expression fails with the error on its own account: its operands have values, if there are
any. -/
inductive Raises (t : Tuple) : Expression → QueryError → Prop
  | unbound {name : String} : Raises t (column name) (.unbound name)
  | noField {i : Nat} (none : t.fields[i]? = none) : Raises t (bound i) (.noField i)
  | operation {op : BinaryOp} {p q : Expression} {v w : Value} {err : QueryError}
      (left : p.evaluate t = .ok v) (right : q.evaluate t = .ok w)
      (failed : op.apply v w = .error err) : Raises t (binary op p q) err
  | negation {p : Expression} {v : Value} {err : QueryError} (operand : p.evaluate t = .ok v)
      (failed : negate v = .error err) : Raises t (not p) err

theorem exists_raises {err : QueryError} (h : e.evaluate t = .error err) :
    ∃ p ∈ e.parts, Raises t p err := by
  induction e with
  | column name => cases h; exact ⟨_, self_mem_parts _, .unbound⟩
  | bound i =>
    unfold evaluate at h
    split at h <;> cases h
    exact ⟨_, self_mem_parts _, .noField ‹_›⟩
  | literal v => cases h
  | binary op left right ihl ihr =>
    cases hl : left.evaluate t with
    | error e =>
      simp only [evaluate, hl] at h
      cases h
      obtain ⟨p, hp, raises⟩ := ihl hl
      exact ⟨p, List.mem_cons_of_mem _ (List.mem_append_left _ hp), raises⟩
    | ok v =>
      cases hr : right.evaluate t with
      | error e =>
        simp only [evaluate, hl, hr] at h
        cases h
        obtain ⟨p, hp, raises⟩ := ihr hr
        exact ⟨p, List.mem_cons_of_mem _ (List.mem_append_right _ hp), raises⟩
      | ok w =>
        rw [evaluate_binary hl hr] at h
        exact ⟨_, self_mem_parts _, .operation hl hr h⟩
  | not e ih =>
    cases he : e.evaluate t with
    | error e' =>
      simp only [evaluate, he] at h
      cases h
      obtain ⟨p, hp, raises⟩ := ih he
      exact ⟨p, List.mem_cons_of_mem _ hp, raises⟩
    | ok v =>
      rw [evaluate_not he] at h
      exact ⟨_, self_mem_parts _, .negation he h⟩

/-- What the operators report is never that a column cannot be found. -/
theorem Raises.column_or_position {p : Expression} {err : QueryError} (h : Raises t p err) :
    (∀ name, err = .unbound name → p = column name) ∧ ∀ i, err = .noField i → p = bound i := by
  cases h with
  | unbound => simp
  | noField => simp
  | operation _ _ failed =>
    rcases BinaryOp.apply_error failed with ⟨_, -, -, rfl⟩ | ⟨_, -, -, rfl⟩ | ⟨_, -, -, rfl⟩ <;> simp
  | @negation p v _ _ failed => cases v <;> cases failed <;> simp

end Expression
end PullAlgebra
