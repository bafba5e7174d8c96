import PullAlgebra.Proofs.Expression.Typing

/-!
# PullAlgebra.Proofs.Expression.IntegerArithmetic

Arithmetic on integers in exact terms. An expression over integers has a value in the unbounded
integers, if no divisor in it is zero. It evaluates to this value when the value of every part of it
has 64 bits, and is rejected otherwise, also when an intermediate value alone is out of range.

* `OverIntegers`: integer literals, integer columns, and arithmetic on them.
* `exact`: the value in the unbounded integers.
* `Representable`: no part of the expression stands in the way of that value.
* `integers_exact_or_rejected`: what the bound expression evaluates to.
-/

namespace PullAlgebra

/-- Two integers have a result if the divisor is not zero and the exact result has 64 bits. -/
theorem ArithmeticOp.onIntegers?_eq_some_iff {op : ArithmeticOp} {i j k : Int64} :
    op.onIntegers? i j = some k ↔
      (op = .divide → j.toInt ≠ 0) ∧ op.exact i.toInt j.toInt = k.toInt := by
  have ofInt? {n : Int} : Integer64.ofInt? n = some k ↔ n = k.toInt := by
    constructor
    · intro kept
      exact (Integer64.toInt_of_ofInt? kept).symm
    · rintro rfl
      exact Integer64.ofInt?_toInt k
  cases op with
  | divide =>
    have zero : j = 0 ↔ j.toInt = 0 := by
      rw [← Int64.toInt_zero, Int64.toInt_inj]
    by_cases h : j = 0
    · simp [onIntegers?, Integer64.div?, h]
    · have divided : onIntegers? divide i j = Integer64.ofInt? (i.toInt.tdiv j.toInt) := if_neg h
      rw [divided, ofInt?, exact, ne_eq, ← zero]
      simp [h]
  | _ => simp [onIntegers?, exact, Integer64.add?, Integer64.sub?, Integer64.mul?, ofInt?]

namespace Expression

/-- The integer that a value is. -/
def integerIn : Option Value → Int
  | some (.integer i) => i.toInt
  | _ => 0

/-- Built from integer literals and integer columns of the schema by arithmetic alone. -/
def OverIntegers (s : Schema) : Expression → Prop
  | column name => ⟨name, .integer⟩ ∈ s.columns
  | bound i => ∃ name, s.columns[i]? = some ⟨name, .integer⟩
  | literal v => v.type = .integer
  | binary (.arithmetic _) p q => p.OverIntegers s ∧ q.OverIntegers s
  | _ => False

/-- The value in the unbounded integers, columns having their values on the tuple. Quotients lose
their fractional part. -/
def exact (t : Tuple) : Expression → Int
  | column name => integerIn (t.get? name)
  | bound i => integerIn t.values[i]?
  | literal v => integerIn (some v)
  | binary (.arithmetic op) p q => op.exact (p.exact t) (q.exact t)
  | _ => 0

/-- Each value on the way has 64 bits, and no divisor is zero. -/
structure Representable (t : Tuple) (e : Expression) : Prop where
  inRange : ∀ p ∈ e.parts, Integer64.InRange (p.exact t)
  divisors : ∀ p q, binary (.arithmetic .divide) p q ∈ e.parts → q.exact t ≠ 0

variable {s : Schema} {t : Tuple} {e p q b : Expression} {op : ArithmeticOp}

theorem representable_of_parts_eq (alone : e.parts = [e])
    (range : Integer64.InRange (e.exact t)) : e.Representable t := by
  constructor
  case inRange =>
    intro p hp
    rw [alone] at hp
    exact List.mem_singleton.1 hp ▸ range
  case divisors =>
    intro p q hp
    rw [alone] at hp
    obtain rfl := List.mem_singleton.1 hp
    -- a quotient has its operands for parts as well
    have operand : p ∈ p.parts ++ q.parts := List.mem_append_left _ (self_mem_parts p)
    rw [(List.cons.inj alone).2] at operand
    exact absurd operand List.not_mem_nil

theorem representable_binary_iff : (binary (.arithmetic op) p q).Representable t ↔
    p.Representable t ∧ q.Representable t ∧ (op = .divide → q.exact t ≠ 0) ∧
      Integer64.InRange (op.exact (p.exact t) (q.exact t)) := by
  constructor
  · rintro ⟨inRange, divisors⟩
    refine ⟨⟨?_, ?_⟩, ⟨?_, ?_⟩, ?_, inRange _ (self_mem_parts _)⟩
    · exact fun r hr => inRange r (List.mem_cons_of_mem _ (List.mem_append_left _ hr))
    · exact fun r r' hr => divisors r r' (List.mem_cons_of_mem _ (List.mem_append_left _ hr))
    · exact fun r hr => inRange r (List.mem_cons_of_mem _ (List.mem_append_right _ hr))
    · exact fun r r' hr => divisors r r' (List.mem_cons_of_mem _ (List.mem_append_right _ hr))
    · rintro rfl
      exact divisors p q (self_mem_parts _)
  · rintro ⟨left, right, divisor, range⟩
    constructor
    case inRange =>
      intro r hr
      rcases List.mem_cons.1 hr with rfl | inner
      · exact range
      · exact (List.mem_append.1 inner).elim (left.inRange r) (right.inRange r)
    case divisors =>
      intro r r' hr
      rcases List.mem_cons.1 hr with whole | inner
      · cases whole
        exact divisor rfl
      · exact (List.mem_append.1 inner).elim (left.divisors r r') (right.divisors r r')

theorem overIntegers_known (typed : e.OverIntegers s) : ∀ name ∈ e.names, name ∈ s.names := by
  induction e with
  | column name =>
    intro n hn
    rw [List.mem_singleton.1 hn]
    exact List.mem_map_of_mem typed
  | bound i => nofun
  | literal v => nofun
  | binary op left right ihl ihr =>
    cases op with
    | arithmetic op =>
      intro name hn
      exact (List.mem_append.1 hn).elim (ihl typed.1 name) (ihr typed.2 name)
    | _ => cases typed
  | not e => cases typed

/-- The two ways in which an expression over integers ends on a tuple: with its exact value, or with
an operation in it that has no result. -/
inductive Settled (t : Tuple) (e b : Expression) : Prop
  | value {n : Int64} (representable : e.Representable t) (value : b.evaluate t = .ok (.integer n))
      (exact : n.toInt = e.exact t) : Settled t e b
  | rejected {op : ArithmeticOp} {i j : Int64} (unrepresentable : ¬e.Representable t)
      (fails : op.Fails (.integer i) (.integer j))
      (error : b.evaluate t = .error (.noArithmetic op (.integer i) (.integer j))) : Settled t e b

theorem settled_alone {n : Int64} (alone : e.parts = [e])
    (value : b.evaluate t = .ok (.integer n)) (exact : n.toInt = e.exact t) : Settled t e b :=
  .value (representable_of_parts_eq alone (exact ▸ Integer64.inRange_toInt n)) value exact

/-- An integer column has an integer on every row of its schema. -/
theorem exists_integer {i : Nat} {name : String} (found : s.columns[i]? = some ⟨name, .integer⟩)
    (laidOut : t.columns = s.columns) :
    ∃ n, (bound i).evaluate t = .ok (.integer n) ∧ t.values[i]? = some (.integer n) := by
  obtain ⟨f, hf, column⟩ := Tuple.exists_field laidOut found
  have stored : ColumnType.integer.Stores f.value := by
    have stored := t.stored f (List.mem_of_getElem? hf)
    rwa [Field.Stored, column] at stored
  obtain ⟨type, -⟩ := stored
  cases value : f.value <;> rw [value] at type <;> cases type
  refine ⟨_, by rw [evaluate_bound hf, value], ?_⟩
  rw [Tuple.values, List.getElem?_map, hf, Option.map_some, value]

theorem settled_binary {l r : Expression} (left : Settled t p l) (right : Settled t q r) :
    Settled t (binary (.arithmetic op) p q) (binary (.arithmetic op) l r) := by
  cases left with
  | rejected unrepresentable fails error =>
    refine .rejected (fun whole => unrepresentable (representable_binary_iff.1 whole).1) fails ?_
    simp only [evaluate, error]
    rfl
  | @value i repl hl exactl =>
    cases right with
    | rejected unrepresentable fails error =>
      refine .rejected (fun whole => unrepresentable (representable_binary_iff.1 whole).2.1) fails ?_
      simp only [evaluate, hl, error]
      rfl
    | @value j repr hr exactr =>
      have whole : (binary (.arithmetic op) l r).evaluate t =
          BinaryOp.apply (.arithmetic op) (.integer i) (.integer j) := evaluate_binary hl hr
      -- both operands are exact, so the operation itself decides
      rcases op.onIntegers?_cases i j with ⟨k, result⟩ | ⟨none, fails⟩
      · obtain ⟨divisor, exact⟩ := ArithmeticOp.onIntegers?_eq_some_iff.1 result
        rw [exactl, exactr] at exact
        rw [exactr] at divisor
        refine .value (representable_binary_iff.2 ⟨repl, repr, divisor, ?_⟩) (n := k) ?_ exact.symm
        · rw [exact]
          exact Integer64.inRange_toInt k
        · rw [whole]
          simp only [BinaryOp.apply, ArithmeticOp.result?, Value.numbers?, result, Option.map_some]
      · refine .rejected ?_ fails ?_
        · intro representable
          obtain ⟨-, -, divisor, range⟩ := representable_binary_iff.1 representable
          rw [← exactl, ← exactr] at range
          rw [← exactr] at divisor
          have result := ArithmeticOp.onIntegers?_eq_some_iff.2
            ⟨divisor, (Integer64.toInt_ofInt range).symm⟩
          cases none.symm.trans result
        · rw [whole]
          simp only [BinaryOp.apply, ArithmeticOp.result?, Value.numbers?, none, Option.map_none]

theorem settled_of_bind (typed : e.OverIntegers s) (laidOut : t.columns = s.columns)
    (h : e.bind s = .ok b) : Settled t e b := by
  induction e generalizing b with
  | column name =>
    obtain ⟨i, found⟩ := List.getElem?_of_mem typed
    have here : s.indexOf? name = some i := by
      rw [Schema.indexOf?_eq_some_iff, Schema.names, List.getElem?_map, found, Option.map_some]
    obtain ⟨n, evaluated, value⟩ := exists_integer found laidOut
    rw [bind, here] at h
    cases h
    refine settled_alone rfl evaluated ?_
    rw [exact, Tuple.get?_eq laidOut here, ← List.getElem?_map, ← Tuple.values, value]
    rfl
  | bound i =>
    cases h
    obtain ⟨name, found⟩ := typed
    obtain ⟨n, evaluated, value⟩ := exists_integer found laidOut
    refine settled_alone rfl evaluated ?_
    rw [exact, value]
    rfl
  | literal v =>
    cases h
    cases v <;> cases typed
    exact settled_alone rfl rfl rfl
  | binary op left right ihl ihr =>
    cases op with
    | arithmetic op =>
      obtain ⟨l, r, hl, hr, rfl⟩ := binary_of_bind h
      exact settled_binary (ihl typed.1 hl) (ihr typed.2 hr)
    | _ => cases typed
  | not e => cases typed

/-- An expression over integers can be bound, and on every row of the schema it evaluates to an
integer if and only if no divisor is zero and the values of all its parts in the unbounded integers
have 64 bits; the integer is then its value there. Otherwise it is rejected for an operation on two
integers that has no result. -/
theorem integers_exact_or_rejected (typed : e.OverIntegers s) :
    ∃ b, e.bind s = .ok b ∧ ∀ t : Tuple, t.columns = s.columns →
      (∀ n, b.evaluate t = .ok (.integer n) ↔ e.Representable t ∧ n.toInt = e.exact t) ∧
      ((∃ n, b.evaluate t = .ok (.integer n)) ∨
        ∃ op i j, ArithmeticOp.Fails op (.integer i) (.integer j) ∧
          b.evaluate t = .error (.noArithmetic op (.integer i) (.integer j))) := by
  obtain ⟨b, bound⟩ := exists_bind (overIntegers_known typed)
  refine ⟨b, bound, fun t laidOut => ?_⟩
  cases settled_of_bind typed laidOut bound with
  | @value n representable value exact =>
    refine ⟨fun m => ?_, .inl ⟨n, value⟩⟩
    rw [value, Except.ok.injEq, Value.integer.injEq, ← exact, Int64.toInt_inj, eq_comm (a := n)]
    exact ⟨fun same => ⟨representable, same⟩, And.right⟩
  | rejected unrepresentable fails error =>
    refine ⟨fun m => ?_, .inr ⟨_, _, _, fails, error⟩⟩
    rw [error]
    exact ⟨nofun, fun whole => absurd whole.1 unrepresentable⟩

/-- `(n + 1) / -2` at `-8`, and at the greatest integer of 64 bits: there the value would have 64
bits, but the sum has not. -/
theorem intermediate_overflow_rejected : ∃ (s : Schema) (e b : Expression) (t u : Tuple),
    e = .binary (.arithmetic .divide) (.binary (.arithmetic .add) (.column "n")
        (.literal (.integer 1))) (.literal (.integer (-2))) ∧
      s.columns = [⟨"n", .integer⟩] ∧ e.OverIntegers s ∧ e.bind s = .ok b ∧
      t.columns = s.columns ∧ t.values = [.integer (-8)] ∧ b.evaluate t = .ok (.integer 3) ∧
      u.columns = s.columns ∧ u.values = [.integer 9223372036854775807] ∧
      Integer64.InRange (e.exact u) ∧ ∃ op i j, ArithmeticOp.Fails op (.integer i) (.integer j) ∧
        b.evaluate u = .error (.noArithmetic op (.integer i) (.integer j)) := by
  let sum : Expression := .binary (.arithmetic .add) (.column "n") (.literal (.integer 1))
  let e : Expression := .binary (.arithmetic .divide) sum (.literal (.integer (-2)))
  let s : Schema := .ofDistinct [⟨"n", .integer⟩] (by decide)
  let row (n : Int64) : Tuple :=
    .single ⟨"n", .integer⟩ (.integer n) (by simp [ColumnType.Stores, Value.type])
  have columns : s.columns = [⟨"n", .integer⟩] := Schema.columns_ofDistinct _
  have typed : e.OverIntegers s := by
    simp [e, sum, OverIntegers, columns, Value.type]
  obtain ⟨b, bound, results⟩ := integers_exact_or_rejected typed
  have laidOut (n : Int64) : (row n).columns = s.columns := columns.symm
  refine ⟨s, e, b, row (-8), row 9223372036854775807, rfl, columns, typed, bound, laidOut _, rfl, ?_,
    laidOut _, rfl, by decide, ?_⟩
  · have column : (Expression.column "n").Representable (row (-8)) :=
      representable_of_parts_eq rfl (by decide)
    have literal (n : Int64) : (Expression.literal (.integer n)).Representable (row (-8)) :=
      representable_of_parts_eq rfl (Integer64.inRange_toInt n)
    have representable : e.Representable (row (-8)) :=
      representable_binary_iff.2 ⟨representable_binary_iff.2 ⟨column, literal 1, by decide, by decide⟩,
        literal (-2), by decide, by decide⟩
    exact ((results _ (laidOut _)).1 3).2 ⟨representable, by decide⟩
  · rcases (results _ (laidOut 9223372036854775807)).2 with ⟨n, value⟩ | rejected
    · obtain ⟨representable, -⟩ := ((results _ (laidOut _)).1 n).1 value
      exact absurd (representable.inRange sum (by simp [e, parts, self_mem_parts])) (by decide)
    · exact rejected

end Expression
end PullAlgebra
