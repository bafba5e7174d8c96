import PullAlgebra.Proofs.Expression.Evaluation
import PullAlgebra.Proofs.Tuple.Names

/-!
# PullAlgebra.Proofs.Expression.Binding

Positions mean names. An expression whose columns were bound to a schema is evaluated by position,
and has on every row of the schema the result that it would have with the value of each named column
in the column's place. So the result does not depend on where the columns of a row stand.

* `names`, `missing?`: the column names of an expression, and the leftmost that a schema lacks.
* `fill`: the expression with the values of a tuple in place of its column names.
* `bind_eq`: when columns can be bound, and which name is reported otherwise.
* `evaluate_bind`: evaluation by position is evaluation by name.
* `bound_evaluation_by_name`: both together, and what follows for rows with other columns around.
-/

namespace PullAlgebra
namespace Expression

/-- The column names from left to right. -/
def names : Expression → List String
  | column name => [name]
  | bound _ | literal _ => []
  | binary _ left right => left.names ++ right.names
  | not e => e.names

/-- No column is given by its position. -/
def Named : Expression → Prop
  | bound _ => False
  | column _ | literal _ => True
  | binary _ left right => left.Named ∧ right.Named
  | not e => e.Named

/-- The leftmost column name that the schema lacks. -/
def missing? (s : Schema) (e : Expression) : Option String :=
  e.names.find? fun name => decide (name ∉ s.names)

/-- The expression with the values of a tuple in place of its column names. -/
def fill (t : Tuple) : Expression → Expression
  | column name =>
    match t.get? name with
    | some v => literal v
    | none => column name
  | bound i => bound i
  | literal v => literal v
  | binary op left right => binary op (left.fill t) (right.fill t)
  | not e => not (e.fill t)

/-- The expression has the result on the tuple once it is bound to the tuple's own columns. -/
def Yields (e : Expression) (t : Tuple) (result : Except QueryError Value) : Prop :=
  ∃ b, e.bind t.schema = .ok b ∧ b.evaluate t = result

variable {s : Schema} {t u : Tuple} {e b : Expression}

/-! ## Which expressions are bound -/

theorem missing?_eq_none_iff : e.missing? s = none ↔ ∀ name ∈ e.names, name ∈ s.names := by
  simp [missing?]

theorem binary_of_bind {op : BinaryOp} {p q : Expression} (h : (binary op p q).bind s = .ok b) :
    ∃ l r, p.bind s = .ok l ∧ q.bind s = .ok r ∧ b = binary op l r := by
  obtain ⟨l, hl, h⟩ := bind_eq_ok h
  obtain ⟨r, hr, h⟩ := bind_eq_ok h
  cases h
  exact ⟨l, r, hl, hr, rfl⟩

theorem not_of_bind (h : e.not.bind s = .ok b) : ∃ c, e.bind s = .ok c ∧ b = c.not := by
  obtain ⟨c, hc, h⟩ := bind_eq_ok h
  cases h
  exact ⟨c, hc, rfl⟩

theorem names_of_bind (h : e.bind s = .ok b) : b.names = [] := by
  induction e generalizing b with
  | column name =>
    unfold bind at h
    split at h <;> cases h
    rfl
  | bound i => cases h; rfl
  | literal v => cases h; rfl
  | binary op left right ihl ihr =>
    obtain ⟨l, r, hl, hr, rfl⟩ := binary_of_bind h
    rw [names, ihl hl, ihr hr, List.append_nil]
  | not e ih =>
    obtain ⟨c, hc, rfl⟩ := not_of_bind h
    rw [names, ih hc]

/-- Without column names there is nothing to bind. -/
theorem bind_of_names_eq_nil (s : Schema) (h : e.names = []) : e.bind s = .ok e := by
  induction e with
  | column name => cases h
  | bound i => rfl
  | literal v => rfl
  | binary op left right ihl ihr =>
    obtain ⟨hl, hr⟩ := List.append_eq_nil_iff.1 h
    rw [bind, ihl hl, ihr hr]
    rfl
  | not e ih =>
    rw [bind, ih h]
    rfl

theorem exists_bind (known : ∀ name ∈ e.names, name ∈ s.names) : ∃ b, e.bind s = .ok b := by
  induction e with
  | column name =>
    obtain ⟨i, hi⟩ := Schema.indexOf?_of_mem (known name (List.mem_singleton_self name))
    exact ⟨bound i, by rw [bind, hi]⟩
  | bound i => exact ⟨_, rfl⟩
  | literal v => exact ⟨_, rfl⟩
  | binary op left right ihl ihr =>
    obtain ⟨l, hl⟩ := ihl fun name hn => known name (List.mem_append_left _ hn)
    obtain ⟨r, hr⟩ := ihr fun name hn => known name (List.mem_append_right _ hn)
    exact ⟨binary op l r, by rw [bind, hl, hr]; rfl⟩
  | not e ih =>
    obtain ⟨c, hc⟩ := ih known
    exact ⟨c.not, by rw [bind, hc]; rfl⟩

/-- Columns are looked up from left to right, up to the first that is not found. -/
theorem bind_of_missing {name : String} (h : e.missing? s = some name) :
    e.bind s = .error (.columnNotFound name) := by
  induction e with
  | column n =>
    unfold missing? at h
    obtain rfl := List.mem_singleton.1 (List.mem_of_find?_eq_some h)
    have absent : name ∉ s.names := by simpa using List.find?_some h
    have unknown : s.indexOf? name = none := by
      rw [Option.eq_none_iff_forall_ne_some]
      exact fun i hi => absent (Schema.mem_of_indexOf? hi)
    rw [bind, unknown]
  | bound i => cases h
  | literal v => cases h
  | binary op left right ihl ihr =>
    rw [missing?, names, List.find?_append, Option.or_eq_some_iff] at h
    rcases h with first | ⟨none, second⟩
    · rw [bind, ihl first]
      rfl
    · obtain ⟨l, hl⟩ := exists_bind (missing?_eq_none_iff.1 none)
      rw [bind, hl, ihr second]
      rfl
  | not e ih =>
    rw [bind, ih h]
    rfl

theorem bind_eq (e : Expression) (s : Schema) :
    (∃ b, e.missing? s = none ∧ e.bind s = .ok b) ∨
      ∃ name, e.missing? s = some name ∧ e.bind s = .error (.columnNotFound name) := by
  cases h : e.missing? s with
  | none =>
    obtain ⟨b, hb⟩ := exists_bind (missing?_eq_none_iff.1 h)
    exact .inl ⟨b, rfl, hb⟩
  | some name => exact .inr ⟨name, rfl, bind_of_missing h⟩

/-! ## Evaluation by position and by name -/

theorem evaluate_binary_congr {op : BinaryOp} {p q p' q' : Expression}
    (hp : p.evaluate t = p'.evaluate u) (hq : q.evaluate t = q'.evaluate u) :
    (binary op p q).evaluate t = (binary op p' q').evaluate u := by
  simp only [evaluate, hp, hq]

theorem evaluate_bind (named : e.Named) (laidOut : t.columns = s.columns) (h : e.bind s = .ok b)
    (u : Tuple) : b.evaluate t = (e.fill t).evaluate u := by
  induction e generalizing b with
  | column name =>
    unfold bind at h
    split at h
    · rename_i i hi
      cases h
      obtain ⟨f, hf, value⟩ := Tuple.exists_get? laidOut hi
      simp only [fill, value]
      exact evaluate_bound hf
    · cases h
  | bound i => cases named
  | literal v => cases h; rfl
  | binary op left right ihl ihr =>
    obtain ⟨l, r, hl, hr, rfl⟩ := binary_of_bind h
    exact evaluate_binary_congr (ihl named.1 hl) (ihr named.2 hr)
  | not e ih =>
    obtain ⟨c, hc, rfl⟩ := not_of_bind h
    simp only [fill, evaluate, ih named hc]

theorem column_mem_parts_iff {name : String} : column name ∈ e.parts ↔ name ∈ e.names := by
  induction e with
  | column n => simp [parts, names]
  | bound i => simp [parts, names]
  | literal v => simp [parts, names]
  | binary op left right ihl ihr => simp [parts, names, ihl, ihr]
  | not e ih => simp [parts, names, ih]

theorem named_iff : e.Named ↔ ∀ i, bound i ∉ e.parts := by
  induction e with
  | column n => simp [parts, Named]
  | bound i => simp [parts, Named]
  | literal v => simp [parts, Named]
  | binary op left right ihl ihr => simp [parts, Named, ihl, ihr, forall_and]
  | not e ih => simp [parts, Named, ih]

theorem name_of_unbound {name : String} (h : e.evaluate t = .error (.unbound name)) :
    name ∈ e.names := by
  obtain ⟨p, hp, raises⟩ := exists_raises h
  obtain rfl := raises.column_or_position.1 name rfl
  exact column_mem_parts_iff.1 hp

theorem not_named_of_noField {i : Nat} (h : e.evaluate t = .error (.noField i)) : ¬e.Named := by
  obtain ⟨p, hp, raises⟩ := exists_raises h
  obtain rfl := raises.column_or_position.2 i rfl
  exact fun named => named_iff.1 named i hp

theorem named_fill (named : e.Named) (t : Tuple) : (e.fill t).Named := by
  induction e with
  | column name =>
    unfold fill
    split <;> trivial
  | bound i => cases named
  | literal v => trivial
  | binary op left right ihl ihr => exact ⟨ihl named.1, ihr named.2⟩
  | not e ih => exact ih named

theorem fill_congr (same : ∀ name ∈ e.names, u.get? name = t.get? name) : e.fill u = e.fill t := by
  induction e with
  | column name => simp only [fill, same name (List.mem_singleton_self name)]
  | bound i => rfl
  | literal v => rfl
  | binary op left right ihl ihr =>
    rw [fill, fill, ihl fun name hn => same name (List.mem_append_left _ hn),
      ihr fun name hn => same name (List.mem_append_right _ hn)]
  | not e ih => rw [fill, fill, ih same]

/-! ## Rows with the same values -/

/-- How a row comes to have columns with the given names in other places: it is reordered, extended
on either side, or projected. -/
inductive Moved (names : List String) (t : Tuple) : Tuple → Prop
  | aligned {s : Schema} {u : Tuple} (h : t.alignTo s = .ok u) : Moved names t u
  | extended {u v : Tuple} (h : t.join u = .ok v) : Moved names t v
  | appended {u v : Tuple} (h : u.join t = .ok v) : Moved names t v
  | projected {outputs : List OutputColumn} {u : Tuple} (h : t.project outputs = .ok u)
      (kept : ∀ name ∈ names, ∃ output ∈ outputs, output.column = name ∧ output.name = name) :
      Moved names t u

theorem Moved.get?_eq {names : List String} (moved : Moved names t u)
    (known : ∀ name ∈ names, name ∈ t.schema.names) {name : String} (hn : name ∈ names) :
    u.get? name = t.get? name := by
  cases moved with
  | aligned h => exact Tuple.get?_of_perm (Tuple.alignTo_eq_ok_iff.1 h).2 name
  | extended h => exact Tuple.get?_of_join_left h (known name hn)
  | appended h => exact Tuple.get?_of_join_right h (known name hn)
  | projected h kept =>
    obtain ⟨output, chosen, column, named⟩ := kept name hn
    have value := Tuple.get?_of_project h chosen
    rwa [column, named] at value

theorem yields_of_same (named : e.Named) (known : ∀ name ∈ e.names, name ∈ t.schema.names)
    (same : ∀ name ∈ e.names, u.get? name = t.get? name) :
    e.Yields u ((e.fill t).evaluate t) := by
  have known' : ∀ name ∈ e.names, name ∈ u.schema.names := by
    intro name hn
    obtain ⟨v, value⟩ := Tuple.name_mem_schema_iff_get?.1 (known name hn)
    exact Tuple.name_mem_schema_iff_get?.2 ⟨v, (same name hn).trans value⟩
  obtain ⟨b, hb⟩ := exists_bind known'
  refine ⟨b, hb, ?_⟩
  rw [evaluate_bind named u.columns_schema.symm hb t, fill_congr same]

/-- The columns of an expression can be bound if and only if the schema has them all; the leftmost
that it lacks is reported. What the bound expression gives on a row of the schema, value or error, is
what the expression gives with the values of the named columns in their place, so never that a column
is unbound or out of bounds. It gives the same on every row with the same values under these names,
such as the row in another order, with further columns on either side, or projected. Bound columns
stay where they are when they are bound again. -/
theorem bound_evaluation_by_name {e : Expression} (named : e.Named) (s : Schema) :
    ((∃ b, e.bind s = .ok b) ↔ ∀ name ∈ e.names, name ∈ s.names) ∧
    (∀ err, e.bind s = .error err ↔
      ∃ name, e.missing? s = some name ∧ err = .columnNotFound name) ∧
    (∀ b t, e.bind s = .ok b → t.columns = s.columns →
      (∀ u, b.evaluate t = (e.fill t).evaluate u) ∧
      (∀ name, b.evaluate t ≠ .error (.unbound name)) ∧
      (∀ i, b.evaluate t ≠ .error (.noField i)) ∧
      (∀ u, (∀ name ∈ e.names, u.get? name = t.get? name) → e.Yields u (b.evaluate t)) ∧
      ∀ u, Moved e.names t u → e.Yields u (b.evaluate t)) ∧
    (∀ b, e.bind s = .ok b → b.names = []) ∧
    ∀ (b : Expression) (s' : Schema), b.names = [] → b.bind s' = .ok b := by
  refine ⟨?_, ?_, ?_, fun b => names_of_bind, fun b s' => bind_of_names_eq_nil s'⟩
  · rw [← missing?_eq_none_iff]
    rcases bind_eq e s with ⟨b, none, bound⟩ | ⟨name, some, refused⟩
    · exact ⟨fun _ => none, fun _ => ⟨b, bound⟩⟩
    · simp [some, refused]
  · intro err
    rcases bind_eq e s with ⟨b, none, bound⟩ | ⟨name, some, refused⟩
    · simp [none, bound]
    · simp [some, refused, eq_comm]
  · intro b t bound laidOut
    obtain rfl : s = t.schema := Schema.ext_columns (t.columns_schema.trans laidOut).symm
    have known : ∀ name ∈ e.names, name ∈ t.schema.names := by
      rcases bind_eq e t.schema with ⟨_, none, -⟩ | ⟨name, -, refused⟩
      · exact missing?_eq_none_iff.1 none
      · cases bound.symm.trans refused
    have value := evaluate_bind named laidOut bound
    have same : ∀ u, (∀ name ∈ e.names, u.get? name = t.get? name) → e.Yields u (b.evaluate t) := by
      intro u same
      rw [value t]
      exact yields_of_same named known same
    refine ⟨value, ?_, ?_, same, fun u moved => same u fun name hn => moved.get?_eq known hn⟩
    · intro name failed
      have unbound := name_of_unbound failed
      rw [names_of_bind bound] at unbound
      cases unbound
    · intro i failed
      rw [value t] at failed
      exact not_named_of_noField failed (named_fill named t)

/-- `id + 1 < count` on a row with `count` before `id`, and on the row in the other order and behind
another column. -/
theorem moved_comparison : ∃ (e : Expression) (s : Schema) (b : Expression) (t u v : Tuple),
    e.Named ∧ e.names = ["id", "count"] ∧ e.bind s = .ok b ∧ t.columns = s.columns ∧
      t.values = [.integer 9, .integer 4] ∧ u.values = [.integer 4, .integer 9] ∧
      v.values = [.boolean true, .integer 9, .integer 4] ∧
      e.Yields u (.ok (.boolean true)) ∧ e.Yields v (.ok (.boolean true)) ∧
      e.bind (Schema.ofDistinct [] .nil) = .error (.columnNotFound "id") := by
  let e := binary (.comparison .lt)
    (binary (.arithmetic .add) (column "id") (literal (.integer 1))) (column "count")
  let count : Field := ⟨⟨"count", .integer⟩, .integer 9⟩
  let id : Field := ⟨⟨"id", .integer⟩, .integer 4⟩
  let flag : Field := ⟨⟨"flag", .boolean⟩, .boolean true⟩
  let t : Tuple := ⟨[count, id], by decide, by
    simp [count, id, Field.Stored, ColumnType.Stores, Value.type]⟩
  let front : Tuple := ⟨[flag], by decide, by
    simp [flag, Field.Stored, ColumnType.Stores, Value.type]⟩
  have named : e.Named := by simp [e, Named]
  have known : ∀ name ∈ e.names, name ∈ t.schema.names := by
    rw [Tuple.names_schema]
    decide
  obtain ⟨bindable, -, results, -⟩ := bound_evaluation_by_name named t.schema
  obtain ⟨-, missing, -⟩ := bound_evaluation_by_name named (Schema.ofDistinct [] .nil)
  obtain ⟨b, bound⟩ := bindable.2 known
  obtain ⟨value, -, -, -, moved⟩ := results b t bound t.columns_schema.symm
  have holds : b.evaluate t = .ok (.boolean true) := (value t).trans (by rfl)
  let swapped : Schema := .ofDistinct [id.column, count.column] (by decide)
  obtain ⟨u, aligned, values⟩ : ∃ u, t.alignTo swapped = .ok u ∧
      u.values = [.integer 4, .integer 9] := by
    simp only [Tuple.alignTo, Schema.size, swapped, Schema.columns_ofDistinct]
    exact ⟨_, rfl, rfl⟩
  obtain ⟨v, joined, values'⟩ : ∃ v, front.join t = .ok v ∧
      v.values = [.boolean true, .integer 9, .integer 4] := ⟨_, rfl, rfl⟩
  refine ⟨e, t.schema, b, t, u, v, named, rfl, bound, t.columns_schema.symm, rfl, values, values',
    ?_, ?_, ?_⟩
  · rw [← holds]
    exact moved u (.aligned aligned)
  · rw [← holds]
    exact moved v (.appended joined)
  · refine (missing _).2 ⟨"id", ?_, rfl⟩
    rfl

end Expression
end PullAlgebra
