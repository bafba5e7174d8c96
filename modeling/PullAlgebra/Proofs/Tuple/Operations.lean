import PullAlgebra.Proofs.Schema.Projection
import PullAlgebra.Proofs.Tuple.Names

/-!
# PullAlgebra.Proofs.Tuple.Operations

What joins and projections do to a tuple and to its schema. A schema finds a repeated name with its
index, a tuple by comparing each name with all earlier ones, after it has checked the value. Values
of tuples pass that check, so fields make a tuple exactly if their columns make a schema, and
otherwise both report the same name.

* `Tuple.schema_ofFields`: fields and their columns.
* `Tuple.schema_project`, `Tuple.schema_join`: the schema of a result is the result for the schema.
* `Tuple.values_of_project`: the values of a projected tuple.
* `Tuple.operations_mirror_schema`: the two operations on a tuple, with the errors they report.
-/

namespace PullAlgebra
namespace Tuple

variable {t u v : Tuple} {s s' : Schema}

theorem schema_ofFields {fields : List Field} (stored : ∀ f ∈ fields, f.Stored) :
    (ofFields fields).map schema = Schema.ofColumns (fields.map Field.column) := by
  rcases nodup_or_repeated Field.name fields with
    distinct | ⟨before, f, after, rfl, fresh, again⟩
  · rw [ofFields_of_stored distinct stored]
    exact (ofColumns_columns ⟨fields, distinct, stored⟩).symm
  · have names : (before.map Field.column).map Column.name = before.map Field.name :=
      List.map_map ..
    rw [ofFields_of_repeated stored fresh again, List.map_append, List.map_cons,
      Schema.ofColumns_of_repeated (names ▸ fresh) (names ▸ again)]
    rfl

/-! ## Projections -/

theorem column_pick (h : t.columns = s.columns) (output : OutputColumn) :
    (t.pick output).map Field.column = s.pick output := by
  have found := column_field? h output.column
  unfold pick Schema.pick
  cases field : t.field? output.column with
  | none =>
    rw [field] at found
    rw [← found]
    rfl
  | some f =>
    rw [field] at found
    rw [← found]
    rfl

theorem schema_project (t : Tuple) (outputs : List OutputColumn) :
    (t.project outputs).map schema = t.schema.project outputs := by
  have picked := map_mapM t.pick Field.column outputs
  rw [funext (column_pick t.columns_schema.symm)] at picked
  unfold project Schema.project
  rw [← picked]
  cases chosen : outputs.mapM t.pick with
  | error e => rfl
  | ok fields => exact schema_ofFields (stored_of_mapM_pick chosen)

theorem columns_of_project {outputs : List OutputColumn} (h : t.columns = s.columns)
    (ht : t.project outputs = .ok u) (hs : s.project outputs = .ok s') :
    u.columns = s'.columns := by
  have same : t.schema = s := Schema.ext_columns (t.columns_schema.trans h)
  have projected := t.schema_project outputs
  rw [ht, same, hs] at projected
  cases projected
  exact u.columns_schema.symm

theorem values_of_project {outputs : List OutputColumn} (h : t.project outputs = .ok u) :
    List.Forall₂ (fun output f => f.name = output.name ∧ t.get? output.column = some f.value)
      outputs u.fields := by
  refine (fields_of_project h).imp fun output g picked => ?_
  obtain ⟨f, hf, named, rfl⟩ := pick_eq_ok picked
  exact ⟨rfl, named ▸ get?_of_mem hf⟩

/-! ## Joins -/

theorem schema_join (t u : Tuple) : (t.join u).map schema = t.schema.join u.schema := by
  rw [join_eq_ofFields, schema_ofFields (t.stored_append u), List.map_append, Schema.join,
    columns_schema, columns_schema]
  rfl

theorem values_of_join (h : t.join u = .ok v) : v.values = t.values ++ u.values := by
  rw [values, fields_of_join h, List.map_append]
  rfl

/-! ## Both -/

theorem map_columns {x : Except TableError Tuple} {y : Except TableError Schema}
    (h : x.map schema = y) : x.map columns = y.map Schema.columns := by
  subst h
  cases x with
  | error e => rfl
  | ok t => exact congrArg Except.ok t.columns_schema.symm

theorem eq_error_iff {x : Except TableError Tuple} {y : Except TableError Schema}
    (h : x.map schema = y) {e : TableError} : x = .error e ↔ y = .error e := by
  subst h
  cases x with
  | error e' =>
    constructor
    · rintro ⟨⟩
      rfl
    · rintro ⟨⟩
      rfl
  | ok t => exact ⟨nofun, nofun⟩

/-- A tuple is projected, or joined to another, exactly if its schema is, with the same columns in
the same order or with the same error. A projected tuple has the values of the chosen columns, and a
joined one those of both tuples. What is reported is, for a projection, the first unknown column, or
else the first name that is repeated, and for a join the first name that both have; a value is never
refused. -/
theorem operations_mirror_schema (t u : Tuple) (outputs : List OutputColumn) :
    ((t.project outputs).map columns = (t.schema.project outputs).map Schema.columns ∧
      (∀ v, t.project outputs = .ok v → List.Forall₂
        (fun output f => f.name = output.name ∧ t.get? output.column = some f.value)
        outputs v.fields) ∧
      ∀ e, t.project outputs = .error e ↔ t.schema.ProjectionFault outputs e) ∧
    ((t.join u).map columns = (t.schema.join u.schema).map Schema.columns ∧
      (∀ v, t.join u = .ok v → v.values = t.values ++ u.values) ∧
      ∀ e, t.join u = .error e ↔ ∃ c,
        (u.schema.columns.find? fun c => decide (c.name ∈ t.schema.names)) = some c ∧
          e = .duplicateColumn c.name) ∧
    ∀ column type value, t.project outputs ≠ .error (.refused column type value) ∧
      t.join u ≠ .error (.refused column type value) := by
  have projected (e) : t.project outputs = .error e ↔ t.schema.ProjectionFault outputs e :=
    (eq_error_iff (t.schema_project outputs)).trans Schema.project_eq_error_iff
  have joined (e) : t.join u = .error e ↔ _ :=
    (eq_error_iff (t.schema_join u)).trans Schema.join_eq_error_iff
  refine ⟨⟨map_columns (t.schema_project outputs), fun _ => values_of_project, projected⟩,
    ⟨map_columns (t.schema_join u), fun _ => values_of_join, joined⟩, ?_⟩
  intro column type value
  constructor
  · intro refused
    cases (projected _).1 refused
  · intro refused
    obtain ⟨c, -, other⟩ := (joined _).1 refused
    cases other

/-- An unknown column is reported though a name is repeated before it; a new name that another column
has is reported where all columns are known. -/
theorem unknown_column_before_repeated_name : ∃ t : Tuple,
    t.columns = [⟨"x", .integer⟩, ⟨"y", .boolean⟩] ∧
      t.project [⟨"x", none⟩, ⟨"x", none⟩, ⟨"nope", none⟩] = .error (.unknownProjected "nope") ∧
      t.project [⟨"x", none⟩, ⟨"y", some "x"⟩] = .error (.duplicateColumn "x") := by
  let t : Tuple :=
    ⟨[⟨⟨"x", .integer⟩, .integer 1⟩, ⟨⟨"y", .boolean⟩, .boolean true⟩], by simp [Field.name],
      by simp [Field.Stored, ColumnType.Stores, Value.type]⟩
  have names : t.schema.names = ["x", "y"] := names_schema t
  refine ⟨t, rfl, ?_, ?_⟩
  · refine (((t.operations_mirror_schema t _).1.2.2) _).2 ?_
    exact @Schema.ProjectionFault.unknown _ _ [⟨"x", none⟩, ⟨"x", none⟩] [] ⟨"nope", none⟩ rfl
      (by simp [names]) (by simp [names])
  · refine (((t.operations_mirror_schema t _).1.2.2) _).2 ?_
    exact @Schema.ProjectionFault.repeated _ _ [⟨"x", none⟩] [] ⟨"y", some "x"⟩ (by simp [names]) rfl
      (by simp) (by simp [OutputColumn.name])

end Tuple
end PullAlgebra
