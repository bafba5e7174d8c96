import PullAlgebra.Proofs.Result
import PullAlgebra.Proofs.Schema.Collision
import PullAlgebra.Proofs.Schema.SameColumns

/-!
# PullAlgebra.Proofs.Schema.LinearSearch

Schemas without their index. The index is built beside the columns, and only to find them faster:
whether a name occurred before, at which position a column is and which column has a name, a search
of the ordered columns answers in the same way. So do the schemas that are made of others, in
whatever combination.

* `indexFrom_of_searched`: the loop that builds the index, against a search of the columns before.
* `Schema.listed`: the columns of a schema, or the error of making it, by searches alone.
* `Schema.Derivation`: how a schema is made, with its columns in both ways;
  `Schema.Derivation.columns_schema` that they are the same.
* `Schema.index_agrees`: what the index answers.
-/

namespace PullAlgebra

/-- The first column whose name one of the columns before it has, some of which are seen already. -/
def repeated? (seen : List Column) : List Column → Option Column
  | [] => none
  | c :: rest =>
    if seen.any fun d => d.name == c.name then some c else repeated? (c :: seen) rest

/-- The index has the names of the columns that are seen, and the loop keeps it so. -/
theorem indexFrom_of_searched (columns : List Column) (next : Nat) {seen : List Column}
    {index : Std.HashMap String Nat}
    (h : ∀ name, index.contains name = seen.any fun d => d.name == name) :
    match repeated? seen columns with
    | some c => indexFrom next index columns = .error (.duplicateColumn c.name)
    | none => ∃ whole, indexFrom next index columns = .ok whole := by
  fun_induction repeated? seen columns generalizing next index with
  | case1 seen => exact ⟨index, rfl⟩
  | case2 seen c rest again =>
    have taken : index.contains c.name = true := (h c.name).trans again
    exact if_pos taken
  | case3 seen c rest fresh ih =>
    have free : ¬index.contains c.name = true := fun taken => fresh ((h c.name).symm.trans taken)
    unfold indexFrom
    rw [if_neg free]
    refine ih (next + 1) fun name => ?_
    rw [Std.HashMap.contains_insert, h, List.any_cons]

namespace Schema

/-! ## Schemas of columns -/

/-- The columns, unless the name of one of them occurred before. -/
def listed (columns : List Column) : Except TableError (List Column) :=
  match repeated? [] columns with
  | some c => .error (.duplicateColumn c.name)
  | none => .ok columns

theorem columns_ofColumns (columns : List Column) :
    (ofColumns columns).map Schema.columns = listed columns := by
  have empty (name : String) : (∅ : Std.HashMap String Nat).contains name =
      ([] : List Column).any fun d => d.name == name := by simp
  have loop := indexFrom_of_searched columns 0 empty
  unfold listed
  split at loop
  case h_1 c again =>
    rw [ofColumns_of_error loop]
    rfl
  case h_2 =>
    obtain ⟨whole, loop⟩ := loop
    obtain ⟨s, built⟩ := exists_ofColumns (distinct_of_indexFrom loop).1
    rw [built]
    exact congrArg _ (columns_of_ofColumns built)

theorem exists_ofColumns_iff {columns : List Column} :
    (∃ s, ofColumns columns = .ok s) ↔ (columns.map Column.name).Nodup := by
  constructor
  · rintro ⟨s, built⟩
    rw [← columns_of_ofColumns built]
    exact s.distinct
  · exact exists_ofColumns

/-- A list of columns is refused for the first of them whose name occurred before. -/
theorem ofColumns_eq_error_iff {columns : List Column} {e : TableError} :
    ofColumns columns = .error e ↔ ∃ before c after, columns = before ++ c :: after ∧
      (before.map Column.name).Nodup ∧ c.name ∈ before.map Column.name ∧
      e = .duplicateColumn c.name := by
  constructor
  · intro refused
    rcases nodup_or_repeated Column.name columns with
      distinct | ⟨before, c, after, rfl, fresh, again⟩
    · obtain ⟨s, built⟩ := exists_ofColumns distinct
      cases built.symm.trans refused
    · cases (ofColumns_of_repeated fresh again).symm.trans refused
      exact ⟨before, c, after, rfl, fresh, again, rfl⟩
  · rintro ⟨before, c, after, rfl, fresh, again, rfl⟩
    exact ofColumns_of_repeated fresh again

/-! ## Look-ups -/

variable {s : Schema} {name : String}

theorem indexOf?_eq_some_iff_column {i : Nat} :
    s.indexOf? name = some i ↔ ∃ c, s.columns[i]? = some c ∧ c.name = name := by
  rw [indexOf?_eq_some_iff, names, List.getElem?_map, Option.map_eq_some_iff]

theorem indexOf?_eq_none_iff : s.indexOf? name = none ↔ ∀ c ∈ s.columns, c.name ≠ name := by
  rw [indexOf?_eq_idxOf?, List.idxOf?_eq_none_iff, names, List.mem_map, not_exists]
  simp

theorem has_eq_any (s : Schema) (name : String) :
    s.has name = s.columns.any fun c => c.name == name := by
  rw [has, contains_index, names, Bool.eq_iff_iff, decide_eq_true_eq, List.any_eq_true]
  simp

theorem hasTyped_eq_any (s : Schema) (name : String) (type : ColumnType) :
    s.hasTyped name type = s.columns.any fun c => c.name == name && c.type == type := by
  have typed : s.hasTyped name type = true ↔ (⟨name, type⟩ : Column) ∈ s.columns :=
    hasTyped_iff_mem (c := ⟨name, type⟩)
  rw [Bool.eq_iff_iff, typed, List.any_eq_true]
  constructor
  · intro known
    exact ⟨_, known, by simp⟩
  · rintro ⟨c, known, same⟩
    obtain ⟨rfl, rfl⟩ : c.name = name ∧ c.type = type := by simpa using same
    exact known

/-! ## Schemas of schemas -/

/-- How a schema is made: of columns, of names and types, of two schemas, or of a choice of the
columns of one. -/
inductive Derivation
  | columns (columns : List Column)
  | pairs (pairs : List (String × ColumnType))
  | join (left right : Derivation)
  | project (input : Derivation) (outputs : List OutputColumn)

namespace Derivation

def schema : Derivation → Except TableError Schema
  | columns cs => ofColumns cs
  | pairs ps => ofPairs ps
  | join left right => do (← left.schema).join (← right.schema)
  | project input outputs => do (← input.schema).project outputs

/-- The column that a projection makes of one that a search finds. -/
def picked (cs : List Column) (output : OutputColumn) : Except TableError Column :=
  match cs.find? fun c => c.name == output.column with
  | some c => .ok (c.renamed output.name)
  | none => .error (.unknownProjected output.column)

/-- The columns of the schema, made without an index. -/
def list : Derivation → Except TableError (List Column)
  | columns cs => listed cs
  | pairs ps => listed (ps.map fun pair => ⟨pair.1, pair.2⟩)
  | join left right => do listed ((← left.list) ++ (← right.list))
  | project input outputs => do listed (← outputs.mapM (picked (← input.list)))

theorem pick_eq (s : Schema) (output : OutputColumn) : s.pick output = picked s.columns output := by
  have found := column?_eq_find? s output.column
  cases search : s.columns.find? fun c => c.name == output.column with
  | none => simp only [pick, picked, found, search]
  | some c => simp only [pick, picked, found, search]

theorem columns_schema (d : Derivation) : d.schema.map Schema.columns = d.list := by
  induction d with
  | columns cs => exact columns_ofColumns cs
  | pairs ps => exact columns_ofColumns _
  | join left right ihl ihr =>
    rw [schema, list, ← ihl, ← ihr]
    cases left.schema with
    | error e => rfl
    | ok r =>
      cases right.schema with
      | error e => rfl
      | ok s => exact columns_ofColumns _
  | project input outputs ih =>
    rw [schema, list, ← ih]
    cases input.schema with
    | error e => rfl
    | ok s =>
      have same : outputs.mapM s.pick = outputs.mapM (picked s.columns) :=
        mapM_congr fun o _ => pick_eq s o
      change (s.project outputs).map Schema.columns = outputs.mapM (picked s.columns) >>= listed
      rw [Schema.project, same]
      cases outputs.mapM (picked s.columns) with
      | error e => rfl
      | ok cs => exact columns_ofColumns cs

end Derivation

/-- The columns make a schema exactly if their names are distinct, and otherwise the first of them
is reported whose name occurred before. However a schema was made, its columns are those that
searches give, and its index answers as a search of them does. -/
theorem index_agrees :
    (∀ columns, (∃ s, ofColumns columns = .ok s) ↔ (columns.map Column.name).Nodup) ∧
    (∀ columns e, ofColumns columns = .error e ↔ ∃ before c after,
      columns = before ++ c :: after ∧ (before.map Column.name).Nodup ∧
        c.name ∈ before.map Column.name ∧ e = .duplicateColumn c.name) ∧
    ∀ (d : Derivation) (s : Schema), d.schema = .ok s → d.list = .ok s.columns ∧ ∀ name,
      (∀ i, s.indexOf? name = some i ↔ ∃ c, s.columns[i]? = some c ∧ c.name = name) ∧
      (s.indexOf? name = none ↔ ∀ c ∈ s.columns, c.name ≠ name) ∧
      s.column? name = (s.columns.find? fun c => c.name == name) ∧
      s.has name = (s.columns.any fun c => c.name == name) ∧
      ∀ type, s.hasTyped name type = s.columns.any fun c => c.name == name && c.type == type := by
  refine ⟨fun _ => exists_ofColumns_iff, fun _ _ => ofColumns_eq_error_iff, fun d s made => ?_⟩
  refine ⟨by rw [← d.columns_schema, made]; rfl, fun name => ?_⟩
  exact ⟨fun _ => indexOf?_eq_some_iff_column, indexOf?_eq_none_iff, column?_eq_find? s name,
    has_eq_any s name, hasTyped_eq_any s name⟩

/-- Two columns change places and one of them gets a new name, then a third one is joined. -/
theorem renamed_join_agrees : ∃ s : Schema,
    s.columns = [⟨"y", .float⟩, ⟨"x", .integer⟩, ⟨"z", .string⟩] ∧ s.indexOf? "x" = some 1 ∧
      s.has "w" = false ∧ s.hasTyped "y" .float = true := by
  let d : Derivation := .join (.project (.pairs [("x", .integer), ("w", .float)])
    [⟨"w", some "y"⟩, ⟨"x", none⟩]) (.columns [⟨"z", .string⟩])
  have list : d.list = .ok [⟨"y", .float⟩, ⟨"x", .integer⟩, ⟨"z", .string⟩] := rfl
  obtain ⟨s, made, columns⟩ := map_eq_ok (d.columns_schema.trans list)
  obtain ⟨-, agrees⟩ := index_agrees.2.2 d s made
  rw [columns] at agrees
  refine ⟨s, columns, ?_, ?_, ?_⟩
  · exact (agrees "x").1 1 |>.2 ⟨_, rfl, rfl⟩
  · exact (agrees "w").2.2.2.1
  · exact (agrees "y").2.2.2.2 .float

end Schema
end PullAlgebra
