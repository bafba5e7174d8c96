import PullAlgebra.Schema

/-!
# PullAlgebra.Tuple

Rows: fields with distinct column names, each value in the form in which its column keeps it.

* `ofFields`: a tuple from fields, field by field; a value that its column refuses is found before
  a repeated name.
* `alignTo`: the same fields in the order of a schema.
* `join`, `project`: what the operations of the same names do to schemas, done to rows.
* `columns_of_ofFields`, `columns_of_alignTo`, `columns_of_join`: the columns of the results.
-/

namespace PullAlgebra

/-- A value under its column. -/
structure Field where
  column : Column
  value : Value
  deriving DecidableEq

namespace Field

def name (f : Field) : String := f.column.name

/-- Whether the value is in the form in which its column keeps values. -/
def Stored (f : Field) : Prop := f.column.type.Stores f.value

/-- The field with its value as its column keeps it. -/
def stored? (f : Field) : Option Field :=
  (f.column.type.stored? f.value).map fun v => { f with value := v }

theorem stored?_eq_some {f g : Field} (h : f.stored? = some g) :
    g.column = f.column ∧ g.Stored := by
  obtain ⟨v, hv, rfl⟩ := Option.map_eq_some_iff.1 h
  exact ⟨rfl, ColumnType.stores_of_stored? hv⟩

end Field

structure Tuple where
  fields : List Field
  distinct : (fields.map Field.name).Nodup
  stored : ∀ f ∈ fields, f.Stored

namespace Tuple

theorem ext_fields {t u : Tuple} (h : t.fields = u.fields) : t = u := by
  cases t; cases u; cases h; rfl

instance : DecidableEq Tuple := fun t u =>
  decidable_of_iff (t.fields = u.fields) ⟨ext_fields, congrArg fields⟩

/-- The fields with their values as their columns keep them. Of each field the value is checked
first, and then whether its name occurred before. -/
def storeAll (earlier : List String) : List Field → Except TableError (List Field)
  | [] => .ok []
  | f :: rest =>
    match f.stored? with
    | none => .error (.refused f.name f.column.type f.value)
    | some g =>
      if f.name ∈ earlier then .error (.duplicateColumn f.name)
      else (storeAll (f.name :: earlier) rest).map (g :: ·)

theorem storeAll_cons_eq_ok {earlier : List String} {f : Field} {rest gs : List Field}
    (h : storeAll earlier (f :: rest) = .ok gs) :
    ∃ g gs', gs = g :: gs' ∧ f.stored? = some g ∧ f.name ∉ earlier ∧
      storeAll (f.name :: earlier) rest = .ok gs' := by
  unfold storeAll at h
  split at h
  · cases h
  · rename_i g hg
    split at h
    · cases h
    · rename_i he
      cases hr : storeAll (f.name :: earlier) rest with
      | error e => rw [hr] at h; cases h
      | ok gs' => rw [hr] at h; cases h; exact ⟨g, gs', rfl, hg, he, rfl⟩

theorem columns_of_storeAll {earlier : List String} {fs gs : List Field}
    (h : storeAll earlier fs = .ok gs) : gs.map Field.column = fs.map Field.column := by
  induction fs generalizing earlier gs with
  | nil => cases h; rfl
  | cons f rest ih =>
    obtain ⟨g, gs', rfl, hg, -, hr⟩ := storeAll_cons_eq_ok h
    rw [List.map_cons, List.map_cons, ih hr, (Field.stored?_eq_some hg).1]

theorem names_of_storeAll {earlier : List String} {fs gs : List Field}
    (h : storeAll earlier fs = .ok gs) : gs.map Field.name = fs.map Field.name := by
  have names := congrArg (List.map Column.name) (columns_of_storeAll h)
  rw [List.map_map, List.map_map] at names
  exact names

theorem stored_of_storeAll {earlier : List String} {fs gs : List Field}
    (h : storeAll earlier fs = .ok gs) : ∀ g ∈ gs, g.Stored := by
  induction fs generalizing earlier gs with
  | nil => cases h; simp
  | cons f rest ih =>
    obtain ⟨g, gs', rfl, hg, -, hr⟩ := storeAll_cons_eq_ok h
    intro x hx
    rcases List.mem_cons.1 hx with rfl | hx
    · exact (Field.stored?_eq_some hg).2
    · exact ih hr x hx

theorem distinct_of_storeAll {earlier : List String} {fs gs : List Field}
    (h : storeAll earlier fs = .ok gs) :
    (fs.map Field.name).Nodup ∧ ∀ f ∈ fs, f.name ∉ earlier := by
  induction fs generalizing earlier gs with
  | nil => simp
  | cons f rest ih =>
    obtain ⟨g, gs', rfl, -, hf, hr⟩ := storeAll_cons_eq_ok h
    obtain ⟨nodup, fresh⟩ := ih hr
    constructor
    · rw [List.map_cons, List.nodup_cons]
      refine ⟨fun hm => ?_, nodup⟩
      obtain ⟨x, hx, e⟩ := List.mem_map.1 hm
      exact fresh x hx (e ▸ List.mem_cons_self ..)
    · intro x hx
      rcases List.mem_cons.1 hx with rfl | hx
      · exact hf
      · exact fun hm => fresh x hx (List.mem_cons_of_mem _ hm)

/-- The tuple with the given fields, their values as their columns keep them. -/
def ofFields (fields : List Field) : Except TableError Tuple :=
  match h : storeAll [] fields with
  | .ok kept =>
    .ok ⟨kept, names_of_storeAll h ▸ (distinct_of_storeAll h).1, stored_of_storeAll h⟩
  | .error e => .error e

def columns (t : Tuple) : List Column := t.fields.map Field.column

def values (t : Tuple) : List Value := t.fields.map Field.value

def size (t : Tuple) : Nat := t.fields.length

theorem distinct_columns (t : Tuple) : (t.columns.map Column.name).Nodup := by
  rw [columns, List.map_map]
  exact t.distinct

/-- The schema of the tuple's own columns. -/
def schema (t : Tuple) : Schema := Schema.ofDistinct t.columns t.distinct_columns

def field? (t : Tuple) (name : String) : Option Field := t.fields.find? fun f => f.name == name

def get? (t : Tuple) (name : String) : Option Value := (t.field? name).map Field.value

/-- Whether the tuple has the columns of a schema, in whatever order. -/
def fits (t : Tuple) (s : Schema) : Bool := t.schema.sameColumns s

/-- Equality field by field, values by `Value.equal`. -/
def equal (t u : Tuple) : Bool :=
  t.columns == u.columns && (t.values.zip u.values).all fun (v, w) => v.equal w

/-- The fields that the tuple has under the columns of a list, in the order of the list. -/
def arranged (t : Tuple) (columns : List Column) : List Field :=
  columns.filterMap fun c => t.fields.find? fun f => f.column == c

theorem mem_of_mem_arranged {t : Tuple} {columns : List Column} {f : Field}
    (h : f ∈ t.arranged columns) : f ∈ t.fields := by
  obtain ⟨c, -, hc⟩ := List.mem_filterMap.1 h
  exact List.mem_of_find?_eq_some hc

theorem names_eq_of_columns_eq {fields : List Field} {s : Schema}
    (h : fields.map Field.column = s.columns) : fields.map Field.name = s.names := by
  have names := congrArg (List.map Column.name) h
  rw [List.map_map] at names
  exact names

/-- The tuple with its fields in the order of the schema's columns. It must have all of them and no
others. -/
def alignTo (t : Tuple) (s : Schema) : Except TableError Tuple :=
  if t.columns = s.columns then .ok t
  else if h : t.size = s.size ∧ (t.arranged s.columns).map Field.column = s.columns then
    .ok ⟨t.arranged s.columns, names_eq_of_columns_eq h.2 ▸ s.distinct,
      fun f hf => t.stored f (mem_of_mem_arranged hf)⟩
  else .error (.columnsDiffer t.schema.names s.names)

theorem nodup_append_of_find? {ts us : List Field}
    (distinct : (ts.map Field.name).Nodup) (distinct' : (us.map Field.name).Nodup)
    (h : us.find? (fun f => ts.any fun g => g.name == f.name) = none) :
    ((ts ++ us).map Field.name).Nodup := by
  rw [List.map_append, List.nodup_append]
  refine ⟨distinct, distinct', ?_⟩
  intro a ha b hb e
  subst e
  obtain ⟨f, hf, rfl⟩ := List.mem_map.1 hb
  obtain ⟨g, hg, e⟩ := List.mem_map.1 ha
  have := List.find?_eq_none.1 h f hf
  simp only [List.any_eq_true, beq_iff_eq] at this
  exact this ⟨g, hg, e⟩

/-- The fields of both tuples, one after the other. Values stay as they are, so only a name that
both have can stand in the way. -/
def join (t u : Tuple) : Except TableError Tuple :=
  match h : u.fields.find? (fun f => t.fields.any fun g => g.name == f.name) with
  | some f => .error (.duplicateColumn f.name)
  | none =>
    .ok ⟨t.fields ++ u.fields, nodup_append_of_find? t.distinct u.distinct h, fun f hf =>
      (List.mem_append.1 hf).elim (t.stored f) (u.stored f)⟩

/-- The field that a projection makes of one of the tuple's fields. -/
def pick (t : Tuple) (output : OutputColumn) : Except TableError Field :=
  match t.field? output.column with
  | some f => .ok { f with column := f.column.renamed output.name }
  | none => .error (.unknownProjected output.column)

/-- The chosen fields, in the order of the choice and under their new names. -/
def project (t : Tuple) (outputs : List OutputColumn) : Except TableError Tuple := do
  ofFields (← outputs.mapM t.pick)

theorem columns_of_ofFields {fields : List Field} {t : Tuple} (h : ofFields fields = .ok t) :
    t.columns = fields.map Field.column := by
  unfold ofFields at h
  split at h
  · rename_i stored hs
    cases h
    exact columns_of_storeAll hs
  · cases h

theorem columns_of_alignTo {t u : Tuple} {s : Schema} (h : t.alignTo s = .ok u) :
    u.columns = s.columns := by
  unfold alignTo at h
  split at h
  · cases h; assumption
  · split at h
    · rename_i hc; cases h; exact hc.2
    · cases h

theorem columns_of_join {t u v : Tuple} (h : t.join u = .ok v) :
    v.columns = t.columns ++ u.columns := by
  unfold join at h
  split at h
  · cases h
  · cases h; exact List.map_append

end Tuple
end PullAlgebra
