import PullAlgebra.Column
import Std.Data.HashMap

/-!
# PullAlgebra.Schema

Ordered lists of columns with distinct names, and an index that finds a column by its name.

* `ofColumns`: a schema from its columns; the first column whose name occurred before is refused.
* `indexed`: a schema's index is the one that its columns give, so that schemas with the same
  columns are the same.
* `join`, `project`: the columns of two schemas, and a choice of columns under new names.
* `sameColumns`: whether two schemas agree up to order.
* `distinct`: the names of a schema's columns are distinct.
-/

namespace PullAlgebra

/-- One column of a projection: a column of the input, and its new name if it gets one. -/
structure OutputColumn where
  column : String
  newName : Option String
  deriving DecidableEq, Repr

def OutputColumn.name (o : OutputColumn) : String := o.newName.getD o.column

/-- Adds columns, numbered from `next` on, to an index of names. A name that is in the index
already is refused. -/
def indexFrom (next : Nat) (index : Std.HashMap String Nat) :
    List Column → Except TableError (Std.HashMap String Nat)
  | [] => .ok index
  | c :: rest =>
    if index.contains c.name then .error (.duplicateColumn c.name)
    else indexFrom (next + 1) (index.insert c.name next) rest

structure Schema where
  columns : List Column
  /-- The position of each column name. -/
  index : Std.HashMap String Nat
  indexed : indexFrom 0 ∅ columns = .ok index

namespace Schema

theorem ext_columns {s t : Schema} (h : s.columns = t.columns) : s = t := by
  obtain ⟨columns, index, hs⟩ := s
  obtain ⟨columns', index', ht⟩ := t
  obtain rfl : columns = columns' := h
  obtain rfl : index = index' := Except.ok.inj (hs.symm.trans ht)
  rfl

instance : DecidableEq Schema := fun s t =>
  decidable_of_iff (s.columns = t.columns) ⟨ext_columns, congrArg columns⟩

/-- The schema with the given columns. -/
def ofColumns (columns : List Column) : Except TableError Schema :=
  match h : indexFrom 0 ∅ columns with
  | .ok index => .ok ⟨columns, index, h⟩
  | .error e => .error e

/-- The schema with the given names and types. -/
def ofPairs (pairs : List (String × ColumnType)) : Except TableError Schema :=
  ofColumns (pairs.map fun pair => ⟨pair.1, pair.2⟩)

def names (s : Schema) : List String := s.columns.map Column.name

def size (s : Schema) : Nat := s.columns.length

/-- The position of the column with a name. -/
def indexOf? (s : Schema) (name : String) : Option Nat := s.index[name]?

def column? (s : Schema) (name : String) : Option Column :=
  (s.indexOf? name).bind fun i => s.columns[i]?

def has (s : Schema) (name : String) : Bool := s.index.contains name

def hasTyped (s : Schema) (name : String) (type : ColumnType) : Bool :=
  (s.column? name).any fun c => decide (c.type = type)

/-- Whether both schemas map the same names to the same types, in whatever order. -/
def sameColumns (s t : Schema) : Bool :=
  s.size == t.size && s.columns.all fun c => t.hasTyped c.name c.type

/-- The columns of both schemas, one after the other. -/
def join (s t : Schema) : Except TableError Schema := ofColumns (s.columns ++ t.columns)

/-- The column that a projection makes of one of the schema's columns. -/
def pick (s : Schema) (output : OutputColumn) : Except TableError Column :=
  match s.column? output.column with
  | some c => .ok (c.renamed output.name)
  | none => .error (.unknownProjected output.column)

/-- The chosen columns, in the order of the choice and under their new names. -/
def project (s : Schema) (outputs : List OutputColumn) : Except TableError Schema := do
  ofColumns (← outputs.mapM s.pick)

theorem columns_of_ofColumns {columns : List Column} {s : Schema}
    (h : ofColumns columns = .ok s) : s.columns = columns := by
  unfold ofColumns at h
  split at h
  · cases h; rfl
  · cases h

theorem ofColumns_columns (s : Schema) : ofColumns s.columns = .ok s := by
  unfold ofColumns
  split
  · congr 1; exact ext_columns rfl
  · rename_i e h; rw [s.indexed] at h; cases h

end Schema

theorem indexFrom_of_distinct {columns : List Column} (next : Nat)
    (index : Std.HashMap String Nat) (distinct : (columns.map Column.name).Nodup)
    (fresh : ∀ c ∈ columns, index.contains c.name = false) :
    ∃ whole, indexFrom next index columns = .ok whole := by
  induction columns generalizing next index with
  | nil => exact ⟨index, rfl⟩
  | cons c rest ih =>
    rw [List.map_cons, List.nodup_cons] at distinct
    have hc := fresh c (List.mem_cons_self ..)
    obtain ⟨whole, h⟩ := ih (next + 1) (index.insert c.name next) distinct.2 (by
      intro d hd
      rw [Std.HashMap.contains_insert, Bool.or_eq_false_iff]
      refine ⟨?_, fresh d (List.mem_cons_of_mem _ hd)⟩
      rw [beq_eq_false_iff_ne]
      exact fun e => distinct.1 (List.mem_map.2 ⟨d, hd, e.symm⟩))
    exact ⟨whole, by simp only [indexFrom, hc, h]; rfl⟩

theorem distinct_of_indexFrom {columns : List Column} {next : Nat}
    {index whole : Std.HashMap String Nat} (h : indexFrom next index columns = .ok whole) :
    (columns.map Column.name).Nodup ∧ ∀ c ∈ columns, index.contains c.name = false := by
  induction columns generalizing next index with
  | nil => simp
  | cons c rest ih =>
    unfold indexFrom at h
    split at h
    · cases h
    · rename_i hc
      obtain ⟨nodup, fresh⟩ := ih h
      simp only [Std.HashMap.contains_insert, Bool.or_eq_false_iff, beq_eq_false_iff_ne] at fresh
      constructor
      · rw [List.map_cons, List.nodup_cons]
        refine ⟨fun hm => ?_, nodup⟩
        obtain ⟨d, hd, e⟩ := List.mem_map.1 hm
        exact (fresh d hd).1 e.symm
      · intro d hd
        rcases List.mem_cons.1 hd with rfl | hd
        · simpa using hc
        · exact (fresh d hd).2

namespace Schema

theorem distinct (s : Schema) : s.names.Nodup := (distinct_of_indexFrom s.indexed).1

theorem exists_ofColumns {columns : List Column} (distinct : (columns.map Column.name).Nodup) :
    ∃ s, ofColumns columns = .ok s := by
  obtain ⟨index, h⟩ := indexFrom_of_distinct 0 ∅ distinct (by simp)
  unfold ofColumns
  split
  · exact ⟨_, rfl⟩
  · rename_i e; rw [h] at e; cases e

/-- The schema of columns whose names are known to be distinct. -/
def ofDistinct (columns : List Column) (distinct : (columns.map Column.name).Nodup) : Schema :=
  match h : ofColumns columns with
  | .ok s => s
  | .error _ => False.elim (by obtain ⟨s, hs⟩ := exists_ofColumns distinct; rw [hs] at h; cases h)

theorem ofColumns_of_distinct {columns : List Column}
    (distinct : (columns.map Column.name).Nodup) :
    ofColumns columns = .ok (ofDistinct columns distinct) := by
  unfold ofDistinct
  split
  · assumption
  · rename_i h; obtain ⟨s, hs⟩ := exists_ofColumns distinct; rw [hs] at h; cases h

theorem columns_ofDistinct {columns : List Column} (distinct : (columns.map Column.name).Nodup) :
    (ofDistinct columns distinct).columns = columns :=
  columns_of_ofColumns (ofColumns_of_distinct distinct)

end Schema

/-- What yields tuples of one schema, which is known before the first of them. -/
class HasSchema (σ : Type) where
  schemaOf : σ → Schema
end PullAlgebra
