import PullAlgebra.Iterator
import PullAlgebra.Source.HashTable
import PullAlgebra.Source.RowPairs

/-!
# PullAlgebra.Source.HashJoin

The pairs of rows of two relations with equal keys, found through a hash table. A run groups the
rows of the smaller relation by key and then looks the rows of the other one up, one after the
other; the matches of a row come in the order of the smaller relation. Of relations of equal size
the second one is grouped. The columns of the first relation always come first.
-/

namespace PullAlgebra

/-- A row that is being looked up: its bucket, and how many rows of it have been matched. -/
structure LookUp where
  row : Nat
  bucket : Nat
  matched : Nat

structure HashJoin where
  r : Relation
  s : Relation
  schema : Schema
  joined : r.schema.join s.schema = .ok schema
  /-- The positions of the key columns in `r`. -/
  leftKeys : List Nat
  /-- The positions of the key columns in `s`. -/
  rightKeys : List Nat
  table : HashTable
  /-- The number of the next row to look up. -/
  row : Nat
  lookUp : Option LookUp
  phase : Phase

namespace HashJoin

/-- The positions of a pair of key columns, which must exist and be of the same type. -/
def keyPair (r s : Schema) (left right : String) : Except QueryError (Nat × Nat) :=
  match r.indexOf? left, r.column? left with
  | some i, some c =>
    match s.indexOf? right, s.column? right with
    | some k, some d =>
      if c.type = d.type then .ok (i, k)
      else .error (.keyTypesDiffer left c.type right d.type)
    | _, _ => .error (.columnNotFound right)
  | _, _ => .error (.columnNotFound left)

/-- The join of relations without a common column name by pairs of columns, of which there must be
at least one. -/
def ofRelations (r s : Relation) (keys : List (String × String)) : Except QueryError HashJoin :=
  if keys = [] then .error .noKeys
  else
    match h : r.schema.join s.schema with
    | .error e => .error (.table e)
    | .ok schema =>
      match keys.mapM fun (left, right) => keyPair r.schema s.schema left right with
      | .error e => .error e
      | .ok pairs =>
        .ok ⟨r, s, schema, h, pairs.map Prod.fst, pairs.map Prod.snd, .empty, 0, none, .unopened⟩

/-- Whether the rows of `r` are the ones in the table. -/
def groupsLeft (j : HashJoin) : Bool := decide (j.r.size < j.s.size)

/-- The relation whose rows are in the table, and its key columns. -/
def grouped (j : HashJoin) : Relation × List Nat :=
  if j.groupsLeft then (j.r, j.leftKeys) else (j.s, j.rightKeys)

/-- The relation whose rows are looked up, and its key columns. -/
def scanned (j : HashJoin) : Relation × List Nat :=
  if j.groupsLeft then (j.s, j.rightKeys) else (j.r, j.leftKeys)

/-- The combined tuple of a scanned row and a grouped row. -/
def combine (j : HashJoin) (scannedRow groupedRow : Nat) : Except QueryError Tuple :=
  if j.groupsLeft then joinRows j.r j.s groupedRow scannedRow
  else joinRows j.r j.s scannedRow groupedRow

/-- The next match from a look-up and a row on, with the row and the look-up that come after it. -/
def seek (j : HashJoin) (row : Nat) (lookUp : Option LookUp) :
    Except QueryError (Option Tuple) × Nat × Option LookUp :=
  match lookUp with
  | some l =>
    match j.table.buckets[l.bucket]? with
    | none => (.error (.noBucket l.bucket), row, some l)
    | some bucket =>
      match bucket[l.matched]? with
      | some groupedRow =>
        ((j.combine l.row groupedRow).map some, row, some { l with matched := l.matched + 1 })
      | none => seek j row none
  | none =>
    match h : j.scanned.1.get? row with
    | none => (.ok none, row, none)
    | some t =>
      have : row < j.scanned.1.size := (Array.getElem?_eq_some_iff.1 h).1
      match t.key j.scanned.2 with
      | .error e => (.error e, row, none)
      | .ok key => seek j (row + 1) (j.table.numbers[key]?.map fun number => ⟨row, number, 0⟩)
termination_by (j.scanned.1.size - row, if lookUp.isSome then 1 else 0)

def produce (j : HashJoin) : Reply HashJoin (Option Tuple) :=
  match j.seek j.row j.lookUp with
  | (.ok none, row, lookUp) => ⟨.ok none, { j with row, lookUp, phase := .exhausted }⟩
  | (result, row, lookUp) => ⟨result, { j with row, lookUp }⟩

def start (j : HashJoin) : Reply HashJoin Unit :=
  match HashTable.build j.grouped.1 j.grouped.2 with
  | .ok table => ⟨.ok (), { j with table, row := 0, lookUp := none, phase := .running }⟩
  | .error e => ⟨.error e, j⟩

instance : Iterator HashJoin Tuple where
  start := start
  next j := j.phase.gate "HashJoin" j fun _ => j.produce
  close j := { j with table := .empty, lookUp := none, phase := .closed }

/-- The rows of the bucket that have not been matched yet. -/
def left (table : HashTable) : Option LookUp → Nat
  | none => 0
  | some l => (table.buckets.getD l.bucket #[]).size - l.matched

/-- A bound on the matches from a row and a look-up on: each row has at most as many as the largest
bucket holds. -/
def bound (j : HashJoin) (row : Nat) (lookUp : Option LookUp) : Nat :=
  (j.scanned.1.size - row) * (j.table.largest + 1) + left j.table lookUp

def budget (j : HashJoin) : Nat := j.bound j.row j.lookUp

theorem left_le_largest (table : HashTable) (lookUp : Option LookUp) :
    left table lookUp ≤ table.largest := by
  cases lookUp with
  | none => exact Nat.zero_le _
  | some l =>
    unfold left
    cases h : table.buckets[l.bucket]? with
    | none => simp [Array.getD_eq_getD_getElem?, h]
    | some bucket =>
      have := HashTable.size_le_largest h
      simp [Array.getD_eq_getD_getElem?, h]
      omega

theorem bound_seek {j : HashJoin} {row : Nat} {lookUp : Option LookUp} {t : Tuple}
    (h : (j.seek row lookUp).1 = .ok (some t)) :
    j.bound (j.seek row lookUp).2.1 (j.seek row lookUp).2.2 < j.bound row lookUp := by
  fun_induction seek j row lookUp with
  | case1 => cases h
  | case2 row l bucket hb groupedRow hg =>
    have lt : l.matched < bucket.size := (Array.getElem?_eq_some_iff.1 hg).1
    simp [bound, left, Array.getD_eq_getD_getElem?, hb]
    omega
  | case3 row l bucket hb hg ih =>
    refine Nat.lt_of_lt_of_le (ih h) ?_
    simp [bound, left]
  | case4 => cases h
  | case5 => cases h
  | case6 row t ht lt key hk ih =>
    refine Nat.lt_of_lt_of_le (ih h) ?_
    unfold bound
    have := left_le_largest j.table (j.table.numbers[key]?.map fun number => ⟨row, number, 0⟩)
    have split : j.scanned.1.size - row = j.scanned.1.size - (row + 1) + 1 := by omega
    rw [split, Nat.add_mul]
    omega

theorem budget_produce {j : HashJoin} {t : Tuple} (h : j.produce.result = .ok (some t)) :
    j.produce.after.budget < j.budget := by
  have found : (j.seek j.row j.lookUp).1 = .ok (some t) := by
    unfold produce at h
    split at h
    · cases h
    · rename_i hs; rw [hs]; exact h
  have := bound_seek found
  unfold produce
  split
  · rename_i hs; rw [hs] at found; cases found
  · rename_i hs
    rw [hs] at this
    exact this

instance : FiniteIterator HashJoin Tuple where
  budget := budget
  budget_next h := Phase.lt_of_gate _ h budget_produce

end HashJoin
end PullAlgebra
