import PullAlgebra.QueryError
import PullAlgebra.Relation

/-!
# PullAlgebra.Source.HashTable

The rows of a relation grouped by the values of some of their columns. Each group is a bucket of row
numbers in ascending order, and a table finds the bucket of a key.

* `Tuple.key`: the key of a tuple. Equal values have equal keys; the two zeros are one key.
* `HashTable.build`: the table of all rows of a relation.
-/

namespace PullAlgebra

/-- A value as a part of a key. A double is represented by its bits, zero by those of `0.0`. -/
inductive KeyAtom where
  | boolean (b : Bool)
  | string (s : String)
  | integer (i : Int64)
  | float (bits : UInt64)
  deriving DecidableEq, Hashable

def KeyAtom.ofValue : Value → KeyAtom
  | .boolean b => boolean b
  | .string s => string s
  | .integer i => integer i
  | .float x => float (if x == 0 then 0 else x.toBits)

/-- The key of a tuple: the parts that its fields in the given columns make. -/
def Tuple.key (t : Tuple) (columns : List Nat) : Except QueryError (List KeyAtom) :=
  columns.mapM fun i =>
    match t.fields[i]? with
    | some f => .ok (.ofValue f.value)
    | none => .error (.noField i)

structure HashTable where
  /-- The number of each key's bucket. -/
  numbers : Std.HashMap (List KeyAtom) Nat
  /-- The row numbers of each bucket. -/
  buckets : Array (Array Nat)

namespace HashTable

def empty : HashTable := ⟨∅, #[]⟩

/-- The table with one more row, in the bucket of its key or in a new one. -/
def insert (table : HashTable) (key : List KeyAtom) (row : Nat) : HashTable :=
  match table with
  | ⟨numbers, buckets⟩ =>
    match numbers[key]? with
    | some number => ⟨numbers, buckets.modify number (·.push row)⟩
    | none => ⟨numbers.insert key buckets.size, buckets.push #[row]⟩

/-- The table with more rows, numbered from `row` on. -/
def insertAll (columns : List Nat) (table : HashTable) (row : Nat) :
    List Tuple → Except QueryError HashTable
  | [] => .ok table
  | t :: rest =>
    match t.key columns with
    | .error e => .error e
    | .ok key => insertAll columns (table.insert key row) (row + 1) rest

/-- The table of all rows of a relation by the given columns. -/
def build (r : Relation) (columns : List Nat) : Except QueryError HashTable :=
  insertAll columns empty 0 r.tuples.toList

/-- The size of the largest bucket. -/
def largest (table : HashTable) : Nat :=
  table.buckets.toList.foldr (fun bucket n => max bucket.size n) 0

theorem size_le_largest {table : HashTable} {number : Nat} {bucket : Array Nat}
    (h : table.buckets[number]? = some bucket) : bucket.size ≤ table.largest := by
  have hm : bucket ∈ table.buckets.toList := Array.mem_toList_iff.2 (Array.mem_of_getElem? h)
  unfold largest
  generalize table.buckets.toList = buckets at hm
  induction buckets with
  | nil => cases hm
  | cons b bs ih =>
    rw [List.foldr_cons]
    rcases List.mem_cons.1 hm with rfl | hm
    · exact Nat.le_max_left ..
    · exact Nat.le_trans (ih hm) (Nat.le_max_right ..)

end HashTable
end PullAlgebra
