import PullAlgebra.Proofs.Source.Construction
import PullAlgebra.Proofs.Source.EquiJoin
import PullAlgebra.Proofs.Source.Reset

/-!
# PullAlgebra.Proofs.Source.Grouping

The hash table as a grouping of the rows. The buckets are the classes of rows with equal keys, each
in the order of the relation, and the numbers give for every key that occurs the bucket of its
class. The table is built row by row. That every key has a bucket of its own with the rows of this
key does not rule out a bucket that no key leads to, so this is kept along the way as well.

* `HashTable.Filled`, `filled_insert`, `filled_insertAll`: no bucket without a key or without a row.
* `HashTable.mem_rowsWith`, `HashTable.pairwise_rowsWith`: the rows of a key.
* `HashTable.Groups`: what it means that a table groups the rows of a relation, and
  `HashTable.exists_groups` that the table of a relation does.
* `HashJoin.start_groups_rows`: so does the table of a hash join that is started in any state.
-/

namespace PullAlgebra

theorem Tuple.hasKey_iff {t : Tuple} {columns : List Nat} {key : List KeyAtom} :
    t.hasKey columns key ↔ t.key columns = .ok key := by
  unfold hasKey
  split
  · rename_i k hk
    rw [beq_iff_eq, hk, Except.ok.injEq]
  · rename_i e he
    rw [he]
    exact ⟨nofun, nofun⟩

namespace HashTable

variable {table : HashTable}

/-! ## No bucket too many -/

/-- Every bucket is that of a key, and it holds a row. -/
structure Filled (table : HashTable) : Prop where
  owned : ∀ {number : Nat}, number < table.buckets.size →
    ∃ key : List KeyAtom, table.numbers[key]? = some number
  rows_ne_nil : ∀ {key : List KeyAtom} {number : Nat},
    table.numbers[key]? = some number → table.rows key ≠ []

theorem filled_empty : Filled empty := by
  constructor
  · intro number h
    cases h
  · intro key number h
    simp [empty] at h

theorem filled_insert (keyed : table.Keyed) (h : table.Filled) (key : List KeyAtom) (row : Nat) :
    (table.insert key row).Filled := by
  cases hk : table.numbers[key]? with
  | some number =>
    constructor
    · intro number bound
      rw [insert_of_some hk] at bound ⊢
      rw [Array.size_modify] at bound
      exact h.owned bound
    · intro k number hn
      rw [insert_of_some hk] at hn
      rw [rows_insert keyed]
      exact List.append_ne_nil_of_left_ne_nil (h.rows_ne_nil hn) _
  | none =>
    constructor
    · intro number bound
      rw [insert_of_none hk] at bound ⊢
      rw [Array.size_push] at bound
      rcases Nat.lt_succ_iff_lt_or_eq.1 bound with old | rfl
      · obtain ⟨k, hn⟩ := h.owned old
        have other : key ≠ k := by
          rintro rfl
          cases hk.symm.trans hn
        exact ⟨k, by rw [Std.HashMap.getElem?_insert, beq_eq_false_iff_ne.2 other]; exact hn⟩
      · exact ⟨key, Std.HashMap.getElem?_insert_self⟩
    · intro k number hn
      rw [insert_of_none hk, Std.HashMap.getElem?_insert] at hn
      rw [rows_insert keyed]
      by_cases same : key = k
      · rw [if_pos same]
        exact List.append_ne_nil_of_right_ne_nil _ (List.cons_ne_nil row [])
      · rw [beq_eq_false_iff_ne.2 same] at hn
        exact List.append_ne_nil_of_left_ne_nil (h.rows_ne_nil hn) _

theorem filled_insertAll {columns : List Nat} {row : Nat} {ts : List Tuple} {whole : HashTable}
    (keyed : table.Keyed) (h : table.Filled)
    (built : insertAll columns table row ts = .ok whole) : whole.Filled := by
  induction ts generalizing table row with
  | nil => cases built; exact h
  | cons t rest ih =>
    unfold insertAll at built
    split at built
    · cases built
    · exact ih (keyed_insert keyed _ _) (filled_insert keyed h _ _) built

/-! ## The rows of a key -/

theorem mem_rowsWith {columns : List Nat} {key : List KeyAtom} {row n : Nat} {ts : List Tuple} :
    n ∈ rowsWith columns key row ts ↔
      ∃ k t, ts[k]? = some t ∧ t.key columns = .ok key ∧ n = row + k := by
  induction ts generalizing row with
  | nil => simp [rowsWith]
  | cons t rest ih =>
    rw [rowsWith, List.mem_append, ih]
    constructor
    · rintro (first | ⟨k, u, hu, hk, rfl⟩)
      · split at first
        · rename_i hk
          exact ⟨0, t, rfl, Tuple.hasKey_iff.1 hk, List.mem_singleton.1 first⟩
        · cases first
      · exact ⟨k + 1, u, hu, hk, by omega⟩
    · rintro ⟨k, u, hu, hk, rfl⟩
      cases k with
      | zero =>
        cases hu
        exact .inl (by rw [if_pos (Tuple.hasKey_iff.2 hk)]; exact List.mem_singleton_self row)
      | succ k => exact .inr ⟨k, u, hu, hk, by omega⟩

theorem pairwise_rowsWith (columns : List Nat) (key : List KeyAtom) (row : Nat) (ts : List Tuple) :
    (rowsWith columns key row ts).Pairwise (· < ·) := by
  induction ts generalizing row with
  | nil => exact .nil
  | cons t rest ih =>
    rw [rowsWith]
    split
    · refine .cons ?_ (ih (row + 1))
      intro n hn
      obtain ⟨k, -, -, -, rfl⟩ := mem_rowsWith.1 hn
      omega
    · exact ih (row + 1)

/-! ## The table of a relation -/

/-- The row is in the bucket with the number. -/
def Holds (table : HashTable) (number row : Nat) : Prop :=
  ∃ bucket, table.buckets[number]? = some bucket ∧ row ∈ bucket

/-- The table groups the rows of a relation by their keys. -/
structure Groups (table : HashTable) (r : Relation) (columns : List Nat) : Prop where
  /-- Every row is in exactly one bucket. -/
  once : ∀ row < r.size, ∃! number, table.Holds number row
  /-- Nothing else is in a bucket. -/
  bounded : ∀ number row, table.Holds number row → row < r.size
  nonempty : ∀ bucket ∈ table.buckets, bucket ≠ #[]
  ascending : ∀ bucket ∈ table.buckets, bucket.toList.Pairwise (· < ·)
  /-- Two rows are in the same bucket exactly if their keys are equal. -/
  together : ∀ row row' t t', r.get? row = some t → r.get? row' = some t' →
    ((∃ number, table.Holds number row ∧ table.Holds number row') ↔ t.key columns = t'.key columns)
  /-- Distinct keys have distinct buckets. -/
  apart : ∀ (key key' : List KeyAtom) (number : Nat),
    table.numbers[key]? = some number → table.numbers[key']? = some number → key = key'
  /-- The keys in the table are those that occur. -/
  occurring : ∀ key : List KeyAtom,
    (∃ number, table.numbers[key]? = some number) ↔ ∃ t ∈ r.tuples, t.key columns = .ok key
  /-- In the bucket of a key are the rows with this key. -/
  own : ∀ (key : List KeyAtom) (number : Nat), table.numbers[key]? = some number → ∀ row,
    table.Holds number row ↔ ∃ t, r.get? row = some t ∧ t.key columns = .ok key

theorem mem_rows_iff (keyed : table.Keyed) {key : List KeyAtom} {number : Nat}
    (hn : table.numbers[key]? = some number) {row : Nat} :
    row ∈ table.rows key ↔ table.Holds number row := by
  have bucket := Array.getElem?_eq_getElem (keyed.inBounds hn)
  rw [rows, hn, Holds, bucket]
  simp [Array.getD_eq_getD_getElem?, bucket]

theorem exists_number_of_mem_rows {key : List KeyAtom} {row : Nat} (h : row ∈ table.rows key) :
    ∃ number, table.numbers[key]? = some number := by
  unfold rows at h
  split at h
  · rename_i number hn
    exact ⟨number, hn⟩
  · cases h

theorem exists_rows_eq (filled : table.Filled) {bucket : Array Nat} (h : bucket ∈ table.buckets) :
    ∃ (key : List KeyAtom) (number : Nat),
      table.numbers[key]? = some number ∧ table.rows key = bucket.toList := by
  obtain ⟨number, bound, rfl⟩ := Array.mem_iff_getElem.1 h
  obtain ⟨key, hn⟩ := filled.owned bound
  exact ⟨key, number, hn, by simp [rows, hn, Array.getD, bound]⟩

section Rows

variable {r : Relation} {columns : List Nat} (keyed : table.Keyed) (filled : table.Filled)
  (rows : ∀ key, table.rows key = rowsWith columns key 0 r.tuples.toList)
include keyed filled rows

omit keyed filled in
theorem mem_rows_of_relation {key : List KeyAtom} {row : Nat} :
    row ∈ table.rows key ↔ ∃ t, r.get? row = some t ∧ t.key columns = .ok key := by
  rw [rows, mem_rowsWith]
  simp [Relation.get?]

/-- A row is in the bucket of its key and in no other one. -/
theorem holds_iff {number row : Nat} :
    table.Holds number row ↔ ∃ t key, r.get? row = some t ∧ t.key columns = .ok key ∧
      table.numbers[key]? = some number := by
  constructor
  · rintro ⟨bucket, hb, hr⟩
    obtain ⟨key, hn⟩ := filled.owned (Array.getElem?_eq_some_iff.1 hb).1
    obtain ⟨t, ht, hk⟩ :=
      (mem_rows_of_relation rows).1 ((mem_rows_iff keyed hn).2 ⟨bucket, hb, hr⟩)
    exact ⟨t, key, ht, hk, hn⟩
  · rintro ⟨t, key, ht, hk, hn⟩
    exact (mem_rows_iff keyed hn).1 ((mem_rows_of_relation rows).2 ⟨t, ht, hk⟩)

omit keyed in
theorem occurring_iff {key : List KeyAtom} :
    (∃ number, table.numbers[key]? = some number) ↔ ∃ t ∈ r.tuples, t.key columns = .ok key := by
  constructor
  · rintro ⟨number, hn⟩
    obtain ⟨row, hr⟩ := List.exists_mem_of_ne_nil _ (filled.rows_ne_nil hn)
    obtain ⟨t, ht, hk⟩ := (mem_rows_of_relation rows).1 hr
    exact ⟨t, Array.mem_of_getElem? ht, hk⟩
  · rintro ⟨t, ht, hk⟩
    obtain ⟨row, ht⟩ := Array.mem_iff_getElem?.1 ht
    exact exists_number_of_mem_rows ((mem_rows_of_relation rows).2 ⟨t, ht, hk⟩)

/-- A table groups the rows if every key leads to its rows and every bucket belongs to a key. -/
theorem groups_of_rows (keys : ∀ t ∈ r.tuples, ∃ key, t.key columns = .ok key) :
    table.Groups r columns where
  once := by
    intro row bound
    have ht : r.get? row = some r.tuples[row] := Array.getElem?_eq_getElem bound
    obtain ⟨key, hk⟩ := keys _ (Array.getElem_mem bound)
    obtain ⟨number, hn⟩ := (occurring_iff filled rows).2 ⟨_, Array.getElem_mem bound, hk⟩
    refine ⟨number, (holds_iff keyed filled rows).2 ⟨_, key, ht, hk, hn⟩, ?_⟩
    intro number' held
    obtain ⟨t, key', ht', hk', hn'⟩ := (holds_iff keyed filled rows).1 held
    cases ht.symm.trans ht'
    cases hk.symm.trans hk'
    exact Option.some.inj (hn'.symm.trans hn)
  bounded := by
    intro number row held
    obtain ⟨t, -, ht, -⟩ := (holds_iff keyed filled rows).1 held
    exact (Array.getElem?_eq_some_iff.1 ht).1
  nonempty := by
    rintro bucket hb rfl
    obtain ⟨key, number, hn, same⟩ := exists_rows_eq filled hb
    exact filled.rows_ne_nil hn same
  ascending := by
    intro bucket hb
    obtain ⟨key, number, -, same⟩ := exists_rows_eq filled hb
    rw [← same, rows]
    exact pairwise_rowsWith ..
  together := by
    intro row row' t t' ht ht'
    constructor
    · rintro ⟨number, held, held'⟩
      obtain ⟨_, key, hu, hk, hn⟩ := (holds_iff keyed filled rows).1 held
      obtain ⟨_, key', hu', hk', hn'⟩ := (holds_iff keyed filled rows).1 held'
      cases ht.symm.trans hu
      cases ht'.symm.trans hu'
      rw [hk, hk', keyed.apart hn hn']
    · intro same
      obtain ⟨key, hk⟩ := keys t (Array.mem_of_getElem? ht)
      obtain ⟨number, hn⟩ := (occurring_iff filled rows).2 ⟨t, Array.mem_of_getElem? ht, hk⟩
      exact ⟨number, (holds_iff keyed filled rows).2 ⟨t, key, ht, hk, hn⟩,
        (holds_iff keyed filled rows).2 ⟨t', key, ht', same ▸ hk, hn⟩⟩
  apart := fun _ _ _ => keyed.apart
  occurring := fun _ => occurring_iff filled rows
  own := by
    intro key number hn row
    rw [← mem_rows_iff keyed hn, mem_rows_of_relation rows]

end Rows

/-- The table of a relation by columns of the relation is built, and it groups the rows. -/
theorem exists_groups {r : Relation} {columns : List Nat}
    (inRange : ∀ i ∈ columns, i < r.schema.size) :
    ∃ table, build r columns = .ok table ∧ table.Groups r columns := by
  have keys : ∀ t ∈ r.tuples, ∃ key, t.key columns = .ok key := by
    intro t ht
    refine t.exists_key ?_
    intro i hi
    rw [Tuple.size_eq (r.aligned t ht)]
    exact inRange i hi
  obtain ⟨table, built⟩ :=
    exists_insertAll (fun t ht => keys t (Array.mem_toList_iff.1 ht)) empty 0
  refine ⟨table, built, groups_of_rows (keyed_insertAll keyed_empty built)
    (filled_insertAll keyed_empty filled_empty built) ?_ keys⟩
  intro key
  rw [rows_insertAll keyed_empty built, rows_empty, List.nil_append]

end HashTable

namespace HashJoin

/-- The key columns of the grouped relation exist, in whatever state a join has come into since it
was set up. -/
theorem inRange_of_ofRelations {r s : Relation} {keys : List (String × String)} {j : HashJoin}
    (h : ofRelations r s keys = .ok j.reset) : ∀ i ∈ j.grouped.2, i < j.grouped.1.schema.size := by
  obtain ⟨rfl, rfl, -, pairs, paired, hl, hk⟩ := paired_of_ofRelations h
  obtain ⟨left, right⟩ := inRange_of_paired paired
  rw [← hl] at left
  rw [← hk] at right
  unfold grouped
  split
  · exact left
  · exact right

/-- A hash join is started in any state: a table from an earlier run, a look-up that was abandoned,
a run that is over or was closed. The table is built anew, and it groups the rows of the relation
that the join groups, by the key columns of this relation. -/
theorem start_groups_rows {j : HashJoin} (inRange : ∀ i ∈ j.grouped.2, i < j.grouped.1.schema.size) :
    ∃ table,
      j.start = ⟨.ok (), { j with table, row := 0, lookUp := none, phase := .running }⟩ ∧
      table.Groups j.grouped.1 j.grouped.2 := by
  obtain ⟨table, built, groups⟩ := HashTable.exists_groups inRange
  exact ⟨table, start_of_ok built, groups⟩

/-- A join of two columns of doubles, at the end of a run that left rows in the table which the
relation does not have. Once it is started again the zeros of both signs share a bucket, and the
number between them is in another one. -/
theorem leftover_table_replaced :
    ∃ (r s : Relation) (j : HashJoin) (table : HashTable),
      ofRelations r s [("a", "b")] = .ok j.reset ∧
      j.table.buckets = #[#[7, 7]] ∧ j.phase = .exhausted ∧
      (∀ i ∈ j.grouped.2, i < j.grouped.1.schema.size) ∧
      j.grouped.1.tuples.toList.map Tuple.values = [[.float 0.0], [.float 1.5], [.float (-0.0)]] ∧
      j.start = ⟨.ok (), { j with table, row := 0, lookUp := none, phase := .running }⟩ ∧
      table.Groups j.grouped.1 j.grouped.2 ∧
      (∃ number, table.Holds number 0 ∧ table.Holds number 2) ∧
      ¬∃ number, table.Holds number 0 ∧ table.Holds number 1 := by
  let r := Relation.ofColumn ⟨"a", .float⟩ [.float 2.5, .float 1.5, .float 0.5] (by decide)
  let s := Relation.ofColumn ⟨"b", .float⟩ [.float 0.0, .float 1.5, .float (-0.0)] (by decide)
  have key : Paired r.schema s.schema ("a", "b") (0, 0) :=
    ⟨Relation.indexOf?_ofColumn, Relation.indexOf?_ofColumn, ⟨"a", .float⟩, ⟨"b", .float⟩,
      by rw [Relation.columns_ofColumn]; rfl, by rw [Relation.columns_ofColumn]; rfl, rfl⟩
  have paired : List.Forall₂ (Paired r.schema s.schema) [("a", "b")] [(0, 0)] := .cons key .nil
  have resolved := mapM_eq_ok_of_forall₂ (paired.imp fun _ _ => Paired.keyPair_eq)
  have joined : r.schema.join s.schema = .ok _ := Relation.join_ofColumn (by decide)
  let j : HashJoin := ⟨r, s, _, joined, [0], [0], ⟨∅, #[#[7, 7]]⟩, 3, some ⟨2, 0, 1⟩, .exhausted⟩
  have built : ofRelations r s [("a", "b")] = .ok j.reset :=
    ofRelations_of_keys (by decide) joined resolved
  have inRange := inRange_of_ofRelations built
  obtain ⟨table, started, groups⟩ := start_groups_rows inRange
  refine ⟨r, s, j, table, built, rfl, rfl, inRange, rfl, started, groups, ?_, ?_⟩
  · exact (groups.together 0 2 _ _ rfl rfl).2 rfl
  · intro shared
    have same : (.ok [.float 0] : Except QueryError (List KeyAtom)) =
        .ok [.float (1.5 : Float).toBits] := (groups.together 0 1 _ _ rfl rfl).1 shared
    exact absurd (Except.ok.inj same) (by decide)

end HashJoin
end PullAlgebra
