import PullAlgebra.Proofs.Emission
import PullAlgebra.Proofs.Source.RowPairs
import PullAlgebra.Source.HashJoin

/-!
# PullAlgebra.Proofs.Source.Buckets

The hash table as a function from keys to rows, and the resumable look-up as a list of pairs. The
rows of a key are exactly the rows of the relation with this key, in ascending order; a hash join
that has been started yields the pairs of a scanned row and a row of its key, scanned row by scanned
row.

* `HashTable.rows_insert`, `HashTable.rows_insertAll`: the rows of each key, one row and all rows.
* `HashJoin.seek_cases`: one look-up takes the first of the pairs that are still to come.
* `HashJoin.emits_pending`: the rest of a run.
* `HashJoin.exists_start_of_lt`, `HashJoin.exists_start_of_le`: a whole run as two nested loops.
-/

namespace PullAlgebra

def Tuple.hasKey (t : Tuple) (columns : List Nat) (key : List KeyAtom) : Bool :=
  match t.key columns with
  | .ok k => k == key
  | .error _ => false

/-- Whether two tuples have the same key, each in columns of its own. -/
def Tuple.meets (t : Tuple) (columns : List Nat) (u : Tuple) (columns' : List Nat) : Bool :=
  match t.key columns with
  | .ok key => u.hasKey columns' key
  | .error _ => false

theorem Tuple.hasKey_of_key {t : Tuple} {columns : List Nat} {k : List KeyAtom}
    (h : t.key columns = .ok k) (key : List KeyAtom) : t.hasKey columns key = (k == key) := by
  simp only [hasKey, h]

namespace HashTable

/-- The rows in the bucket of a key, and none when there is no bucket. -/
def rows (table : HashTable) (key : List KeyAtom) : List Nat :=
  match table.numbers[key]? with
  | some number => (table.buckets.getD number #[]).toList
  | none => []

/-- Every key that has a bucket has one of its own. -/
structure Keyed (table : HashTable) : Prop where
  inBounds : ∀ {key : List KeyAtom} {number : Nat},
    table.numbers[key]? = some number → number < table.buckets.size
  apart : ∀ {key key' : List KeyAtom} {number : Nat},
    table.numbers[key]? = some number → table.numbers[key']? = some number → key = key'

theorem keyed_empty : Keyed empty := by
  constructor
  · intro key number h
    simp [empty] at h
  · intro key key' number h
    simp [empty] at h

theorem rows_empty (key : List KeyAtom) : empty.rows key = [] := by
  simp [rows, empty]

variable {table : HashTable}

theorem insert_of_some {key : List KeyAtom} {number : Nat} (h : table.numbers[key]? = some number)
    (row : Nat) :
    table.insert key row = ⟨table.numbers, table.buckets.modify number (·.push row)⟩ := by
  simp only [insert, h]

theorem insert_of_none {key : List KeyAtom} (h : table.numbers[key]? = none) (row : Nat) :
    table.insert key row =
      ⟨table.numbers.insert key table.buckets.size, table.buckets.push #[row]⟩ := by
  simp only [insert, h]

theorem keyed_insert (h : table.Keyed) (key : List KeyAtom) (row : Nat) :
    (table.insert key row).Keyed := by
  cases hk : table.numbers[key]? with
  | some number =>
    rw [insert_of_some hk]
    refine ⟨?_, h.apart⟩
    intro _ _ hn
    rw [Array.size_modify]
    exact h.inBounds hn
  | none =>
    rw [insert_of_none hk]
    constructor
    · intro k number hn
      rw [Std.HashMap.getElem?_insert] at hn
      rw [Array.size_push]
      split at hn
      · cases hn
        exact Nat.lt_succ_self _
      · exact Nat.lt_succ_of_lt (h.inBounds hn)
    · -- the new number is beyond those of the old buckets
      intro k k' number hn hn'
      rw [Std.HashMap.getElem?_insert] at hn hn'
      split at hn <;> split at hn'
      · rename_i e e'
        exact (beq_iff_eq.1 e).symm.trans (beq_iff_eq.1 e')
      · cases hn
        exact absurd (h.inBounds hn') (Nat.lt_irrefl _)
      · cases hn'
        exact absurd (h.inBounds hn) (Nat.lt_irrefl _)
      · exact h.apart hn hn'

theorem rows_insert (h : table.Keyed) (key : List KeyAtom) (row : Nat) (k : List KeyAtom) :
    (table.insert key row).rows k = table.rows k ++ if key = k then [row] else [] := by
  cases hn : table.numbers[key]? with
  | some number =>
    have bound := h.inBounds hn
    rw [insert_of_some hn, rows, rows]
    by_cases hk : key = k
    · subst hk
      simp [hn, bound, Array.getD, Array.getElem_modify_self]
    · cases hk' : table.numbers[k]? with
      | none => simp [hk]
      | some number' =>
        have apart : number ≠ number' := fun e => hk (h.apart hn (e ▸ hk'))
        have bound' := h.inBounds hk'
        simp [hk, Array.getD, Array.getElem_modify, apart]
  | none =>
    rw [insert_of_none hn, rows, rows, Std.HashMap.getElem?_insert]
    by_cases hk : key = k
    · subst hk
      simp [hn]
    · cases hk' : table.numbers[k]? with
      | none => simp [hk]
      | some number' =>
        have bound := h.inBounds hk'
        simp [hk, Array.getD, Array.getElem_push, bound, Nat.lt_succ_of_lt bound]

/-- The numbers, counted from `row` on, of the tuples with a key. -/
def rowsWith (columns : List Nat) (key : List KeyAtom) (row : Nat) : List Tuple → List Nat
  | [] => []
  | t :: rest =>
    (if t.hasKey columns key then [row] else []) ++ rowsWith columns key (row + 1) rest

theorem keyed_insertAll {columns : List Nat} {row : Nat} {ts : List Tuple} {whole : HashTable}
    (h : table.Keyed) (built : insertAll columns table row ts = .ok whole) : whole.Keyed := by
  induction ts generalizing table row with
  | nil => cases built; exact h
  | cons t rest ih =>
    unfold insertAll at built
    split at built
    · cases built
    · exact ih (keyed_insert h _ _) built

theorem rows_insertAll {columns : List Nat} {row : Nat} {ts : List Tuple} {whole : HashTable}
    (h : table.Keyed) (built : insertAll columns table row ts = .ok whole) (key : List KeyAtom) :
    whole.rows key = table.rows key ++ rowsWith columns key row ts := by
  induction ts generalizing table row with
  | nil => cases built; simp [rowsWith]
  | cons t rest ih =>
    unfold insertAll at built
    split at built
    · cases built
    · rename_i k hk
      rw [ih (keyed_insert h _ _) built, rows_insert h, rowsWith, Tuple.hasKey_of_key hk,
        List.append_assoc]
      simp

theorem exists_insertAll {columns : List Nat} {ts : List Tuple}
    (keys : ∀ t ∈ ts, ∃ key, t.key columns = .ok key) (table : HashTable) (row : Nat) :
    ∃ whole, insertAll columns table row ts = .ok whole := by
  induction ts generalizing table row with
  | nil => exact ⟨table, rfl⟩
  | cons t rest ih =>
    obtain ⟨key, hk⟩ := keys t (List.mem_cons_self ..)
    obtain ⟨whole, hw⟩ :=
      ih (fun u hu => keys u (List.mem_cons_of_mem _ hu)) (table.insert key row) (row + 1)
    exact ⟨whole, by simp only [insertAll, hk, hw]⟩

theorem map_rowsWith {β : Type} {columns : List Nat} {key : List KeyAtom} {row : Nat}
    {us : List Tuple} {f : Tuple → β} {g : Nat → β}
    (h : ∀ k u, us[k]? = some u → g (row + k) = f u) :
    (rowsWith columns key row us).map g =
      us.filterMap fun u => if u.hasKey columns key then some (f u) else none := by
  induction us generalizing row with
  | nil => rfl
  | cons u us ih =>
    have rest : ∀ k v, us[k]? = some v → g (row + 1 + k) = f v := by
      intro k v hv
      rw [Nat.add_assoc, Nat.add_comm 1]
      exact h (k + 1) v hv
    rw [rowsWith, List.map_append, List.filterMap_cons, ih rest]
    split
    · simp [← h 0 u rfl]
    · rfl

end HashTable

namespace HashJoin

/-- The pairs that rows, numbered from `row` on, make with the rows of their keys. -/
def matchesFrom (table : HashTable) (columns : List Nat) (row : Nat) :
    List Tuple → List (Nat × Nat)
  | [] => []
  | t :: rest =>
    (match t.key columns with
      | .ok key => (table.rows key).map (row, ·)
      | .error _ => []) ++ matchesFrom table columns (row + 1) rest

/-- The pairs that a look-up has not made yet. -/
def matchesOf (table : HashTable) : Option LookUp → List (Nat × Nat)
  | none => []
  | some l => ((table.buckets.getD l.bucket #[]).toList.drop l.matched).map (l.row, ·)

/-- The pairs of a scanned row and a grouped row that are still to come. -/
def pending (j : HashJoin) (row : Nat) (lookUp : Option LookUp) : List (Nat × Nat) :=
  matchesOf j.table lookUp ++
    matchesFrom j.table j.scanned.2 row (j.scanned.1.tuples.toList.drop row)

/-- What a run needs: buckets for the numbers in the table, and keys for the rows to look up. -/
structure Ready (j : HashJoin) : Prop where
  keyed : j.table.Keyed
  keys : ∀ t ∈ j.scanned.1.tuples, ∃ key, t.key j.scanned.2 = .ok key

def InBounds (j : HashJoin) (lookUp : Option LookUp) : Prop :=
  ∀ l, lookUp = some l → l.bucket < j.table.buckets.size

theorem inBounds_lookUp {j : HashJoin} (h : j.Ready) (row : Nat) (key : List KeyAtom) :
    j.InBounds (j.table.numbers[key]?.map fun number => ⟨row, number, 0⟩) := by
  intro l hl
  obtain ⟨number, hn, rfl⟩ := Option.map_eq_some_iff.1 hl
  exact h.keyed.inBounds hn

theorem matchesOf_lookUp (table : HashTable) (row : Nat) (key : List KeyAtom) :
    matchesOf table (table.numbers[key]?.map fun number => ⟨row, number, 0⟩) =
      (table.rows key).map (row, ·) := by
  unfold HashTable.rows
  cases table.numbers[key]? <;> rfl

/-- A look-up takes the first of the pairs that are still to come. -/
theorem seek_cases {j : HashJoin} (h : j.Ready) (row : Nat) (lookUp : Option LookUp)
    (hl : j.InBounds lookUp) :
    (∃ row' lookUp', j.seek row lookUp = (.ok none, row', lookUp') ∧ j.pending row lookUp = []) ∨
    (∃ a b row' lookUp', j.seek row lookUp = ((j.combine a b).map some, row', lookUp') ∧
      j.pending row lookUp = (a, b) :: j.pending row' lookUp' ∧ j.InBounds lookUp') := by
  fun_induction seek j row lookUp with
  | case1 row l hb =>
    have := Array.getElem?_eq_none_iff.1 hb
    exact absurd (hl l rfl) (Nat.not_lt.2 this)
  | case2 row l bucket hb groupedRow hg =>
    refine .inr ⟨_, _, _, _, rfl, ?_, fun l' e => ?_⟩
    · obtain ⟨hm, hg⟩ := Array.getElem?_eq_some_iff.1 hg
      have hm' : l.matched < bucket.toList.length := hm
      simp [pending, matchesOf, Array.getD_eq_getD_getElem?, hb, List.drop_eq_getElem_cons hm', hg]
    · cases e
      exact hl l rfl
  | case3 row l bucket hb hg ih =>
    have done : matchesOf j.table (some l) = [] := by
      have := Array.getElem?_eq_none_iff.1 hg
      simp [matchesOf, Array.getD_eq_getD_getElem?, hb, this]
    have same : j.pending row (some l) = j.pending row none := by
      rw [pending, done]
      rfl
    rw [same]
    exact ih fun l' e => by cases e
  | case4 row ht =>
    have none : j.scanned.1.tuples.toList.drop row = [] :=
      List.drop_eq_nil_of_le (Array.getElem?_eq_none_iff.1 ht)
    refine .inl ⟨_, _, rfl, ?_⟩
    rw [pending, none]
    rfl
  | case5 row t ht _ e hk =>
    obtain ⟨key, hk'⟩ := h.keys t (Array.mem_of_getElem? ht)
    rw [hk] at hk'
    cases hk'
  | case6 row t ht _ key hk ih =>
    have same : j.pending row none = j.pending (row + 1)
        (j.table.numbers[key]?.map fun number => ⟨row, number, 0⟩) := by
      obtain ⟨bound, ht⟩ := Array.getElem?_eq_some_iff.1 ht
      have bound' : row < j.scanned.1.tuples.toList.length := bound
      have first : j.scanned.1.tuples.toList[row] = t := ht
      rw [pending, List.drop_eq_getElem_cons bound', matchesFrom, first, hk, pending,
        matchesOf_lookUp]
      rfl
    rw [same]
    exact ih (inBounds_lookUp h row key)

theorem map_matchesFrom {β : Type} {table : HashTable} {columns columns' : List Nat} {row : Nat}
    {ts us : List Tuple} {f : Tuple → Tuple → β} {g : Nat → Nat → β}
    (rows : ∀ key, table.rows key = HashTable.rowsWith columns' key 0 us)
    (h : ∀ i k t u, ts[i]? = some t → us[k]? = some u → g (row + i) k = f t u) :
    (matchesFrom table columns row ts).map (fun pair => g pair.1 pair.2) =
      ts.flatMap fun t => us.filterMap fun u =>
        if t.meets columns u columns' then some (f t u) else none := by
  induction ts generalizing row with
  | nil => rfl
  | cons t ts ih =>
    have rest : ∀ i k t' u, ts[i]? = some t' → us[k]? = some u →
        g (row + 1 + i) k = f t' u := by
      intro i k t' u ht hu
      rw [Nat.add_assoc, Nat.add_comm 1]
      exact h (i + 1) k t' u ht hu
    rw [matchesFrom, List.map_append, List.flatMap_cons, ih rest]
    unfold Tuple.meets
    cases t.key columns with
    | error e => simp
    | ok key =>
      have first : ∀ k u, us[k]? = some u → g row (0 + k) = f t u := by
        intro k u hu
        rw [Nat.zero_add]
        exact h 0 k t u rfl hu
      dsimp only
      rw [rows, List.map_map, ← HashTable.map_rowsWith first]
      rfl

theorem next_running {j : HashJoin} (h : j.phase = .running) : Iterator.next j = j.produce := by
  change j.phase.gate "HashJoin" j _ = _
  rw [h]
  rfl

theorem emits_pending {j : HashJoin} (running : j.phase = .running) (h : j.Ready)
    (hl : j.InBounds j.lookUp) :
    Emits j ((j.pending j.row j.lookUp).map fun pair => j.combine pair.1 pair.2) := by
  have hn := next_running running
  unfold produce at hn
  rcases seek_cases h j.row j.lookUp hl with
    ⟨row, lookUp, hs, hp⟩ | ⟨a, b, row, lookUp, hs, hp, hl'⟩ <;> rw [hs] at hn <;> rw [hp]
  · exact .done hn
  · have rest := emits_pending (j := { j with row, lookUp }) running ⟨h.keyed, h.keys⟩ hl'
    rw [List.map_cons]
    cases hc : j.combine a b with
    | ok t => rw [hc] at hn; exact .item hn rest
    | error e => rw [hc] at hn; exact .fail hn rest
termination_by (j.pending j.row j.lookUp).length
decreasing_by rw [hp]; exact Nat.lt_succ_self _

theorem exists_start {j : HashJoin}
    (grouped : ∀ t ∈ j.grouped.1.tuples, ∃ key, t.key j.grouped.2 = .ok key)
    (scanned : ∀ t ∈ j.scanned.1.tuples, ∃ key, t.key j.scanned.2 = .ok key) :
    ∃ table : HashTable, j.start =
        ⟨.ok (), { j with table, row := 0, lookUp := none, phase := .running }⟩ ∧
      (∀ key, table.rows key = HashTable.rowsWith j.grouped.2 key 0 j.grouped.1.tuples.toList) ∧
      Emits j.start.after ((matchesFrom table j.scanned.2 0 j.scanned.1.tuples.toList).map fun pair =>
        j.combine pair.1 pair.2) := by
  have keys : ∀ t ∈ j.grouped.1.tuples.toList, ∃ key, t.key j.grouped.2 = .ok key := by
    intro t ht
    exact grouped t (Array.mem_toList_iff.1 ht)
  obtain ⟨table, built⟩ := HashTable.exists_insertAll keys .empty 0
  have started : j.start =
      ⟨.ok (), { j with table, row := 0, lookUp := none, phase := .running }⟩ := by
    unfold start HashTable.build
    rw [built]
  refine ⟨table, started, ?_, ?_⟩
  · intro key
    rw [HashTable.rows_insertAll HashTable.keyed_empty built, HashTable.rows_empty]
    rfl
  · rw [started]
    exact emits_pending (j := { j with table, row := 0, lookUp := none, phase := .running }) rfl
      ⟨HashTable.keyed_insertAll HashTable.keyed_empty built, scanned⟩ fun l e => by cases e

section Runs

variable {j : HashJoin} (left : ∀ t ∈ j.r.tuples, ∃ key, t.key j.leftKeys = .ok key)
  (right : ∀ u ∈ j.s.tuples, ∃ key, u.key j.rightKeys = .ok key)
include left right

/-- A run from the start, whatever came before it, when the rows of the first relation are in the
table. -/
theorem exists_start_of_lt (smaller : j.r.size < j.s.size) :
    ∃ opened, j.start = ⟨.ok (), opened⟩ ∧
      Emits opened (j.s.tuples.toList.flatMap fun u => j.r.tuples.toList.filterMap fun t =>
        if u.meets j.rightKeys t j.leftKeys then some (liftTable (t.join u)) else none) := by
  have groups : j.groupsLeft = true := decide_eq_true smaller
  have grouped : j.grouped = (j.r, j.leftKeys) := by simp [HashJoin.grouped, groups]
  have scanned : j.scanned = (j.s, j.rightKeys) := by simp [HashJoin.scanned, groups]
  obtain ⟨table, started, rows, run⟩ := exists_start (j := j) (by rwa [grouped]) (by rwa [scanned])
  have combined : ∀ i k u t, j.s.tuples.toList[i]? = some u → j.r.tuples.toList[k]? = some t →
      j.combine (0 + i) k = liftTable (t.join u) := by
    intro i k u t hu ht
    simp [combine, groups, joinRows_eq ht hu]
  rw [grouped] at rows
  rw [scanned, map_matchesFrom rows combined, started] at run
  exact ⟨_, started, run⟩

/-- The same when the rows of the second relation are in the table. -/
theorem exists_start_of_le (larger : j.s.size ≤ j.r.size) :
    ∃ opened, j.start = ⟨.ok (), opened⟩ ∧
      Emits opened (j.r.tuples.toList.flatMap fun t => j.s.tuples.toList.filterMap fun u =>
        if t.meets j.leftKeys u j.rightKeys then some (liftTable (t.join u)) else none) := by
  have groups : j.groupsLeft = false := decide_eq_false (Nat.not_lt.2 larger)
  have grouped : j.grouped = (j.s, j.rightKeys) := by simp [HashJoin.grouped, groups]
  have scanned : j.scanned = (j.r, j.leftKeys) := by simp [HashJoin.scanned, groups]
  obtain ⟨table, started, rows, run⟩ := exists_start (j := j) (by rwa [grouped]) (by rwa [scanned])
  have combined : ∀ i k t u, j.r.tuples.toList[i]? = some t → j.s.tuples.toList[k]? = some u →
      j.combine (0 + i) k = liftTable (t.join u) := by
    intro i k t u ht hu
    simp [combine, groups, joinRows_eq ht hu]
  rw [grouped] at rows
  rw [scanned, map_matchesFrom rows combined, started] at run
  exact ⟨_, started, run⟩

end Runs

end HashJoin
end PullAlgebra
