import PullAlgebra.Proofs.Source.EquiJoin
import PullAlgebra.Proofs.Source.Phases

/-!
# PullAlgebra.Proofs.Source.Bounds

Where a source looks for rows, buckets and fields. The places are kept from call to call: a cursor
among the pairs of rows, a look-up in a bucket of an earlier run, the positions of the key columns.
Whatever is looked up there exists, so no call of a join fails for want of it.

* `HashTable.BelowAll`, `belowAll_insertAll`: the row numbers in a table.
* `Source.Sound`: what holds of all places that a source keeps.
* `sound_of_build`, `sound_start`, `sound_next`, `sound_close`: it holds of every join that is built,
  and every call preserves it.
* `inBounds_of_sound`: no place leads past what it points into.
* `error_of_next`: in a run only a predicate fails.
-/

namespace PullAlgebra

namespace HashTable

/-- The row numbers in all buckets are below a bound. -/
def BelowAll (table : HashTable) (n : Nat) : Prop :=
  ∀ (number : Nat) (bucket : Array Nat), table.buckets[number]? = some bucket → ∀ row ∈ bucket, row < n

variable {table : HashTable} {n : Nat}

theorem belowAll_empty (n : Nat) : empty.BelowAll n := by
  intro number bucket h
  simp [empty] at h

theorem belowAll_insert (h : table.BelowAll n) (key : List KeyAtom) {row : Nat} (below : row < n) :
    (table.insert key row).BelowAll n := by
  intro k bucket hk x hx
  cases hn : table.numbers[key]? with
  | some number =>
    rw [insert_of_some hn, Array.getElem?_modify] at hk
    split at hk
    · obtain ⟨old, ho, rfl⟩ := Option.map_eq_some_iff.1 hk
      rcases Array.mem_push.1 hx with hx | rfl
      · exact h _ old ho x hx
      · exact below
    · exact h _ bucket hk x hx
  | none =>
    rw [insert_of_none hn, Array.getElem?_push] at hk
    split at hk
    · cases hk
      rw [Array.mem_singleton] at hx
      exact hx ▸ below
    · exact h _ bucket hk x hx

theorem belowAll_insertAll {columns : List Nat} {row : Nat} {ts : List Tuple} {whole : HashTable}
    (h : table.BelowAll n) (below : row + ts.length ≤ n)
    (built : insertAll columns table row ts = .ok whole) : whole.BelowAll n := by
  induction ts generalizing table row with
  | nil => cases built; exact h
  | cons t rest ih =>
    rw [List.length_cons] at below
    unfold insertAll at built
    split at built
    · cases built
    · exact ih (belowAll_insert h _ (by omega)) (by omega) built

end HashTable

namespace ThetaJoin

variable {r s : Relation} {schema : Schema} {predicate : Expression} {cursor : PairCursor}

theorem inRow_seek (h : cursor.InRow s.size) : (seek r s predicate cursor).2.InRow s.size := by
  fun_induction seek r s predicate cursor with
  | case1 => exact h
  | case2 cursor a b after advanced => exact PairCursor.inRow_advance advanced
  | case3 cursor a b after advanced => exact PairCursor.inRow_advance advanced
  | case4 cursor a b after advanced => exact PairCursor.inRow_advance advanced
  | case5 cursor a b after advanced _ _ _ _ ih => exact ih (PairCursor.inRow_advance advanced)

/-- A search fails only where the predicate does. -/
theorem predicate_of_seek_error (joined : r.schema.join s.schema = .ok schema)
    (h : cursor.InRow s.size) {e : QueryError} (failed : (seek r s predicate cursor).1 = .error e) :
    ∃ t ∈ r.tuples, ∃ u ∈ s.tuples, ∃ v, t.join u = .ok v ∧ predicate.test v = .error e := by
  fun_induction seek r s predicate cursor with
  | case1 => cases failed
  | case2 cursor a b after advanced _ e' row =>
    obtain ⟨ha, hb⟩ := PairCursor.lt_of_advance h advanced
    obtain ⟨_, _, _, -, -, -, -, there⟩ := exists_joinRows joined ha hb
    rw [row] at there
    cases there
  | case3 cursor a b after advanced _ v row e' test =>
    cases failed
    obtain ⟨ha, hb⟩ := PairCursor.lt_of_advance h advanced
    obtain ⟨t, u, v', ht, hu, combined, -, there⟩ := exists_joinRows joined ha hb
    cases row.symm.trans there
    exact ⟨t, Array.mem_of_getElem? ht, u, Array.mem_of_getElem? hu, v, combined, test⟩
  | case4 => cases failed
  | case5 cursor a b after advanced _ _ _ _ ih =>
    exact ih (PairCursor.inRow_advance advanced) failed

end ThetaJoin

namespace HashJoin

/-- The look-up is that of a scanned row, in a bucket of the table. -/
def Located (j : HashJoin) (lookUp : Option LookUp) : Prop :=
  ∀ l, lookUp = some l → l.row < j.scanned.1.size ∧ l.bucket < j.table.buckets.size

/-- Every place that a hash join keeps points to something. -/
structure Sound (j : HashJoin) : Prop where
  leftKeys : ∀ t ∈ j.r.tuples, ∀ i ∈ j.leftKeys, i < t.fields.length
  rightKeys : ∀ u ∈ j.s.tuples, ∀ i ∈ j.rightKeys, i < u.fields.length
  keyed : j.table.Keyed
  groupedRows : j.table.BelowAll j.grouped.1.size
  located : j.Located j.lookUp

variable {j : HashJoin}

theorem Sound.grouped_keys (h : j.Sound) :
    ∀ t ∈ j.grouped.1.tuples, ∃ key, t.key j.grouped.2 = .ok key := by
  intro t ht
  unfold grouped at ht ⊢
  split at ht
  · rename_i left
    rw [if_pos left]
    exact t.exists_key (h.leftKeys t ht)
  · rename_i right
    rw [if_neg right]
    exact t.exists_key (h.rightKeys t ht)

theorem Sound.scanned_keys (h : j.Sound) :
    ∀ t ∈ j.scanned.1.tuples, ∃ key, t.key j.scanned.2 = .ok key := by
  intro t ht
  unfold scanned at ht ⊢
  split at ht
  · rename_i left
    rw [if_pos left]
    exact t.exists_key (h.rightKeys t ht)
  · rename_i right
    rw [if_neg right]
    exact t.exists_key (h.leftKeys t ht)

theorem exists_combine {a b : Nat} (ha : a < j.scanned.1.size) (hb : b < j.grouped.1.size) :
    ∃ t, j.combine a b = .ok t := by
  unfold scanned at ha
  unfold grouped at hb
  unfold combine
  split
  · rename_i left
    rw [if_pos left] at ha hb
    obtain ⟨_, _, v, -, -, -, -, row⟩ := exists_joinRows j.joined hb ha
    exact ⟨v, row⟩
  · rename_i right
    rw [if_neg right] at ha hb
    obtain ⟨_, _, v, -, -, -, -, row⟩ := exists_joinRows j.joined ha hb
    exact ⟨v, row⟩

/-- A search from a place that is there does not fail, and it ends at such a place. -/
theorem seek_of_located (h : j.Sound) (row : Nat) {lookUp : Option LookUp}
    (located : j.Located lookUp) :
    (∃ found, (j.seek row lookUp).1 = .ok found) ∧ j.Located (j.seek row lookUp).2.2 := by
  fun_induction seek j row lookUp with
  | case1 row l missing =>
    have beyond := Array.getElem?_eq_none_iff.1 missing
    exact absurd (located l rfl).2 (Nat.not_lt.2 beyond)
  | case2 row l bucket hb groupedRow hg =>
    have below := h.groupedRows _ bucket hb groupedRow (Array.mem_of_getElem? hg)
    obtain ⟨t, combined⟩ := exists_combine (located l rfl).1 below
    refine ⟨⟨some t, by rw [combined]; rfl⟩, ?_⟩
    rintro _ ⟨⟩
    exact located l rfl
  | case3 row l bucket hb hg ih =>
    refine ih ?_
    rintro _ ⟨⟩
  | case4 row ended =>
    refine ⟨⟨none, rfl⟩, ?_⟩
    rintro _ ⟨⟩
  | case5 row t ht below e failed =>
    obtain ⟨key, hk⟩ := h.scanned_keys t (Array.mem_of_getElem? ht)
    rw [failed] at hk
    cases hk
  | case6 row t ht below key hk ih =>
    refine ih ?_
    intro l hl
    obtain ⟨number, hn, rfl⟩ := Option.map_eq_some_iff.1 hl
    exact ⟨below, h.keyed.inBounds hn⟩

theorem produce_of_sound (h : j.Sound) :
    (∃ found, j.produce.result = .ok found) ∧ j.produce.after.Sound := by
  obtain ⟨⟨found, searched⟩, located⟩ := seek_of_located h j.row h.located
  unfold produce
  split
  · rename_i hs
    rw [hs] at located
    exact ⟨⟨none, rfl⟩, h.leftKeys, h.rightKeys, h.keyed, h.groupedRows, located⟩
  · rename_i hs
    rw [hs] at searched located
    exact ⟨⟨found, searched⟩, h.leftKeys, h.rightKeys, h.keyed, h.groupedRows, located⟩

theorem exists_build (h : j.Sound) :
    ∃ table, HashTable.build j.grouped.1 j.grouped.2 = .ok table ∧ table.Keyed ∧
      table.BelowAll j.grouped.1.size := by
  have keys : ∀ t ∈ j.grouped.1.tuples.toList, ∃ key, t.key j.grouped.2 = .ok key := by
    intro t ht
    exact h.grouped_keys t (Array.mem_toList_iff.1 ht)
  obtain ⟨table, built⟩ := HashTable.exists_insertAll keys .empty 0
  refine ⟨table, built, HashTable.keyed_insertAll HashTable.keyed_empty built, ?_⟩
  refine HashTable.belowAll_insertAll (HashTable.belowAll_empty _) ?_ built
  rw [Nat.zero_add, Array.length_toList]
  exact Nat.le_refl _

theorem start_of_sound (h : j.Sound) : ∃ opened, j.start = ⟨.ok (), opened⟩ ∧ opened.Sound := by
  obtain ⟨table, built, keyed, below⟩ := exists_build h
  exact ⟨_, start_of_ok built, h.leftKeys, h.rightKeys, keyed, below, nofun⟩

theorem sound_of_ofRelations {r s : Relation} {keys : List (String × String)}
    (h : ofRelations r s keys = .ok j) : j.Sound := by
  obtain ⟨schema, joined, pairs, resolved, rfl⟩ := exists_of_ofRelations h
  obtain ⟨left, right⟩ :=
    inRange_of_paired ((forall₂_of_mapM_eq_ok resolved).imp fun _ _ => paired_of_keyPair)
  refine ⟨?_, ?_, HashTable.keyed_empty, HashTable.belowAll_empty _, nofun⟩
  · intro t ht i hi
    rw [Tuple.size_eq (r.aligned t ht)]
    exact left i hi
  · intro u hu i hi
    rw [Tuple.size_eq (s.aligned u hu)]
    exact right i hi

end HashJoin

/-! ## The kinds of sources together -/

namespace Source

/-- Every place that the source keeps points to something. -/
def Sound : Source → Prop
  | .scan _ => True
  | .cross j => j.cursor.InRow j.s.size
  | .theta j => j.cursor.InRow j.s.size
  | .hash j => j.Sound

/-- Whatever a run looks up from here on is there: the rows of all pairs that are still to come, or
all that a hash join has the place of. -/
def InBounds : Source → Prop
  | .scan _ => True
  | .cross j => ∀ pair ∈ j.cursor.rest j.r.size j.s.size, pair.1 < j.r.size ∧ pair.2 < j.s.size
  | .theta j => ∀ pair ∈ j.cursor.rest j.r.size j.s.size, pair.1 < j.r.size ∧ pair.2 < j.s.size
  | .hash j => j.Sound

/-- The error is that of a predicate on the combination of two rows. -/
def PredicateFails : Source → QueryError → Prop
  | .theta j, e => ∃ t ∈ j.r.tuples, ∃ u ∈ j.s.tuples, ∃ v,
      t.join u = .ok v ∧ j.predicate.test v = .error e
  | _, _ => False

variable {o : Source}

theorem inBounds_of_sound (h : o.Sound) : o.InBounds := by
  cases o with
  | scan _ => trivial
  | cross j => exact fun _ => PairCursor.lt_of_mem_rest h
  | theta j => exact fun _ => PairCursor.lt_of_mem_rest h
  | hash j => exact h

theorem sound_of_build {join : Join} {r s : Relation} (h : join.build r s = .ok o) : o.Sound := by
  cases join with
  | cross =>
    obtain ⟨j, hj, rfl⟩ := map_eq_ok h
    obtain ⟨schema, joined, rfl⟩ := CrossJoin.exists_of_ofRelations (mapError_eq_ok hj)
    exact PairCursor.inRow_first
  | theta predicate =>
    obtain ⟨j, hj, rfl⟩ := map_eq_ok h
    obtain ⟨schema, joined, q, -, rfl⟩ := ThetaJoin.exists_of_ofRelations hj
    exact PairCursor.inRow_first
  | hash keys =>
    obtain ⟨j, hj, rfl⟩ := map_eq_ok h
    exact HashJoin.sound_of_ofRelations hj

theorem sound_start (h : o.Sound) :
    ∃ opened, o.start = ⟨.ok (), opened⟩ ∧ opened.Sound := by
  cases o with
  | scan _ => exact ⟨_, rfl, trivial⟩
  | cross j => exact ⟨_, rfl, PairCursor.inRow_first⟩
  | theta j => exact ⟨_, rfl, PairCursor.inRow_first⟩
  | hash j =>
    obtain ⟨opened, started, sound⟩ := HashJoin.start_of_sound h
    exact ⟨.hash opened, congrArg (Reply.inside hash) started, sound⟩

theorem sound_produce (h : o.Sound) : o.produce.after.Sound := by
  cases o with
  | scan _ => trivial
  | cross j =>
    change (j.produce.after).cursor.InRow j.produce.after.s.size
    unfold CrossJoin.produce
    split
    · exact h
    · rename_i advanced
      exact PairCursor.inRow_advance advanced
  | theta j =>
    have kept : (ThetaJoin.seek j.r j.s j.predicate j.cursor).2.InRow j.s.size :=
      ThetaJoin.inRow_seek h
    change (j.produce.after).cursor.InRow j.produce.after.s.size
    unfold ThetaJoin.produce
    split
    · rename_i found
      rwa [found] at kept
    · rename_i found
      rwa [found] at kept
  | hash j => exact (HashJoin.produce_of_sound h).2

theorem predicateFails_of_produce (h : o.Sound) {e : QueryError}
    (failed : o.produce.result = .error e) : o.PredicateFails e := by
  cases o with
  | scan s =>
    change s.produce.result = _ at failed
    unfold Scan.produce at failed
    split at failed <;> cases failed
  | cross j =>
    change j.produce.result = _ at failed
    unfold CrossJoin.produce at failed
    split at failed
    · cases failed
    · rename_i advanced
      obtain ⟨ha, hb⟩ := PairCursor.lt_of_advance h advanced
      obtain ⟨_, _, _, -, -, -, -, row⟩ := exists_joinRows j.joined ha hb
      rw [row] at failed
      cases failed
  | theta j =>
    change j.produce.result = _ at failed
    refine ThetaJoin.predicate_of_seek_error j.joined h ?_
    unfold ThetaJoin.produce at failed
    split at failed
    · cases failed
    · rename_i found
      rw [found]
      exact failed
  | hash j =>
    obtain ⟨⟨found, step⟩, -⟩ := HashJoin.produce_of_sound h
    cases step.symm.trans failed

theorem sound_next (h : o.Sound) : o.next.after.Sound := by
  cases phase : o.phase with
  | running =>
    rw [next_of_running phase]
    exact sound_produce h
  | exhausted =>
    rw [next_of_exhausted phase]
    exact h
  | unopened | closed =>
    rw [next_of_not_isOpen (by rw [phase]; rfl)]
    exact h

theorem sound_close (h : o.Sound) : o.close.Sound := by
  cases o with
  | scan _ => trivial
  | cross j => exact PairCursor.inRow_first
  | theta j => exact PairCursor.inRow_first
  | hash j =>
    exact ⟨h.leftKeys, h.rightKeys, HashTable.keyed_empty, HashTable.belowAll_empty _, nofun⟩

/-- A call of `next` that fails was made outside of a run, or else a predicate failed. -/
theorem error_of_next (h : o.Sound) {e : QueryError} (failed : o.next.result = .error e) :
    o.phase.isOpen = false ∧ e = .invalidState o.operator .next o.phase ∨
      o.phase.isOpen ∧ o.PredicateFails e := by
  cases phase : o.phase with
  | running =>
    rw [next_of_running phase] at failed
    exact .inr ⟨rfl, predicateFails_of_produce h failed⟩
  | exhausted =>
    rw [next_of_exhausted phase] at failed
    cases failed
  | unopened | closed =>
    rw [next_of_not_isOpen (by rw [phase]; rfl), phase] at failed
    cases failed
    exact .inl ⟨rfl, rfl⟩

end Source

end PullAlgebra
