import PullAlgebra.Proofs.Result
import PullAlgebra.Proofs.Schema.Position
import PullAlgebra.Source.RowPairs

/-!
# PullAlgebra.Proofs.Source.RowPairs

The nested loop as a list. A cursor with two counters goes through the same pairs as a single number
that is divided by the length of the inner list, and numbering the pairs of two lists is the same as
walking them in two nested loops.

* `PairCursor.rest`: the pairs from a cursor on.
* `PairCursor.advance_cases`: one step of a cursor, by the number of its pair.
* `PairCursor.rest_first`, `PairCursor.filterMap_rest_first`: all pairs, by their numbers and as two
  nested loops.
* `joinRows_eq`, `exists_joinRows`, `columns_of_joinRows`: the tuple of a pair of rows.
* `combinations`: the tuples of all pairs.
-/

namespace PullAlgebra

theorem filterMap_range {α β : Type} (as : List α) {f : α → Option β} {g : Nat → Option β}
    (h : ∀ i a, as[i]? = some a → g i = f a) :
    (List.range as.length).filterMap g = as.filterMap f := by
  induction as generalizing g with
  | nil => rfl
  | cons a as ih =>
    have rest := ih (g := g ∘ Nat.succ) fun i b hb => h (i + 1) b hb
    rw [List.length_cons, List.range_succ_eq_map, List.filterMap_cons, List.filterMap_map,
      h 0 a rfl, List.filterMap_cons, rest]

theorem filterMap_pairs {α β γ : Type} (as : List α) (bs : List β) {f : α → β → Option γ}
    {g : Nat → Option γ}
    (h : ∀ i k a b, as[i]? = some a → bs[k]? = some b → g (i * bs.length + k) = f a b) :
    (List.range (as.length * bs.length)).filterMap g =
      as.flatMap fun a => bs.filterMap (f a) := by
  induction as generalizing g with
  | nil => simp
  | cons a as ih =>
    have first : (List.range bs.length).filterMap g = bs.filterMap (f a) := by
      refine filterMap_range bs ?_
      intro k b hk
      have here := h 0 k a b rfl hk
      rwa [Nat.zero_mul, Nat.zero_add] at here
    have others := ih (g := fun n => g (bs.length + n)) (by
      intro i k a' b hi hk
      have there := h (i + 1) k a' b hi hk
      rwa [Nat.succ_mul, Nat.add_comm (i * _), Nat.add_assoc] at there)
    rw [List.length_cons, Nat.succ_mul, Nat.add_comm, List.range_add, List.filterMap_append,
      List.filterMap_map, List.flatMap_cons, first]
    exact congrArg _ others

namespace PairCursor

variable {outerRows innerRows : Nat} {c after : PairCursor} {pair : Nat × Nat}

/-- The pairs that are still to come. -/
def rest (outerRows innerRows : Nat) (c : PairCursor) : List (Nat × Nat) :=
  match h : c.advance outerRows innerRows with
  | none => []
  | some (pair, after) =>
    have := bound_advance h
    pair :: rest outerRows innerRows after
termination_by c.bound outerRows innerRows

theorem rest_of_none (h : c.advance outerRows innerRows = none) :
    c.rest outerRows innerRows = [] := by
  unfold rest
  split
  · rfl
  · rename_i advanced
    rw [h] at advanced
    cases advanced

theorem rest_of_some (h : c.advance outerRows innerRows = some (pair, after)) :
    c.rest outerRows innerRows = pair :: after.rest outerRows innerRows := by
  conv => lhs; unfold rest
  split
  · rename_i advanced
    rw [h] at advanced
    cases advanced
  · rename_i advanced
    rw [h] at advanced
    cases advanced
    rfl

/-- The cursor stands before an inner row, if there are any. -/
def InRow (innerRows : Nat) (c : PairCursor) : Prop := 0 < innerRows → c.inner < innerRows

theorem inRow_first : first.InRow innerRows := id

theorem inRow_behind (positive : 0 < innerRows) (c : PairCursor) :
    (c.behind innerRows).inner < innerRows := by
  unfold behind
  split
  · exact positive
  · dsimp only
    omega

/-- The number of the pair at the cursor among all pairs in their order. -/
def number (innerRows : Nat) (c : PairCursor) : Nat := c.outer * innerRows + c.inner

theorem number_behind (inside : c.inner < innerRows) :
    (c.behind innerRows).number innerRows = c.number innerRows + 1 := by
  unfold number behind
  split
  · dsimp only
    rw [Nat.succ_mul]
    omega
  · rfl

theorem pair_eq_of_number (inside : c.inner < innerRows) :
    (c.number innerRows / innerRows, c.number innerRows % innerRows) = (c.outer, c.inner) := by
  rw [number, Nat.mul_comm, Nat.mul_add_div (by omega), Nat.div_eq_of_lt inside, Nat.mul_add_mod,
    Nat.mod_eq_of_lt inside, Nat.add_zero]

theorem number_lt (inside : c.inner < innerRows) (more : c.outer < outerRows) :
    c.number innerRows < outerRows * innerRows := by
  have below : (c.outer + 1) * innerRows ≤ outerRows * innerRows :=
    Nat.mul_le_mul_right innerRows more
  rw [Nat.succ_mul] at below
  rw [number]
  omega

/-- A cursor stops behind the last number, and otherwise gives the pair with its number and goes on
to the next one. -/
theorem advance_cases (h : c.InRow innerRows) :
    c.advance outerRows innerRows = none ∧ outerRows * innerRows ≤ c.number innerRows ∨
      ∃ after, c.advance outerRows innerRows =
          some ((c.number innerRows / innerRows, c.number innerRows % innerRows), after) ∧
        c.number innerRows < outerRows * innerRows ∧
        after.number innerRows = c.number innerRows + 1 ∧ after.InRow innerRows := by
  by_cases ended : outerRows ≤ c.outer ∨ innerRows = 0
  · refine .inl ⟨if_pos ended, ?_⟩
    rcases ended with beyond | rfl
    · exact Nat.le_add_right_of_le (Nat.mul_le_mul_right innerRows beyond)
    · exact Nat.zero_le _
  · have inside : c.inner < innerRows := h (by omega)
    refine .inr ⟨c.behind innerRows, ?_, number_lt inside (by omega), number_behind inside,
      fun positive => inRow_behind positive c⟩
    rw [pair_eq_of_number inside]
    exact if_neg ended

theorem inRow_advance (h : c.advance outerRows innerRows = some (pair, after)) :
    after.InRow innerRows := by
  unfold advance at h
  split at h
  · cases h
  · cases h
    exact fun positive => inRow_behind positive c

theorem rest_eq {c : PairCursor} (h : c.InRow innerRows) :
    c.rest outerRows innerRows =
      (List.range' (c.number innerRows) (outerRows * innerRows - c.number innerRows)).map
        fun n => (n / innerRows, n % innerRows) := by
  rcases c.advance_cases h with ⟨ended, beyond⟩ | ⟨after, advanced, below, number, inRow⟩
  · rw [rest_of_none ended, Nat.sub_eq_zero_of_le beyond]
    rfl
  · have split : outerRows * innerRows - c.number innerRows =
        outerRows * innerRows - after.number innerRows + 1 := by omega
    have := bound_advance advanced
    rw [rest_of_some advanced, rest_eq inRow, split, List.range'_succ,
      List.map_cons, number]
termination_by c.bound outerRows innerRows

theorem rest_first (outerRows innerRows : Nat) :
    first.rest outerRows innerRows =
      (List.range (outerRows * innerRows)).map fun n => (n / innerRows, n % innerRows) := by
  rw [rest_eq inRow_first, List.range_eq_range', number]
  simp [first]

theorem lt_of_number {n : Nat} (below : n < outerRows * innerRows) :
    n / innerRows < outerRows ∧ n % innerRows < innerRows := by
  have positive : 0 < innerRows := Nat.pos_of_lt_mul_left below
  exact ⟨Nat.div_lt_of_lt_mul (by rwa [Nat.mul_comm]), Nat.mod_lt n positive⟩

theorem lt_of_mem_rest (h : c.InRow innerRows) (hp : pair ∈ c.rest outerRows innerRows) :
    pair.1 < outerRows ∧ pair.2 < innerRows := by
  rw [rest_eq h, List.mem_map] at hp
  obtain ⟨n, hn, rfl⟩ := hp
  rw [List.mem_range'_1] at hn
  exact lt_of_number (by omega)

theorem lt_of_advance (h : c.InRow innerRows)
    (advanced : c.advance outerRows innerRows = some (pair, after)) :
    pair.1 < outerRows ∧ pair.2 < innerRows :=
  lt_of_mem_rest h (by rw [rest_of_some advanced]; exact List.mem_cons_self ..)

/-- All pairs, in two nested loops over the lists whose places they number. -/
theorem filterMap_rest_first {α β γ : Type} (as : List α) (bs : List β) {f : α → β → Option γ}
    {g : Nat × Nat → Option γ}
    (h : ∀ i k a b, as[i]? = some a → bs[k]? = some b → g (i, k) = f a b) :
    (first.rest as.length bs.length).filterMap g = as.flatMap fun a => bs.filterMap (f a) := by
  rw [rest_first, List.filterMap_map]
  refine filterMap_pairs as bs ?_
  intro i k a b ha hb
  have inside := (List.getElem?_eq_some_iff.1 hb).1
  rw [Function.comp_apply, Nat.mul_comm i, Nat.mul_add_div (by omega), Nat.div_eq_of_lt inside,
    Nat.mul_add_mod, Nat.mod_eq_of_lt inside]
  exact h i k a b ha hb

end PairCursor

theorem joinRows_eq {r s : Relation} {i k : Nat} {t u : Tuple} (ht : r.tuples.toList[i]? = some t)
    (hu : s.tuples.toList[k]? = some u) : joinRows r s i k = liftTable (t.join u) := by
  rw [Array.getElem?_toList] at ht hu
  simp [joinRows, Relation.get?, ht, hu]

/-- Rows that are there have a combined tuple. -/
theorem exists_joinRows {r s : Relation} {schema : Schema}
    (joined : r.schema.join s.schema = .ok schema) {i k : Nat} (hi : i < r.size) (hk : k < s.size) :
    ∃ t u v, r.get? i = some t ∧ s.get? k = some u ∧ t.join u = .ok v ∧
      v.fields = t.fields ++ u.fields ∧ joinRows r s i k = .ok v := by
  have ht : r.get? i = some r.tuples[i] := Array.getElem?_eq_getElem hi
  have hu : s.get? k = some s.tuples[k] := Array.getElem?_eq_getElem hk
  obtain ⟨v, hv, fields⟩ := Tuple.exists_join joined (r.aligned _ (Array.getElem_mem hi))
    (s.aligned _ (Array.getElem_mem hk))
  refine ⟨_, _, v, ht, hu, hv, fields, ?_⟩
  simp only [joinRows, ht, hu, hv]
  rfl

/-- The combinations of all rows of two relations, by rows of the first one. -/
def combinations (r s : Relation) : List (Except TableError Tuple) :=
  r.tuples.toList.flatMap fun t => s.tuples.toList.map fun u => t.join u

theorem exists_combinations {r s : Relation} {schema : Schema}
    (joined : r.schema.join s.schema = .ok schema) :
    ∃ rows : List Tuple, combinations r s = rows.map .ok := by
  refine exists_map_ok ?_
  intro row hrow
  obtain ⟨t, ht, hrow⟩ := List.mem_flatMap.1 hrow
  obtain ⟨u, hu, rfl⟩ := List.mem_map.1 hrow
  obtain ⟨v, combined, -⟩ := Tuple.exists_join joined (r.aligned t (Array.mem_toList_iff.1 ht))
    (s.aligned u (Array.mem_toList_iff.1 hu))
  exact ⟨v, combined⟩

theorem columns_of_joinRows {r s : Relation} {schema : Schema}
    (joined : r.schema.join s.schema = .ok schema) {i k : Nat} {t : Tuple}
    (h : joinRows r s i k = .ok t) : t.columns = schema.columns := by
  unfold joinRows at h
  split at h
  · cases h
  · rename_i u hu
    split at h
    · cases h
    · rename_i v hv
      rw [Tuple.columns_of_join (mapError_eq_ok h), r.aligned u (Array.mem_of_getElem? hu),
        s.aligned v (Array.mem_of_getElem? hv), Schema.columns_of_join joined]

end PullAlgebra
