import PullAlgebra.Proofs.Source.EquiJoin
import PullAlgebra.Proofs.Tuple.Alignment
import PullAlgebra.Proofs.Tuple.Joining

/-!
# PullAlgebra.Proofs.Source.SwappedJoin

A hash join of two relations in the other order. The relation that goes into the table is chosen by
size, so it is the same one, unless both are of equal size. The rows of either relation meet the same
rows of the other one, and their combinations have the same fields, of which those of the other
relation now come first.

* `Paired.swapped`, `agrees_swapped`: the key columns the other way round.
* `alignTo_of_joined`: the combination of two rows, aligned to the combination in the other order.
* `aligned_matchesByLeft`, `aligned_matchesByRight`: the rows by one relation are those by the other.
* `exists_collect_hash`: what a hash join is collected as.
* `swapped_hash_join_aligned`: both joins end, with the same rows after alignment.
-/

namespace PullAlgebra

theorem Paired.swapped {r s : Schema} {key : String × String} {pair : Nat × Nat}
    (h : Paired r s key pair) : Paired s r key.swap pair.swap := by
  obtain ⟨c, d, hc, hd, same⟩ := h.types
  exact ⟨h.right, h.left, d, c, hd, hc, same.symm⟩

theorem paired_swapped {r s : Schema} {keys : List (String × String)} {pairs : List (Nat × Nat)}
    (h : List.Forall₂ (Paired r s) keys pairs) :
    List.Forall₂ (Paired s r) (keys.map Prod.swap) (pairs.map Prod.swap) := by
  rw [List.forall₂_map_left_iff, List.forall₂_map_right_iff]
  exact h.imp fun _ _ => Paired.swapped

theorem agrees_swapped {r s : Schema} {t u : Tuple} (ht : t.columns = r.columns)
    (hu : u.columns = s.columns) {keys : List (String × String)} {pairs : List (Nat × Nat)}
    (h : List.Forall₂ (Paired r s) keys pairs) :
    u.agrees t (keys.map Prod.swap) = t.agrees u keys := by
  have forward := (meets_eq_agrees ht hu h).2
  have backward := (meets_eq_agrees hu ht (paired_swapped h)).1
  rw [List.map_map, List.map_map] at backward
  exact backward.symm.trans forward

/-- The two combinations of the same rows differ in the order of the fields only. -/
theorem alignTo_of_joined {t u v w : Tuple} {s : Schema} (columns : v.columns = s.columns)
    (joined : t.join u = .ok v) (swapped : u.join t = .ok w) : w.alignTo s = .ok v :=
  Tuple.alignTo_eq_ok_iff.2 ⟨columns, Tuple.joinsByName.perm_of_swapped joined swapped⟩

section Relations

variable {r s : Relation} {schema other : Schema} {keys : List (String × String)}
  {pairs : List (Nat × Nat)} (joined : r.schema.join s.schema = .ok schema)
  (swapped : s.schema.join r.schema = .ok other)
  (paired : List.Forall₂ (Paired r.schema s.schema) keys pairs)
include joined swapped paired

theorem aligned_match {t u : Tuple} (ht : t ∈ r.tuples) (hu : u ∈ s.tuples) :
    (if u.agrees t (keys.map Prod.swap) then (u.join t).toOption else none).map
        (fun w => w.alignTo schema) =
      (if t.agrees u keys then (t.join u).toOption else none).map .ok := by
  obtain ⟨v, hv, -⟩ := Tuple.exists_join joined (r.aligned t ht) (s.aligned u hu)
  obtain ⟨w, hw, -⟩ := Tuple.exists_join swapped (s.aligned u hu) (r.aligned t ht)
  have columns : v.columns = schema.columns := by
    rw [Tuple.columns_of_join hv, r.aligned t ht, s.aligned u hu, Schema.columns_of_join joined]
  rw [agrees_swapped (r.aligned t ht) (s.aligned u hu) paired, hv, hw]
  cases t.agrees u keys with
  | false => rfl
  | true => exact congrArg some (alignTo_of_joined columns hv hw)

theorem aligned_matchesByLeft :
    ((matchesByLeft s r (keys.map Prod.swap)).mapM fun w => w.alignTo schema) =
      .ok (matchesByRight r s keys) := by
  refine mapM_eq_ok_of_forall₂ (map_eq_map_iff_forall₂.1 ?_)
  rw [← map_matchesByLeft fun u hu t ht => (aligned_match joined swapped paired ht hu).symm]
  exact map_matchesByRight fun t _ u _ => rfl

theorem aligned_matchesByRight :
    ((matchesByRight s r (keys.map Prod.swap)).mapM fun w => w.alignTo schema) =
      .ok (matchesByLeft r s keys) := by
  refine mapM_eq_ok_of_forall₂ (map_eq_map_iff_forall₂.1 ?_)
  rw [← map_matchesByRight fun u hu t ht => (aligned_match joined swapped paired ht hu).symm]
  exact map_matchesByLeft fun t _ u _ => rfl

end Relations

/-- A hash join is collected by rows of the relation that it looks up. -/
theorem exists_collect_hash {r s : Relation} {keys : List (String × String)} {j : HashJoin}
    (h : HashJoin.ofRelations r s keys = .ok j) :
    ∃ rows, (collect j).result = .ok rows ∧
      rows.toList = if r.size < s.size then matchesByRight r s keys else matchesByLeft r s keys := by
  obtain ⟨hr, hs, joined, pairs, paired, hl, hk⟩ := paired_of_ofRelations h
  obtain ⟨opened, started, run⟩ := exists_start_hash joined paired hr hs hl hk
  exact ⟨_, collect_of_emits started run, rfl⟩

/-- With the relations and the columns of every key pair in the other order a hash join is built as
well. Its rows, brought into the order of the columns of the first join, are the rows of that one up
to their order, and in the same order if the relations are of different size. If they are not, each
join lists the rows by those of its own first relation. -/
theorem swapped_hash_join_aligned {r s : Relation} {keys : List (String × String)} {j : HashJoin}
    (h : HashJoin.ofRelations r s keys = .ok j) :
    ∃ j' rows rows' aligned, HashJoin.ofRelations s r (keys.map Prod.swap) = .ok j' ∧
      (collect j).result = .ok rows ∧ (collect j').result = .ok rows' ∧
      j.schema.columns = r.schema.columns ++ s.schema.columns ∧
      (rows'.toList.mapM fun t => t.alignTo j.schema) = .ok aligned ∧
      aligned.Perm rows.toList ∧ (r.size ≠ s.size → aligned = rows.toList) ∧
      (r.size = s.size →
        rows.toList = matchesByLeft r s keys ∧ aligned = matchesByRight r s keys) := by
  obtain ⟨-, -, joined, pairs, paired, -, -⟩ := paired_of_ofRelations h
  obtain ⟨other, swapped⟩ := (Schema.joinsByName.laws.swapping _ _).1 ⟨_, joined⟩
  have keyed : keys.map Prod.swap ≠ [] := by simpa using HashJoin.ne_nil_of_ofRelations h
  obtain ⟨j', h'⟩ := exists_hashJoin keyed swapped (paired_swapped paired)
  obtain ⟨rows, collected, hr⟩ := exists_collect_hash h
  obtain ⟨rows', collected', hr'⟩ := exists_collect_hash h'
  have columns := Schema.columns_of_join joined
  have byLeft := aligned_matchesByLeft joined swapped paired
  have byRight := aligned_matchesByRight joined swapped paired
  rcases Nat.lt_trichotomy r.size s.size with smaller | same | larger
  · rw [if_pos smaller] at hr
    rw [if_neg (Nat.lt_asymm smaller)] at hr'
    rw [← hr, ← hr'] at byLeft
    exact ⟨j', rows, rows', _, h', collected, collected', columns, byLeft, .refl _, fun _ => rfl,
      fun same => absurd same smaller.ne⟩
  · rw [if_neg same.not_lt] at hr
    rw [if_neg same.not_gt] at hr'
    rw [← hr'] at byLeft
    refine ⟨j', rows, rows', _, h', collected, collected', columns, byLeft, ?_,
      fun differ => absurd same differ, fun _ => ⟨hr, rfl⟩⟩
    rw [hr]
    exact (matchesByLeft_perm_matchesByRight r s keys).symm
  · rw [if_neg (Nat.lt_asymm larger)] at hr
    rw [if_pos larger] at hr'
    rw [← hr, ← hr'] at byRight
    exact ⟨j', rows, rows', _, h', collected, collected', columns, byRight, .refl _, fun _ => rfl,
      fun same => absurd same larger.ne'⟩

/-- Two columns of equal length with the same doubles, in different order and with different signs of
zero. The aligned rows have the zeros in the order of the columns of the first join. -/
theorem reordered_zeros_joined_both_ways :
    ∃ r s j j' rows rows' aligned,
      HashJoin.ofRelations r s [("a", "b")] = .ok j ∧
      HashJoin.ofRelations s r [("b", "a")] = .ok j' ∧
      (collect j).result = .ok rows ∧ (collect j').result = .ok rows' ∧
      (rows'.toList.mapM fun t => t.alignTo j.schema) = .ok aligned ∧ aligned.Perm rows.toList ∧
      rows.toList.map Tuple.values =
        [[.float (-0.0), .float 0.0], [.float 1.5, .float 1.5]] ∧
      aligned.map Tuple.values =
        [[.float 1.5, .float 1.5], [.float (-0.0), .float 0.0]] := by
  let r := Relation.ofColumn ⟨"a", .float⟩ [.float (-0.0), .float 1.5] (by decide)
  let s := Relation.ofColumn ⟨"b", .float⟩ [.float 1.5, .float 0.0] (by decide)
  have key : Paired r.schema s.schema ("a", "b") (0, 0) :=
    ⟨Relation.indexOf?_ofColumn, Relation.indexOf?_ofColumn, ⟨"a", .float⟩, ⟨"b", .float⟩,
      by rw [Relation.columns_ofColumn]; rfl, by rw [Relation.columns_ofColumn]; rfl, rfl⟩
  obtain ⟨j, hj⟩ := exists_hashJoin (by decide) (Relation.join_ofColumn (by decide))
    (.cons key .nil)
  obtain ⟨j', rows, rows', aligned, hj', hr, hr', -, ha, perm, -, tied⟩ :=
    swapped_hash_join_aligned hj
  obtain ⟨byLeft, byRight⟩ := tied rfl
  refine ⟨r, s, j, j', rows, rows', aligned, hj, hj', hr, hr', ha, perm, ?_, ?_⟩
  · rw [byLeft]
    rfl
  · rw [byRight]
    rfl

end PullAlgebra
