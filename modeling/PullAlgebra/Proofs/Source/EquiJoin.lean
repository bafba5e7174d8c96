import Mathlib.Data.Multiset.Bind
import PullAlgebra.Proofs.Expression.Evaluation
import PullAlgebra.Proofs.Relation.OneColumn
import PullAlgebra.Proofs.Source.Buckets
import PullAlgebra.Proofs.Source.ThetaJoin
import PullAlgebra.Proofs.Value.Comparison

/-!
# PullAlgebra.Proofs.Source.EquiJoin

A hash join against the theta join whose predicate says that all key columns are equal. Both give
the pairs of rows that agree in their keys. The theta join lists them by rows of the first relation;
the hash join lists them by rows of the relation that it scans.

* `Expression.keysEqual`: the predicate.
* `Tuple.agrees`: what it says of two rows, by the names of the columns and without any hashing.
* `meets_eq_agrees`: two rows have the same hash key if they agree.
* `test_positionsEqual`: the bound predicate tests whether they agree.
* `hash_join_agrees_with_theta_join`: both joins end, with the same rows.
-/

namespace PullAlgebra

/-! ## The predicate -/

namespace Expression

/-- An expression and further ones, connected by `and`. -/
def conjoin (p : Expression) (ps : List Expression) : Expression :=
  ps.foldl (fun p q => .binary (.logical .and) p q) p

/-- The predicate that the two columns of every pair are equal. -/
def keysEqual : List (String × String) → Expression
  | [] => .literal (.boolean true)
  | key :: keys =>
    conjoin (columnsEqual key.1 key.2) (keys.map fun key => columnsEqual key.1 key.2)

/-- The predicate that the fields at two positions are equal. -/
def fieldsEqual (left right : Nat) : Expression :=
  .binary (.comparison .eq) (.bound left) (.bound right)

/-- What `keysEqual` is bound to, when the columns of the second relation begin at `offset`. -/
def positionsEqual (offset : Nat) : List (Nat × Nat) → Expression
  | [] => .literal (.boolean true)
  | pair :: pairs =>
    conjoin (fieldsEqual pair.1 (offset + pair.2))
      (pairs.map fun pair => fieldsEqual pair.1 (offset + pair.2))

theorem bind_conjoin {s : Schema} {p p' : Expression} {ps ps' : List Expression}
    (hp : p.bind s = .ok p') (hps : List.Forall₂ (fun q q' => q.bind s = .ok q') ps ps') :
    (conjoin p ps).bind s = .ok (conjoin p' ps') := by
  induction hps generalizing p p' with
  | nil => exact hp
  | cons hq _ ih =>
    refine ih ?_
    simp only [bind, hp, hq]
    rfl

theorem evaluate_conjoin {t : Tuple} {p : Expression} {b : Bool} {ps : List Expression}
    {bs : List Bool} (hp : p.evaluate t = .ok (.boolean b))
    (hps : List.Forall₂ (fun q c => q.evaluate t = .ok (.boolean c)) ps bs) :
    (conjoin p ps).evaluate t = .ok (.boolean (b && bs.all id)) := by
  induction hps generalizing p b with
  | nil =>
    rw [List.all_nil, Bool.and_true]
    exact hp
  | @cons q c ps bs hq _ ih =>
    have both : (binary (.logical .and) p q).evaluate t = .ok (.boolean (b && c)) :=
      evaluate_binary hp hq
    rw [List.all_cons, ← Bool.and_assoc]
    exact ih both

theorem evaluate_fieldsEqual {t : Tuple} {left right : Nat} {f g : Field} {o : Ordering}
    (hf : t.fields[left]? = some f) (hg : t.fields[right]? = some g)
    (ho : f.value.compare? g.value = some o) :
    (fieldsEqual left right).evaluate t = .ok (.boolean (o == .eq)) := by
  rw [fieldsEqual, evaluate_binary (evaluate_bound hf) (evaluate_bound hg)]
  simp only [BinaryOp.apply, ho]
  rfl

end Expression

/-! ## Keys of two rows -/

/-- Whether two rows have equal values in a pair of columns. -/
def Tuple.agreesOn (t u : Tuple) (key : String × String) : Bool :=
  match t.get? key.1, u.get? key.2 with
  | some v, some w => v.equal w
  | _, _ => false

def Tuple.agrees (t u : Tuple) (keys : List (String × String)) : Bool := keys.all (t.agreesOn u)

/-- A pair of positions is where a pair of key columns stands. -/
structure Paired (r s : Schema) (key : String × String) (pair : Nat × Nat) : Prop where
  left : r.indexOf? key.1 = some pair.1
  right : s.indexOf? key.2 = some pair.2
  types : ∃ c d, r.columns[pair.1]? = some c ∧ s.columns[pair.2]? = some d ∧ c.type = d.type

theorem paired_of_keyPair {r s : Schema} {left right : String} {pair : Nat × Nat}
    (h : HashJoin.keyPair r s left right = .ok pair) : Paired r s (left, right) pair := by
  unfold HashJoin.keyPair at h
  split at h
  · rename_i i c hi hc
    split at h
    · rename_i k d hk hd
      split at h
      · rename_i same
        cases h
        rw [Schema.column?, hi, Option.bind_some] at hc
        rw [Schema.column?, hk, Option.bind_some] at hd
        exact ⟨hi, hk, c, d, hc, hd, same⟩
      · cases h
    · cases h
  · cases h

theorem Paired.keyPair_eq {r s : Schema} {key : String × String} {pair : Nat × Nat}
    (h : Paired r s key pair) : HashJoin.keyPair r s key.1 key.2 = .ok pair := by
  obtain ⟨c, d, hc, hd, same⟩ := h.types
  have hc' : r.column? key.1 = some c := by rw [Schema.column?, h.left, Option.bind_some, hc]
  have hd' : s.column? key.2 = some d := by rw [Schema.column?, h.right, Option.bind_some, hd]
  simp only [HashJoin.keyPair, h.left, h.right, hc', hd', same, if_true]

theorem Tuple.exists_key {t : Tuple} {columns : List Nat}
    (h : ∀ i ∈ columns, i < t.fields.length) : ∃ key, t.key columns = .ok key := by
  induction columns with
  | nil => exact ⟨[], rfl⟩
  | cons i columns ih =>
    obtain ⟨key, hk⟩ := ih fun k hk => h k (List.mem_cons_of_mem _ hk)
    have bound := h i (List.mem_cons_self ..)
    refine ⟨.ofValue t.fields[i].value :: key, ?_⟩
    unfold Tuple.key at hk ⊢
    rw [List.mapM_cons, hk, List.getElem?_eq_getElem bound]
    rfl

theorem inRange_of_paired {r s : Schema} {keys : List (String × String)}
    {pairs : List (Nat × Nat)} (h : List.Forall₂ (Paired r s) keys pairs) :
    (∀ i ∈ pairs.map Prod.fst, i < r.size) ∧ ∀ k ∈ pairs.map Prod.snd, k < s.size := by
  induction h with
  | nil => simp
  | cons hk _ ih =>
    obtain ⟨c, d, hc, hd, -⟩ := hk.types
    simp only [List.map_cons, List.forall_mem_cons]
    exact ⟨⟨(List.getElem?_eq_some_iff.1 hc).1, ih.1⟩, (List.getElem?_eq_some_iff.1 hd).1, ih.2⟩

section Rows

variable {r s : Schema} {t u : Tuple} (ht : t.columns = r.columns) (hu : u.columns = s.columns)
include ht hu

theorem Paired.exists_fields {key : String × String} {pair : Nat × Nat} (h : Paired r s key pair) :
    ∃ f g, t.fields[pair.1]? = some f ∧ u.fields[pair.2]? = some g ∧
      t.get? key.1 = some f.value ∧ u.get? key.2 = some g.value ∧
      f.column.type.Stores f.value ∧ f.column.type.Stores g.value := by
  obtain ⟨c, d, hc, hd, same⟩ := h.types
  obtain ⟨f, hf, rfl⟩ := Tuple.exists_field ht hc
  obtain ⟨g, hg, rfl⟩ := Tuple.exists_field hu hd
  refine ⟨f, g, hf, hg, ?_, ?_, t.stored f (List.mem_of_getElem? hf), ?_⟩
  · rw [Tuple.get?_eq ht h.left, hf]
    rfl
  · rw [Tuple.get?_eq hu h.right, hg]
    rfl
  · rw [same]
    exact u.stored g (List.mem_of_getElem? hg)

/-- Both rows have keys, and these are the same if the rows agree. -/
theorem exists_keys {keys : List (String × String)} {pairs : List (Nat × Nat)}
    (h : List.Forall₂ (Paired r s) keys pairs) :
    ∃ a b, t.key (pairs.map Prod.fst) = .ok a ∧ u.key (pairs.map Prod.snd) = .ok b ∧
      (a = b ↔ t.agrees u keys) := by
  induction h with
  | nil => exact ⟨[], [], rfl, rfl, by simp [Tuple.agrees]⟩
  | @cons key pair keys pairs hk _ ih =>
    obtain ⟨f, g, hf, hg, ft, gu, fs, gs⟩ := hk.exists_fields ht hu
    obtain ⟨a, b, ha, hb, same⟩ := ih
    refine ⟨.ofValue f.value :: a, .ofValue g.value :: b, ?_, ?_, ?_⟩
    · unfold Tuple.key at ha ⊢
      rw [List.map_cons, List.mapM_cons, ha, hf]
      rfl
    · unfold Tuple.key at hb ⊢
      rw [List.map_cons, List.mapM_cons, hb, hg]
      rfl
    · rw [List.cons.injEq, same, KeyAtom.ofValue_eq_iff fs gs, ← Value.equal_iff fs gs]
      simp only [Tuple.agrees, Tuple.agreesOn, List.all_cons, ft, gu, Bool.and_eq_true]

theorem meets_eq_agrees {keys : List (String × String)} {pairs : List (Nat × Nat)}
    (h : List.Forall₂ (Paired r s) keys pairs) :
    t.meets (pairs.map Prod.fst) u (pairs.map Prod.snd) = t.agrees u keys ∧
      u.meets (pairs.map Prod.snd) t (pairs.map Prod.fst) = t.agrees u keys := by
  obtain ⟨a, b, ha, hb, same⟩ := exists_keys ht hu h
  simp only [Tuple.meets, ha, hb, Tuple.hasKey_of_key ha, Tuple.hasKey_of_key hb]
  constructor
  · rw [Bool.eq_iff_iff, ← same, beq_iff_eq, eq_comm]
  · rw [Bool.eq_iff_iff, ← same, beq_iff_eq]

/-- On the combination of two rows the test of a pair of key columns tells whether they agree. -/
theorem Paired.evaluate {key : String × String} {pair : Nat × Nat} (h : Paired r s key pair)
    {v : Tuple} (hv : v.fields = t.fields ++ u.fields) :
    (Expression.fieldsEqual pair.1 (r.size + pair.2)).evaluate v =
      .ok (.boolean (t.agreesOn u key)) := by
  obtain ⟨f, g, hf, hg, ft, gu, fs, gs⟩ := h.exists_fields ht hu
  obtain ⟨o, ho⟩ := Value.exists_compare? fs gs
  have hf' : v.fields[pair.1]? = some f := by
    rw [hv, List.getElem?_append_left (List.getElem?_eq_some_iff.1 hf).1]
    exact hf
  have hg' : v.fields[r.size + pair.2]? = some g := by
    rw [hv, ← Tuple.size_eq ht, List.getElem?_append_right (Nat.le_add_right _ _),
      Nat.add_sub_cancel_left]
    exact hg
  rw [Expression.evaluate_fieldsEqual hf' hg' ho]
  congr 2
  rw [Bool.eq_iff_iff, beq_iff_eq]
  simp only [Tuple.agreesOn, ft, gu]
  rw [Value.equal_iff fs gs, ho, Option.some.injEq]

theorem evaluate_positionsEqual {keys : List (String × String)} {pairs : List (Nat × Nat)}
    (h : List.Forall₂ (Paired r s) keys pairs) {v : Tuple} (hv : v.fields = t.fields ++ u.fields) :
    (Expression.positionsEqual r.size pairs).evaluate v = .ok (.boolean (t.agrees u keys)) := by
  cases h with
  | nil => rfl
  | @cons key pair keys pairs hk hks =>
    have rest : List.Forall₂ (fun q c => q.evaluate v = .ok (.boolean c))
        (pairs.map fun pair => Expression.fieldsEqual pair.1 (r.size + pair.2))
        (keys.map (t.agreesOn u)) := by
      rw [List.forall₂_map_left_iff, List.forall₂_map_right_iff]
      exact hks.flip.imp fun pair key hp => Paired.evaluate ht hu hp hv
    rw [Expression.positionsEqual, Expression.evaluate_conjoin (hk.evaluate ht hu hv) rest,
      List.all_map, Function.id_comp]
    rfl

theorem test_positionsEqual {keys : List (String × String)} {pairs : List (Nat × Nat)}
    (h : List.Forall₂ (Paired r s) keys pairs) {v : Tuple} (hv : v.fields = t.fields ++ u.fields) :
    (Expression.positionsEqual r.size pairs).test v = .ok (t.agrees u keys) := by
  unfold Expression.test
  rw [evaluate_positionsEqual ht hu h hv]

end Rows

theorem bind_columnsEqual {r s schema : Schema} (joined : r.join s = .ok schema)
    {key : String × String} {pair : Nat × Nat} (h : Paired r s key pair) :
    (Expression.columnsEqual key.1 key.2).bind schema =
      .ok (.fieldsEqual pair.1 (r.size + pair.2)) := by
  simp only [Expression.columnsEqual, Expression.bind, Schema.indexOf?_of_join_left joined h.left,
    Schema.indexOf?_of_join_right joined h.right]
  rfl

theorem bind_keysEqual {r s schema : Schema} (joined : r.join s = .ok schema)
    {keys : List (String × String)} {pairs : List (Nat × Nat)}
    (h : List.Forall₂ (Paired r s) keys pairs) :
    (Expression.keysEqual keys).bind schema = .ok (.positionsEqual r.size pairs) := by
  cases h with
  | nil => rfl
  | cons hk hks =>
    refine Expression.bind_conjoin (bind_columnsEqual joined hk) ?_
    rw [List.forall₂_map_left_iff, List.forall₂_map_right_iff]
    exact hks.imp fun key pair hp => bind_columnsEqual joined hp

/-! ## Both joins -/

/-- The rows of both relations that agree, combined, by rows of the first one. -/
def matchesByLeft (r s : Relation) (keys : List (String × String)) : List Tuple :=
  r.tuples.toList.flatMap fun t => s.tuples.toList.filterMap fun u =>
    if t.agrees u keys then (t.join u).toOption else none

/-- The rows of both relations that agree, combined, by rows of the second one. -/
def matchesByRight (r s : Relation) (keys : List (String × String)) : List Tuple :=
  s.tuples.toList.flatMap fun u => r.tuples.toList.filterMap fun t =>
    if t.agrees u keys then (t.join u).toOption else none

theorem map_matchesByLeft {β : Type} {r s : Relation} {keys : List (String × String)}
    {f : Tuple → β} {g : Tuple → Tuple → Option β}
    (h : ∀ t ∈ r.tuples, ∀ u ∈ s.tuples,
      g t u = (if t.agrees u keys then (t.join u).toOption else none).map f) :
    (r.tuples.toList.flatMap fun t => s.tuples.toList.filterMap (g t)) =
      (matchesByLeft r s keys).map f := by
  rw [matchesByLeft, List.map_flatMap]
  refine List.flatMap_congr ?_
  intro t ht
  rw [List.map_filterMap]
  refine List.filterMap_congr ?_
  intro u hu
  exact h t (Array.mem_toList_iff.1 ht) u (Array.mem_toList_iff.1 hu)

theorem map_matchesByRight {β : Type} {r s : Relation} {keys : List (String × String)}
    {f : Tuple → β} {g : Tuple → Tuple → Option β}
    (h : ∀ t ∈ r.tuples, ∀ u ∈ s.tuples,
      g t u = (if t.agrees u keys then (t.join u).toOption else none).map f) :
    (s.tuples.toList.flatMap fun u => r.tuples.toList.filterMap fun t => g t u) =
      (matchesByRight r s keys).map f := by
  rw [matchesByRight, List.map_flatMap]
  refine List.flatMap_congr ?_
  intro u hu
  rw [List.map_filterMap]
  refine List.filterMap_congr ?_
  intro t ht
  exact h t (Array.mem_toList_iff.1 ht) u (Array.mem_toList_iff.1 hu)

theorem matchesByLeft_perm_matchesByRight (r s : Relation) (keys : List (String × String)) :
    (matchesByLeft r s keys).Perm (matchesByRight r s keys) := by
  have swap := Multiset.bind_bind (r.tuples.toList : Multiset Tuple) (s.tuples.toList)
    (f := fun t u => ((if t.agrees u keys then (t.join u).toOption else none).toList : Multiset Tuple))
  rw [← Multiset.coe_eq_coe, matchesByLeft, matchesByRight]
  simp only [List.filterMap_eq_flatMap_toList, ← Multiset.coe_bind]
  exact swap

section Joined

variable {r s : Relation} {schema : Schema} (joined : r.schema.join s.schema = .ok schema)
  {keys : List (String × String)} {pairs : List (Nat × Nat)}
  (paired : List.Forall₂ (Paired r.schema s.schema) keys pairs)
include joined paired

theorem outcome_positionsEqual {t u : Tuple} (ht : t ∈ r.tuples) (hu : u ∈ s.tuples) :
    ThetaJoin.outcome (.positionsEqual r.schema.size pairs) (liftTable (t.join u)) =
      (if t.agrees u keys then (t.join u).toOption else none).map .ok := by
  obtain ⟨v, hv, fields⟩ := Tuple.exists_join joined (r.aligned t ht) (s.aligned u hu)
  have test := test_positionsEqual (r.aligned t ht) (s.aligned u hu) paired fields
  rw [hv]
  simp only [liftTable, Except.mapError, ThetaJoin.outcome, test]
  cases t.agrees u keys <;> rfl

theorem emits_theta {θ : ThetaJoin} (hr : θ.r = r) (hs : θ.s = s)
    (hp : θ.predicate = .positionsEqual r.schema.size pairs) :
    Emits (Iterator.start θ).after ((matchesByLeft r s keys).map .ok) := by
  have whole := ThetaJoin.emits_outcomesFrom (j := (Iterator.start θ).after) rfl
  change Emits _ (ThetaJoin.outcomesFrom θ.r θ.s θ.predicate .first) at whole
  rw [hr, hs, hp, ThetaJoin.outcomesFrom_first] at whole
  rwa [map_matchesByLeft fun t ht u hu => outcome_positionsEqual joined paired ht hu] at whole

omit paired in
theorem lift_join {t u : Tuple} (ht : t ∈ r.tuples) (hu : u ∈ s.tuples) :
    (if t.agrees u keys then some (liftTable (t.join u)) else none) =
      (if t.agrees u keys then (t.join u).toOption else none).map .ok := by
  obtain ⟨v, hv, -⟩ := Tuple.exists_join joined (r.aligned t ht) (s.aligned u hu)
  rw [hv]
  cases t.agrees u keys <;> rfl

theorem exists_start_hash {j : HashJoin} (hr : j.r = r) (hs : j.s = s)
    (hl : j.leftKeys = pairs.map Prod.fst) (hk : j.rightKeys = pairs.map Prod.snd) :
    ∃ opened, j.start = ⟨.ok (), opened⟩ ∧
      Emits opened ((if r.size < s.size then matchesByRight r s keys
        else matchesByLeft r s keys).map .ok) := by
  subst hr hs
  obtain ⟨left, right⟩ := inRange_of_paired paired
  have keysOfLeft : ∀ t ∈ j.r.tuples, ∃ key, t.key j.leftKeys = .ok key := by
    intro t ht
    refine t.exists_key ?_
    intro i hi
    rw [Tuple.size_eq (j.r.aligned t ht)]
    exact left i (hl ▸ hi)
  have keysOfRight : ∀ u ∈ j.s.tuples, ∃ key, u.key j.rightKeys = .ok key := by
    intro u hu
    refine u.exists_key ?_
    intro i hi
    rw [Tuple.size_eq (j.s.aligned u hu)]
    exact right i (hk ▸ hi)
  by_cases smaller : j.r.size < j.s.size
  · obtain ⟨opened, started, run⟩ := HashJoin.exists_start_of_lt keysOfLeft keysOfRight smaller
    refine ⟨opened, started, ?_⟩
    rw [if_pos smaller, ← map_matchesByRight fun t ht u hu => ?_]
    · exact run
    · rw [hl, hk, (meets_eq_agrees (j.r.aligned t ht) (j.s.aligned u hu) paired).2]
      exact lift_join joined ht hu
  · obtain ⟨opened, started, run⟩ :=
      HashJoin.exists_start_of_le keysOfLeft keysOfRight (Nat.not_lt.1 smaller)
    refine ⟨opened, started, ?_⟩
    rw [if_neg smaller, ← map_matchesByLeft fun t ht u hu => ?_]
    · exact run
    · rw [hl, hk, (meets_eq_agrees (j.r.aligned t ht) (j.s.aligned u hu) paired).1]
      exact lift_join joined ht hu

end Joined

theorem paired_of_ofRelations {r s : Relation} {keys : List (String × String)} {j : HashJoin}
    (h : HashJoin.ofRelations r s keys = .ok j) :
    j.r = r ∧ j.s = s ∧ r.schema.join s.schema = .ok j.schema ∧
      ∃ pairs, List.Forall₂ (Paired r.schema s.schema) keys pairs ∧
        j.leftKeys = pairs.map Prod.fst ∧ j.rightKeys = pairs.map Prod.snd := by
  obtain ⟨schema, joined, pairs, resolved, rfl⟩ := HashJoin.exists_of_ofRelations h
  have paired := (forall₂_of_mapM_eq_ok resolved).imp fun _ _ => paired_of_keyPair
  exact ⟨rfl, rfl, joined, pairs, paired, rfl, rfl⟩

theorem exists_hashJoin {r s : Relation} {schema : Schema} {keys : List (String × String)}
    {pairs : List (Nat × Nat)} (some : keys ≠ []) (joined : r.schema.join s.schema = .ok schema)
    (paired : List.Forall₂ (Paired r.schema s.schema) keys pairs) :
    ∃ j, HashJoin.ofRelations r s keys = .ok j := by
  have resolved := mapM_eq_ok_of_forall₂
    (f := fun (left, right) => HashJoin.keyPair r.schema s.schema left right)
    (paired.imp fun _ _ => Paired.keyPair_eq)
  exact ⟨_, HashJoin.ofRelations_of_keys some joined resolved⟩

theorem exists_thetaJoin {r s : Relation} {schema : Schema} {p q : Expression}
    (joined : r.schema.join s.schema = .ok schema) (hp : p.bind schema = .ok q) :
    ∃ θ, ThetaJoin.ofRelations r s p = .ok θ ∧ θ.r = r ∧ θ.s = s ∧ θ.predicate = q :=
  ⟨_, ThetaJoin.ofRelations_of_bind joined hp, rfl, rfl, rfl⟩

/-- A hash join and the theta join on the equality of its keys: both end, with the same rows, and
these are the combinations of the rows that agree. The theta join lists them by rows of the first
relation. So does the hash join, unless the first relation is the smaller one. -/
theorem hash_join_agrees_with_theta_join {r s : Relation} {keys : List (String × String)}
    {j : HashJoin} (h : HashJoin.ofRelations r s keys = .ok j) :
    ∃ θ rows rows',
      ThetaJoin.ofRelations r s (.keysEqual keys) = .ok θ ∧
      (∀ t ∈ r.tuples, ∀ u ∈ s.tuples, ∃ v, t.join u = .ok v ∧
        θ.predicate.test v = .ok (t.agrees u keys)) ∧
      (collect j).result = .ok rows ∧ (collect θ).result = .ok rows' ∧
      rows.toList.Perm rows'.toList ∧ rows'.toList = matchesByLeft r s keys ∧
      (s.size ≤ r.size → rows = rows') ∧
      (r.size < s.size → rows.toList = matchesByRight r s keys) := by
  obtain ⟨hr, hs, joined, pairs, paired, hl, hk⟩ := paired_of_ofRelations h
  obtain ⟨θ, hθ, hr', hs', hp⟩ := exists_thetaJoin joined (bind_keysEqual joined paired)
  obtain ⟨opened, started, run⟩ := exists_start_hash joined paired hr hs hl hk
  have rows := collect_of_emits started run
  have rows' := collect_of_emits (s := θ) rfl (emits_theta joined paired hr' hs' hp)
  refine ⟨θ, _, _, hθ, ?_, rows, rows', ?_, rfl, ?_, ?_⟩
  · intro t ht u hu
    obtain ⟨v, hv, fields⟩ := Tuple.exists_join joined (r.aligned t ht) (s.aligned u hu)
    refine ⟨v, hv, ?_⟩
    rw [hp]
    exact test_positionsEqual (r.aligned t ht) (s.aligned u hu) paired fields
  · split
    · exact (matchesByLeft_perm_matchesByRight r s keys).symm
    · exact .refl _
  · intro le
    rw [if_neg (Nat.not_lt.2 le)]
  · intro lt
    rw [if_pos lt]

/-- Two columns of doubles under a repeated key. The two zeros meet, and the rows come by those of
the second relation, which is the larger one. -/
theorem hash_join_of_signed_zeros :
    ∃ r s j θ rows rows',
      HashJoin.ofRelations r s [("a", "b"), ("a", "b")] = .ok j ∧
      ThetaJoin.ofRelations r s (.keysEqual [("a", "b"), ("a", "b")]) = .ok θ ∧
      (collect j).result = .ok rows ∧ (collect θ).result = .ok rows' ∧
      rows.toList.Perm rows'.toList ∧
      rows.toList.map Tuple.values =
        [[.float 1.5, .float 1.5], [.float (-0.0), .float 0.0], [.float 1.5, .float 1.5]] ∧
      rows'.toList.map Tuple.values =
        [[.float (-0.0), .float 0.0], [.float 1.5, .float 1.5], [.float 1.5, .float 1.5]] := by
  let r := Relation.ofColumn ⟨"a", .float⟩ [.float (-0.0), .float 1.5] (by decide)
  let s := Relation.ofColumn ⟨"b", .float⟩ [.float 1.5, .float 0.0, .float 1.5] (by decide)
  have key : Paired r.schema s.schema ("a", "b") (0, 0) :=
    ⟨Relation.indexOf?_ofColumn, Relation.indexOf?_ofColumn, ⟨"a", .float⟩, ⟨"b", .float⟩,
      by rw [Relation.columns_ofColumn]; rfl, by rw [Relation.columns_ofColumn]; rfl, rfl⟩
  obtain ⟨j, hj⟩ := exists_hashJoin (by decide) (Relation.join_ofColumn (by decide))
    (.cons key (.cons key .nil))
  obtain ⟨θ, rows, rows', hθ, -, hr, hr', perm, byLeft, -, byRight⟩ :=
    hash_join_agrees_with_theta_join hj
  refine ⟨r, s, j, θ, rows, rows', hj, hθ, hr, hr', perm, ?_, ?_⟩
  · rw [byRight (by decide)]
    rfl
  · rw [byLeft]
    rfl

end PullAlgebra
