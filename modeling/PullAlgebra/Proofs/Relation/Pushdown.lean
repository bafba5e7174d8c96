import PullAlgebra.Proofs.Expression.Binding
import PullAlgebra.Proofs.Pipeline.Joins
import PullAlgebra.Proofs.Pipeline.Runs
import PullAlgebra.Proofs.Relation.Product
import PullAlgebra.Proofs.Tuple.Composition

/-!
# PullAlgebra.Proofs.Relation.Pushdown

What can be done to the rows of a join before the rows are joined. A predicate over the columns of one
relation has the same value on a row and on every tuple that the row is part of, though its columns are
bound to other positions there; and columns that are chosen from a joined tuple are those chosen from
its two parts, whatever names they get. The nested loops over the rows that are left, or over the rows
as they were chosen, then make the same tuples in the same order.

* `filter_pairs`, `map_pairs`: the loops.
* `Expression.exists_bind_part`: a predicate on a row and on a joined tuple.
* `Tuple.project_append`, `Schema.project_append`: a choice from both parts of a join.
* `Relation.selected`, `Relation.projected`: the rows that satisfy a predicate, and a choice of
  columns, as a relation.
* `selections_and_projections_pushed_down`: theta joins and projections as cross joins of these.
-/

namespace PullAlgebra

/-! ## Nested loops -/

section Loops

variable {α β γ : Type}

/-- A condition on pairs that is one on each half can be checked before the pairs are made. -/
theorem filter_pairs {as : List α} {bs : List β} {f : α → β → γ} {P : γ → Bool} {Q : α → Bool}
    {Q' : β → Bool} (h : ∀ a ∈ as, ∀ b ∈ bs, P (f a b) = (Q a && Q' b)) :
    (as.flatMap fun a => bs.map (f a)).filter P =
      (as.filter Q).flatMap fun a => (bs.filter Q').map (f a) := by
  induction as with
  | nil => rfl
  | cons a as ih =>
    obtain ⟨first, rest⟩ := List.forall_mem_cons.1 h
    have inner : bs.filter (P ∘ f a) = bs.filter fun b => Q a && Q' b := List.filter_congr first
    rw [List.flatMap_cons, List.filter_append, ih rest, List.filter_map, inner, List.filter_cons]
    cases Q a with
    | false => simp
    | true => simp

/-- Elements of two lists can be replaced before the pairs are made if this replaces the pairs. -/
theorem map_pairs {R : α → α → Prop} {S : β → β → Prop} {as as' : List α} {bs bs' : List β}
    {f : α → β → γ} {g : γ → γ} (left : List.Forall₂ R as as') (right : List.Forall₂ S bs bs')
    (h : ∀ a a' b b', R a a' → S b b' → g (f a b) = f a' b') :
    (as.flatMap fun a => bs.map (f a)).map g = as'.flatMap fun a => bs'.map (f a) := by
  rw [← List.forall₂_eq_eq_eq, List.forall₂_map_left_iff]
  refine List.rel_flatMap left fun a a' first => ?_
  rw [List.forall₂_map_left_iff, List.forall₂_map_right_iff]
  exact right.imp fun b b' second => h a a' b b' first second

end Loops

/-! ## Selections -/

namespace Expression

variable {p b q : Expression} {s s' : Schema} {t u : Tuple}

/-- Bound to two schemas, an expression has the same value on rows that agree under its names. -/
theorem evaluate_of_same (named : p.Named) (ht : t.columns = s.columns)
    (hu : u.columns = s'.columns) (hb : p.bind s = .ok b) (hq : p.bind s' = .ok q)
    (same : ∀ name ∈ p.names, u.get? name = t.get? name) : q.evaluate u = b.evaluate t := by
  rw [evaluate_bind named hu hq t, evaluate_bind named ht hb t, fill_congr same]

/-- Where its value on one row is boolean, it accepts both rows or neither of them. -/
theorem test_of_same (named : p.Named) (ht : t.columns = s.columns) (hu : u.columns = s'.columns)
    (hb : p.bind s = .ok b) (hq : p.bind s' = .ok q)
    (same : ∀ name ∈ p.names, u.get? name = t.get? name)
    (decided : ∃ value, b.evaluate t = .ok (.boolean value)) :
    q.test u = .ok (ThetaJoin.accepts b t) := by
  obtain ⟨value, evaluated⟩ := decided
  have accepted : ThetaJoin.accepts b t = value := by rw [ThetaJoin.accepts, test, evaluated]
  rw [test, evaluate_of_same named ht hu hb hq same, evaluated, accepted]

/-- A predicate over the columns of one schema can be bound to it and to any schema with more columns,
and then tests a row alike with and without the others. -/
theorem exists_bind_part {part whole : Schema} (named : p.Named)
    (known : ∀ name ∈ p.names, name ∈ part.names) (sub : part.names ⊆ whole.names) :
    ∃ b q, p.bind part = .ok b ∧ p.bind whole = .ok q ∧
      ∀ t u : Tuple, t.columns = part.columns → u.columns = whole.columns →
        (∀ name ∈ t.schema.names, u.get? name = t.get? name) →
        (∃ value, b.evaluate t = .ok (.boolean value)) → q.test u = .ok (ThetaJoin.accepts b t) := by
  obtain ⟨b, bound⟩ := exists_bind known
  obtain ⟨q, boundWhole⟩ := exists_bind (s := whole) fun name hn => sub (known name hn)
  refine ⟨b, q, bound, boundWhole, fun t u ht hu same decided => ?_⟩
  refine test_of_same named ht hu bound boundWhole (fun name hn => same name ?_) decided
  rw [Schema.ext_columns (t.columns_schema.trans ht)]
  exact known name hn

end Expression

namespace Relation

/-- The relation of the rows of which a predicate is true. -/
def selected (r : Relation) (predicate : Expression) : Except TableError Relation :=
  ofTuples r.schema (r.tuples.toList.filter (ThetaJoin.accepts predicate))

theorem exists_selected (r : Relation) (predicate : Expression) :
    ∃ r', r.selected predicate = .ok r' ∧ r'.schema = r.schema ∧
      r'.tuples.toList = r.tuples.toList.filter (ThetaJoin.accepts predicate) := by
  have aligned : ∀ t ∈ r.tuples.toList.filter (ThetaJoin.accepts predicate),
      t.columns = r.schema.columns := by
    intro t ht
    exact r.aligned t (Array.mem_toList_iff.1 (List.mem_of_mem_filter ht))
  obtain ⟨r', taken, schema, tuples⟩ := exists_ofTuples aligned
  exact ⟨r', taken, schema, congrArg Array.toList tuples⟩

end Relation

variable {r r' s s' : Relation} {schema : Schema} {p q b : Expression}

theorem exists_joined_row (joined : r.schema.join s.schema = .ok schema) {t u : Tuple}
    (ht : t ∈ r.tuples.toList) (hu : u ∈ s.tuples.toList) : ∃ v, t.join u = .ok v := by
  obtain ⟨v, combined, -⟩ := Tuple.exists_join joined (r.aligned t (Array.mem_toList_iff.1 ht))
    (s.aligned u (Array.mem_toList_iff.1 hu))
  exact ⟨v, combined⟩

/-- A condition on joined rows that is one on the rows of each side picks the combinations of the rows
that satisfy it. -/
theorem filter_combinations {P Q Q' : Tuple → Bool} (joined : r.schema.join s.schema = .ok schema)
    (leftRows : r'.tuples.toList = r.tuples.toList.filter Q)
    (rightRows : s'.tuples.toList = s.tuples.toList.filter Q')
    (splits : ∀ t ∈ r.tuples, ∀ u ∈ s.tuples, ∀ v, t.join u = .ok v → P v = (Q t && Q' u))
    {rows chosen : List Tuple} (whole : combinations r s = rows.map .ok)
    (whole' : combinations r' s' = chosen.map .ok) : rows.filter P = chosen := by
  have same : (rows.filter P).map Except.ok = chosen.map .ok := calc
    _ = (combinations r s).filter fun row => row.toOption.any P := by
      rw [whole, List.filter_map]
      rfl
    _ = combinations r' s' := by
      rw [combinations, combinations, leftRows, rightRows]
      refine filter_pairs fun t ht u hu => ?_
      obtain ⟨v, combined⟩ := exists_joined_row joined ht hu
      rw [combined]
      exact splits t (Array.mem_toList_iff.1 ht) u (Array.mem_toList_iff.1 hu) v combined
    _ = chosen.map .ok := whole'
  exact List.map_injective_iff.2 (fun _ _ => Except.ok.inj) same

/-- Where the predicate comes to a condition on the rows of each side, the theta join is the cross join
of the rows that satisfy it. -/
theorem exists_collect_selected {Q Q' : Tuple → Bool}
    (joined : r.schema.join s.schema = .ok schema) (bound : p.bind schema = .ok q)
    (left : r'.schema = r.schema) (right : s'.schema = s.schema)
    (leftRows : r'.tuples.toList = r.tuples.toList.filter Q)
    (rightRows : s'.tuples.toList = s.tuples.toList.filter Q')
    (decided : ∀ t ∈ r.tuples, ∀ u ∈ s.tuples, ∀ v, t.join u = .ok v → q.test v = .ok (Q t && Q' u)) :
    ∃ j k rows, ThetaJoin.ofRelations r s p = .ok j ∧ CrossJoin.ofRelations r' s' = .ok k ∧
      (collect j).result = .ok rows ∧ (collect k).result = .ok rows ∧ j.schema = k.schema := by
  have joined' : r'.schema.join s'.schema = .ok schema := by rw [left, right, joined]
  obtain ⟨rows, whole⟩ := exists_combinations joined
  obtain ⟨chosen, whole'⟩ := exists_combinations joined'
  have accepted : rows.filter (ThetaJoin.accepts q) = chosen := by
    refine filter_combinations joined leftRows rightRows (fun t ht u hu v combined => ?_) whole whole'
    rw [ThetaJoin.accepts, decided t ht u hu v combined]
  have tests : ∀ row ∈ rows, ∃ b, q.test row = .ok b := by
    intro row hrow
    have made : Except.ok row ∈ combinations r s := whole ▸ List.mem_map_of_mem hrow
    obtain ⟨t, ht, made⟩ := List.mem_flatMap.1 made
    obtain ⟨u, hu, made⟩ := List.mem_map.1 made
    exact ⟨_, decided t (Array.mem_toList_iff.1 ht) u (Array.mem_toList_iff.1 hu) row made⟩
  have filtered := ThetaJoin.runs_outcomes joined q
  rw [outcomesFrom_of_combinations whole, ThetaJoin.outcomes_of_decided tests, accepted] at filtered
  have crossed := CrossJoin.runs_combinations joined'
  rw [whole', List.map_map] at crossed
  exact ⟨_, _, _, ThetaJoin.ofRelations_of_bind joined bound, CrossJoin.ofRelations_of_join joined',
    filtered.collect_eq, crossed.collect_eq, rfl⟩

/-! ## Projections -/

namespace Schema

theorem pick_of_subset {s t : Schema} (known : s.columns ⊆ t.columns) {output : OutputColumn}
    {c : Column} (h : s.pick output = .ok c) : t.pick output = .ok c := by
  unfold pick at h ⊢
  split at h
  · rename_i d found
    rw [column?_eq_find?] at found
    have named : d.name = output.column := by simpa using List.find?_some found
    rw [← named, column?_of_mem (known (List.mem_of_find?_eq_some found))]
    exact h
  · cases h

/-- Columns that are chosen from both parts of a join are chosen from each part and then joined. -/
theorem project_append {r s t r' s' : Schema} {left right : List OutputColumn}
    (joined : r.join s = .ok t) (hr : r.project left = .ok r') (hs : s.project right = .ok s') :
    t.project (left ++ right) = r'.join s' := by
  have columns := columns_of_join joined
  have picked : (left ++ right).mapM t.pick = .ok (r'.columns ++ s'.columns) := by
    refine mapM_eq_ok_of_forall₂ (List.rel_append
      ((picked_of_project hr).imp fun _ _ => pick_of_subset ?_)
      ((picked_of_project hs).imp fun _ _ => pick_of_subset ?_))
    · rw [columns]
      exact List.subset_append_left ..
    · rw [columns]
      exact List.subset_append_right ..
  rw [project, picked]
  rfl

end Schema

namespace Tuple

theorem pick_of_subset {t u : Tuple} (known : t.fields ⊆ u.fields) {output : OutputColumn}
    {f : Field} (h : t.pick output = .ok f) : u.pick output = .ok f := by
  obtain ⟨g, hg, named, rfl⟩ := pick_eq_ok h
  rw [pick, ← named, field?_of_mem (known hg)]

theorem project_append {t u v t' u' : Tuple} {left right : List OutputColumn}
    (joined : t.join u = .ok v) (ht : t.project left = .ok t') (hu : u.project right = .ok u') :
    v.project (left ++ right) = t'.join u' := by
  have fields := fields_of_join joined
  have picked : (left ++ right).mapM v.pick = .ok (t'.fields ++ u'.fields) := by
    refine mapM_eq_ok_of_forall₂ (List.rel_append
      ((fields_of_project ht).imp fun _ _ => pick_of_subset ?_)
      ((fields_of_project hu).imp fun _ _ => pick_of_subset ?_))
    · rw [fields]
      exact List.subset_append_left ..
    · rw [fields]
      exact List.subset_append_right ..
  rw [project, picked, join_eq_ofFields]
  rfl

end Tuple

namespace Relation

/-- The relation of all rows that a projection of a relation yields. -/
def projected (r : Relation) (outputs : List OutputColumn) : Except QueryError Relation := do
  let o ← liftTable ((Pipeline.source (Source.ofRelation r)).project outputs)
  let rows ← (collect o).result
  liftTable (ofTuples o.schema rows.toList)

theorem exists_projected {r : Relation} {outputs : List OutputColumn}
    (known : ∀ o ∈ outputs, o.column ∈ r.schema.names)
    (distinct : (outputs.map OutputColumn.name).Nodup) :
    ∃ r', r.projected outputs = .ok r' ∧ r.schema.project outputs = .ok r'.schema ∧
      List.Forall₂ (fun t t' => t.project outputs = .ok t') r.tuples.toList r'.tuples.toList := by
  obtain ⟨schema, chosen⟩ := Schema.exists_project known distinct
  have each : ∀ t ∈ r.tuples.toList, ∃ u, t.project outputs = .ok u ∧ u.columns = schema.columns := by
    intro t ht
    have columns := r.aligned t (Array.mem_toList_iff.1 ht)
    obtain ⟨u, projected, -⟩ := Tuple.exists_project_of_fits (Tuple.fits_iff_perm.2 (.of_eq columns))
      chosen
    exact ⟨u, projected, Tuple.columns_of_project columns projected chosen⟩
  obtain ⟨rows, picked⟩ := exists_forall₂ each
  have columns : ∀ u ∈ rows, u.columns = schema.columns := by
    intro u hu
    obtain ⟨t, -, -, same⟩ := exists_of_forall₂_left picked.flip hu
    exact same
  obtain ⟨r', taken, rfl, tuples⟩ := exists_ofTuples columns
  have scanned : Runs (Source.ofRelation r) (r.tuples.toList.map .ok) :=
    (Scan.runs_rows r).inside (fun _ => rfl) fun _ => rfl
  have run := Pipeline.runs_projection (p := ⟨_, outputs, r'.schema, .unopened⟩)
    (Pipeline.runs_source scanned)
  have results : (r.tuples.toList.map Except.ok).map (Projection.outcome outputs) = rows.map .ok := by
    rw [List.map_map]
    refine map_eq_map_iff_forall₂.2 (picked.imp fun t u projected => ?_)
    exact congrArg liftTable projected.1
  rw [results] at run
  refine ⟨r', ?_, chosen, ?_⟩
  · have placed : (Pipeline.source (Source.ofRelation r)).project outputs =
        .ok (.projection ⟨_, outputs, r'.schema, .unopened⟩) := congrArg (Except.map _) chosen
    rw [projected, placed]
    change ((collect _).result >>= fun rows => liftTable (ofTuples r'.schema rows.toList)) = _
    rw [run.collect_eq]
    exact congrArg liftTable taken
  · rw [tuples]
    exact picked.imp fun _ _ => And.left

end Relation

theorem map_project_combinations {left right : List OutputColumn}
    (joined : r.schema.join s.schema = .ok schema)
    (leftRows : List.Forall₂ (fun t t' => t.project left = .ok t') r.tuples.toList r'.tuples.toList)
    (rightRows : List.Forall₂ (fun u u' => u.project right = .ok u') s.tuples.toList
      s'.tuples.toList) :
    (combinations r s).map (fun x => x >>= fun t => t.project (left ++ right)) =
      combinations r' s' := by
  refine map_pairs ((List.forall₂_and_left ..).2 ⟨fun _ => id, leftRows⟩)
    ((List.forall₂_and_left ..).2 ⟨fun _ => id, rightRows⟩) ?_
  rintro t t' u u' ⟨ht, first⟩ ⟨hu, second⟩
  obtain ⟨v, combined⟩ := exists_joined_row joined ht hu
  rw [combined]
  exact Tuple.project_append combined first second

/-- A choice of columns from a cross join is the cross join of the choices from both relations. -/
theorem exists_collect_projected {left right : List OutputColumn}
    (joined : r.schema.join s.schema = .ok schema)
    (leftKnown : ∀ o ∈ left, o.column ∈ r.schema.names)
    (rightKnown : ∀ o ∈ right, o.column ∈ s.schema.names)
    (distinct : ((left ++ right).map OutputColumn.name).Nodup) :
    ∃ j o r' s' k rows, CrossJoin.ofRelations r s = .ok j ∧
      (Pipeline.source (Source.cross j)).project (left ++ right) = .ok o ∧
      r.projected left = .ok r' ∧ s.projected right = .ok s' ∧
      CrossJoin.ofRelations r' s' = .ok k ∧ (collect o).result = .ok rows ∧
      (collect k).result = .ok rows ∧ o.schema = k.schema := by
  have names := Schema.names_of_join joined
  obtain ⟨chosen, whole⟩ : ∃ chosen, schema.project (left ++ right) = .ok chosen := by
    refine Schema.exists_project (fun o ho => ?_) distinct
    rw [names, List.mem_append]
    exact (List.mem_append.1 ho).imp (leftKnown o) (rightKnown o)
  rw [List.map_append] at distinct
  obtain ⟨r', projected, leftSchema, leftRows⟩ := Relation.exists_projected leftKnown
    distinct.of_append_left
  obtain ⟨s', projected', rightSchema, rightRows⟩ := Relation.exists_projected rightKnown
    distinct.of_append_right
  have joined' : r'.schema.join s'.schema = .ok chosen :=
    (Schema.project_append joined leftSchema rightSchema).symm.trans whole
  obtain ⟨rows, combined⟩ := exists_combinations joined'
  have pairs := map_project_combinations joined leftRows rightRows
  have crossed := CrossJoin.runs_combinations joined'
  rw [combined, List.map_map] at crossed
  have run := Pipeline.runs_projection (p := ⟨_, left ++ right, chosen, .unopened⟩)
    (Pipeline.runs_source ((CrossJoin.runs_combinations joined).inside (f := Source.cross) (fun _ => rfl)
      fun _ => rfl))
  have results : ((combinations r s).map liftTable).map (Projection.outcome (left ++ right)) =
      rows.map .ok := by
    rw [Projection.map_outcome_lifted, pairs, combined, List.map_map]
    rfl
  rw [results] at run
  exact ⟨_, .projection ⟨_, left ++ right, chosen, .unopened⟩, r', s', _, rows.toArray,
    CrossJoin.ofRelations_of_join joined, congrArg (Except.map _) whole, projected, projected',
    CrossJoin.ofRelations_of_join joined', run.collect_eq, crossed.collect_eq, rfl⟩

/-- In a theta join of relations without a common name, a predicate over the columns of one of them
that has a boolean value on all of its rows can be checked before: the join is collected as the cross
join of the rows that satisfy it with all rows of the other relation. A projection of a cross join to
columns of either relation, in any order on each side and under any new names, is collected as the
cross join of the two relations that the projections of each side make. -/
theorem selections_and_projections_pushed_down (apart : r.schema.names.Disjoint s.schema.names) :
    (∀ p : Expression, p.Named → (∀ name ∈ p.names, name ∈ r.schema.names) →
      ∃ b, p.bind r.schema = .ok b ∧ ((∀ t ∈ r.tuples, ∃ v, b.evaluate t = .ok (.boolean v)) →
        ∃ r' j k rows, r.selected b = .ok r' ∧ ThetaJoin.ofRelations r s p = .ok j ∧
          CrossJoin.ofRelations r' s = .ok k ∧ (collect j).result = .ok rows ∧
          (collect k).result = .ok rows ∧ j.schema = k.schema)) ∧
    (∀ p : Expression, p.Named → (∀ name ∈ p.names, name ∈ s.schema.names) →
      ∃ b, p.bind s.schema = .ok b ∧ ((∀ u ∈ s.tuples, ∃ v, b.evaluate u = .ok (.boolean v)) →
        ∃ s' j k rows, s.selected b = .ok s' ∧ ThetaJoin.ofRelations r s p = .ok j ∧
          CrossJoin.ofRelations r s' = .ok k ∧ (collect j).result = .ok rows ∧
          (collect k).result = .ok rows ∧ j.schema = k.schema)) ∧
    ∀ left right : List OutputColumn, (∀ o ∈ left, o.column ∈ r.schema.names) →
      (∀ o ∈ right, o.column ∈ s.schema.names) → ((left ++ right).map OutputColumn.name).Nodup →
      ∃ j o r' s' k rows, CrossJoin.ofRelations r s = .ok j ∧
        (Pipeline.source (Source.cross j)).project (left ++ right) = .ok o ∧
        r.projected left = .ok r' ∧ s.projected right = .ok s' ∧
        CrossJoin.ofRelations r' s' = .ok k ∧ (collect o).result = .ok rows ∧
        (collect k).result = .ok rows ∧ o.schema = k.schema := by
  obtain ⟨schema, joined⟩ : ∃ schema, r.schema.join s.schema = .ok schema :=
    Schema.exists_join_of_apart fun c hc known => apart known (List.mem_map_of_mem hc)
  have names := Schema.names_of_join joined
  have columns {t u v : Tuple} (combined : t.join u = .ok v) (ht : t.columns = r.schema.columns)
      (hu : u.columns = s.schema.columns) : v.columns = schema.columns := by
    rw [Tuple.columns_of_join combined, ht, hu, Schema.columns_of_join joined]
  refine ⟨?left, ?right, fun left right => exists_collect_projected joined⟩
  case left =>
    intro p named known
    obtain ⟨b, q, bound, boundWhole, agree⟩ := Expression.exists_bind_part named known
      (names ▸ List.subset_append_left ..)
    refine ⟨b, bound, fun decided => ?_⟩
    have tests : ∀ t ∈ r.tuples, ∀ u ∈ s.tuples, ∀ v, t.join u = .ok v →
        q.test v = .ok (ThetaJoin.accepts b t && true) := by
      intro t ht u hu v combined
      rw [Bool.and_true]
      exact agree t v (r.aligned t ht) (columns combined (r.aligned t ht) (s.aligned u hu))
        (fun _ => Tuple.get?_of_join_left combined) (decided t ht)
    obtain ⟨r', chosen, same, rows⟩ := r.exists_selected b
    obtain ⟨j, k, items, built, built', collected⟩ := exists_collect_selected joined boundWhole same
      rfl rows (List.filter_true _).symm tests
    exact ⟨r', j, k, items, chosen, built, built', collected⟩
  case right =>
    intro p named known
    obtain ⟨b, q, bound, boundWhole, agree⟩ := Expression.exists_bind_part named known
      (names ▸ List.subset_append_right ..)
    refine ⟨b, bound, fun decided => ?_⟩
    have tests : ∀ t ∈ r.tuples, ∀ u ∈ s.tuples, ∀ v, t.join u = .ok v →
        q.test v = .ok (true && ThetaJoin.accepts b u) := by
      intro t ht u hu v combined
      rw [Bool.true_and]
      exact agree u v (s.aligned u hu) (columns combined (r.aligned t ht) (s.aligned u hu))
        (fun _ => Tuple.get?_of_join_right combined) (decided u hu)
    obtain ⟨s', chosen, same, rows⟩ := s.exists_selected b
    obtain ⟨j, k, items, built, built', collected⟩ := exists_collect_selected joined boundWhole rfl
      same (List.filter_true _).symm rows tests
    exact ⟨s', j, k, items, chosen, built, built', collected⟩

/-- A predicate over the second relation, whose column comes second in the join; and a projection by
which the columns exchange their names. -/
theorem later_rows_and_exchanged_names : ∃ (r s chosen left right : Relation) (p b : Expression)
    (j : ThetaJoin) (k pairs : CrossJoin) (o : Pipeline Source) (rows renamed : Array Tuple),
    p.names = ["m"] ∧ p.bind s.schema = .ok b ∧ s.selected b = .ok chosen ∧
      ThetaJoin.ofRelations r s p = .ok j ∧ CrossJoin.ofRelations r chosen = .ok k ∧
      (collect j).result = .ok rows ∧ (collect k).result = .ok rows ∧
      rows.toList.map Tuple.values =
        [[.integer 1, .integer 5], [.integer 1, .integer 7], [.integer 2, .integer 5],
          [.integer 2, .integer 7]] ∧
      r.projected [⟨"n", some "m"⟩] = .ok left ∧ s.projected [⟨"m", some "n"⟩] = .ok right ∧
      CrossJoin.ofRelations left right = .ok pairs ∧ (collect o).result = .ok renamed ∧
      (collect pairs).result = .ok renamed ∧ o.schema.names = ["m", "n"] ∧
      (renamed.toList.map Tuple.values)[2]? = some [.integer 1, .integer 7] := by
  let r := Relation.ofColumn ⟨"n", .integer⟩ [.integer 1, .integer 2] (by decide)
  let s := Relation.ofColumn ⟨"m", .integer⟩ [.integer 5, .integer 4, .integer 7] (by decide)
  let whole := Schema.ofDistinct [⟨"n", .integer⟩, ⟨"m", .integer⟩] (by decide)
  let predicate (m : Expression) : Expression :=
    .binary (.comparison .gt) m (.literal (.integer 4))
  have apart : r.schema.names.Disjoint s.schema.names := by simp [r, s, Schema.names]
  obtain ⟨-, selections, projections⟩ := selections_and_projections_pushed_down apart
  let joined : r.schema.join s.schema = .ok whole := Relation.join_ofColumn (by decide)
  have first : s.schema.indexOf? "m" = some 0 := Relation.indexOf?_ofColumn
  have second : whole.indexOf? "m" = some 1 := Schema.indexOf?_ofDistinct rfl
  have bound : (predicate (.column "m")).bind s.schema = .ok (predicate (.bound 0)) := by
    simp only [predicate, Expression.bind, first]
    rfl
  have boundWhole : (predicate (.column "m")).bind whole = .ok (predicate (.bound 1)) := by
    simp only [predicate, Expression.bind, second]
    rfl
  obtain ⟨b, bound', selects⟩ := selections (predicate (.column "m"))
    (by simp [predicate, Expression.Named]) (by simp [predicate, Expression.names, s, Schema.names])
  cases bound.symm.trans bound'
  have booleans : ∀ u ∈ s.tuples, (predicate (.bound 0)).evaluate u = .ok (.boolean true) ∨
      (predicate (.bound 0)).evaluate u = .ok (.boolean false) := by
    decide +kernel
  obtain ⟨chosen, j, k, rows, selected, built, built', collected, collected', -⟩ :=
    selects fun u hu => (booleans u hu).elim (fun h => ⟨true, h⟩) fun h => ⟨false, h⟩
  obtain ⟨_, o, left, right, pairs, renamed, crossed, placed, projected, projected', crossed', items,
    items', -⟩ := projections [⟨"n", some "m"⟩] [⟨"m", some "n"⟩] (by simp [r, Schema.names])
      (by simp [s, Schema.names]) (by decide)
  let exchanged := Schema.ofDistinct [⟨"m", .integer⟩, ⟨"n", .integer⟩] (by decide)
  have swapped : whole.project [⟨"n", some "m"⟩, ⟨"m", some "n"⟩] = .ok exchanged := by
    simp only [Schema.project, List.mapM_cons, List.mapM_nil, Schema.pick, Schema.column?_eq_find?,
      whole, Schema.columns_ofDistinct]
    exact Schema.ofColumns_of_distinct _
  let theta : ThetaJoin := ⟨r, s, whole, joined, predicate (.bound 1), .first, .unopened⟩
  let exchange : Pipeline Source := .projection
    ⟨.source (.cross ⟨r, s, whole, joined, .first, .unopened⟩),
      [⟨"n", some "m"⟩, ⟨"m", some "n"⟩], exchanged, .unopened⟩
  have isTheta : j = theta :=
    Except.ok.inj (built.symm.trans (ThetaJoin.ofRelations_of_bind joined boundWhole))
  cases crossed.symm.trans (CrossJoin.ofRelations_of_join joined)
  have isExchange : o = exchange :=
    Except.ok.inj (placed.symm.trans (congrArg (Except.map _) swapped))
  refine ⟨r, s, chosen, left, right, _, _, j, k, pairs, o, rows, renamed, rfl, bound, selected, built,
    built', collected, collected', ?_, projected, projected', crossed', items, items', ?_, ?_⟩
  case refine_1 =>
    have values : (collect theta).result.map (fun rows => rows.toList.map Tuple.values) = .ok
        [[.integer 1, .integer 5], [.integer 1, .integer 7], [.integer 2, .integer 5],
          [.integer 2, .integer 7]] := by
      decide +kernel
    rw [← isTheta, collected] at values
    exact Except.ok.inj values
  case refine_2 =>
    rw [isExchange]
    exact congrArg (List.map Column.name) (Schema.columns_ofDistinct (by decide))
  case refine_3 =>
    have values : (collect exchange).result.map (fun rows => (rows.toList.map Tuple.values)[2]?) =
        .ok (some [.integer 1, .integer 7]) := by
      decide +kernel
    rw [← isExchange, items] at values
    exact Except.ok.inj values

end PullAlgebra
