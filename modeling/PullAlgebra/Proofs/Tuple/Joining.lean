import PullAlgebra.Proofs.Schema.SameColumns
import PullAlgebra.Proofs.Tuple.Names

/-!
# PullAlgebra.Proofs.Tuple.Joining

Joins of more than two schemas or tuples. Both kinds are lists of named items, and to join two of
them is to put one list after the other if the names stay distinct. In which order three of them are
joined then makes no difference: neither to the result nor to whether there is one.

* `JoinsByName`: what schemas and tuples have in common; `Schema.joinsByName`, `Tuple.joinsByName`.
* `JoinsByName.grouped_left_eq_ok_iff`, `JoinsByName.grouped_right_eq_ok_iff`: three of them.
* `JoinLaws`: grouping and order.
* `joins_grouped_and_swapped`: the laws hold of schemas and of tuples.
-/

namespace PullAlgebra

variable {α β : Type}

/-- An operation that puts two lists of items one after the other if all names are distinct, and has
no result otherwise. -/
structure JoinsByName (items : α → List β) (name : β → String)
    (join : α → α → Except TableError α) : Prop where
  ext : ∀ a b, items a = items b → a = b
  distinct : ∀ a, ((items a).map name).Nodup
  succeeds : ∀ a b, ((items a ++ items b).map name).Nodup → ∃ c, join a b = .ok c
  items_eq : ∀ a b c, join a b = .ok c → items c = items a ++ items b

namespace JoinsByName

variable {items : α → List β} {name : β → String} {join : α → α → Except TableError α}
  {a b c d : α}

theorem join_eq_ok_iff (h : JoinsByName items name join) :
    join a b = .ok c ↔ items c = items a ++ items b := by
  constructor
  · exact h.items_eq a b c
  · intro whole
    obtain ⟨c', joined⟩ := h.succeeds a b (whole ▸ h.distinct c)
    rw [joined, h.ext c' c ((h.items_eq a b c' joined).trans whole.symm)]

theorem exists_join_iff (h : JoinsByName items name join) :
    (∃ c, join a b = .ok c) ↔ ((items a ++ items b).map name).Nodup := by
  constructor
  · rintro ⟨c, joined⟩
    rw [← h.items_eq a b c joined]
    exact h.distinct c
  · exact h.succeeds a b

/-- Any part of a list with distinct names can be joined on the way to the whole. -/
theorem exists_part (h : JoinsByName items name join) {all : List β}
    (distinct : (all.map name).Nodup) (part : (items a ++ items b).Sublist all) :
    ∃ c, join a b = .ok c ∧ items c = items a ++ items b := by
  obtain ⟨c, joined⟩ := h.succeeds a b (distinct.sublist (part.map name))
  exact ⟨c, joined, h.items_eq a b c joined⟩

theorem grouped_left_eq_ok_iff (h : JoinsByName items name join) :
    (join a b >>= fun ab => join ab c) = .ok d ↔ items d = items a ++ items b ++ items c := by
  constructor
  · intro joined
    obtain ⟨ab, first, second⟩ := bind_eq_ok joined
    rw [h.items_eq ab c d second, h.items_eq a b ab first]
  · intro whole
    obtain ⟨ab, first, part⟩ := h.exists_part (h.distinct d) (whole ▸ List.sublist_append_left ..)
    rw [first]
    exact h.join_eq_ok_iff.2 (part ▸ whole)

theorem grouped_right_eq_ok_iff (h : JoinsByName items name join) :
    (join b c >>= fun bc => join a bc) = .ok d ↔ items d = items a ++ items b ++ items c := by
  rw [List.append_assoc]
  constructor
  · intro joined
    obtain ⟨bc, first, second⟩ := bind_eq_ok joined
    rw [h.items_eq a bc d second, h.items_eq b c bc first]
  · intro whole
    obtain ⟨bc, first, part⟩ := h.exists_part (h.distinct d) (whole ▸ List.sublist_append_right ..)
    rw [first]
    exact h.join_eq_ok_iff.2 (part ▸ whole)

theorem exists_grouped_left_iff (h : JoinsByName items name join) :
    (∃ d, (join a b >>= fun ab => join ab c) = .ok d) ↔
      ((items a ++ items b ++ items c).map name).Nodup := by
  constructor
  · rintro ⟨d, joined⟩
    rw [← h.grouped_left_eq_ok_iff.1 joined]
    exact h.distinct d
  · intro distinct
    obtain ⟨ab, first, part⟩ := h.exists_part distinct (List.sublist_append_left ..)
    obtain ⟨d, second⟩ := h.succeeds ab c (part ▸ distinct)
    exact ⟨d, by rw [first]; exact second⟩

/-- Joined in the other order, the items are the same ones. -/
theorem perm_of_swapped (h : JoinsByName items name join) (joined : join a b = .ok c)
    (swapped : join b a = .ok d) : (items c).Perm (items d) := by
  rw [h.items_eq a b c joined, h.items_eq b a d swapped]
  exact List.perm_append_comm

end JoinsByName

/-! ## Grouping and order -/

/-- Three are joined alike in both groupings, exactly if all their names are distinct, and two in both
orders or in neither. -/
structure JoinLaws (items : α → List β) (name : β → String)
    (join : α → α → Except TableError α) : Prop where
  grouping : ∀ a b c d,
    (join a b >>= fun ab => join ab c) = .ok d ↔ (join b c >>= fun bc => join a bc) = .ok d
  succeeds_iff : ∀ a b c, (∃ d, (join a b >>= fun ab => join ab c) = .ok d) ↔
    ((items a).map name ++ (items b).map name ++ (items c).map name).Nodup
  items_eq : ∀ a b c d, (join a b >>= fun ab => join ab c) = .ok d →
    items d = items a ++ items b ++ items c
  swapping : ∀ a b, (∃ c, join a b = .ok c) ↔ ∃ c, join b a = .ok c

theorem JoinsByName.laws {items : α → List β} {name : β → String}
    {join : α → α → Except TableError α} (h : JoinsByName items name join) :
    JoinLaws items name join := by
  constructor
  case grouping =>
    intro a b c d
    exact h.grouped_left_eq_ok_iff.trans h.grouped_right_eq_ok_iff.symm
  case succeeds_iff =>
    intro a b c
    rw [← List.map_append, ← List.map_append]
    exact h.exists_grouped_left_iff
  case items_eq =>
    intro a b c d joined
    exact h.grouped_left_eq_ok_iff.1 joined
  case swapping =>
    intro a b
    rw [h.exists_join_iff, h.exists_join_iff]
    exact (List.perm_append_comm.map name).nodup_iff

/-! ## Schemas and tuples -/

theorem Schema.joinsByName : JoinsByName Schema.columns Column.name Schema.join where
  ext _ _ := ext_columns
  distinct := Schema.distinct
  succeeds _ _ := exists_ofColumns
  items_eq _ _ _ := columns_of_join

theorem Tuple.joinsByName : JoinsByName Tuple.fields Field.name Tuple.join where
  ext _ _ := ext_fields
  distinct := Tuple.distinct
  succeeds t u distinct :=
    ⟨_, (t.join_eq_ofFields u).trans (ofFields_of_stored distinct (t.stored_append u))⟩
  items_eq _ _ _ := fields_of_join

/-- Joins of schemas and joins of tuples can be grouped at will. In the other order the joined schema
has the same columns up to order, and the joined tuple the same value under each name. To join tuples
is to build one from the fields of both, each checked and stored anew. -/
theorem joins_grouped_and_swapped :
    JoinLaws Schema.columns Column.name Schema.join ∧
      (∀ a b c d : Schema, a.join b = .ok c → b.join a = .ok d → c.sameColumns d = true) ∧
      JoinLaws Tuple.fields Field.name Tuple.join ∧
      (∀ t u v w : Tuple, t.join u = .ok v → u.join t = .ok w →
        ∀ name, v.get? name = w.get? name) ∧
      ∀ t u : Tuple, t.join u = Tuple.ofFields (t.fields ++ u.fields) := by
  refine ⟨Schema.joinsByName.laws, ?_, Tuple.joinsByName.laws, ?_, Tuple.join_eq_ofFields⟩
  · intro a b c d joined swapped
    exact Schema.sameColumns_iff_perm.2 (Schema.joinsByName.perm_of_swapped joined swapped)
  · intro t u v w joined swapped
    exact Tuple.get?_of_perm (Tuple.joinsByName.perm_of_swapped joined swapped)

end PullAlgebra
