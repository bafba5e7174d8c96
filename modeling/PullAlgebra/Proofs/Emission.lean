import PullAlgebra.Iterator

/-!
# PullAlgebra.Proofs.Emission

What the rest of a run gives: the items and the errors that `next` answers with, in their order, up
to the first time that there is nothing. A run that gives items only is collected as these items,
and any other run as its first error.

* `Emits.inside`: a container that passes `next` on emits what is inside.
* `nthAnswer_of_emits`: each call of `next` by its number, also of those after the end.
* `collect_of_emits`, `collect_of_emits_error`: whole runs.
* `exists_items_of_collect`: a whole run of which nothing is known.
-/

namespace PullAlgebra

open Iterator

variable {σ α : Type}

/-- From the state on, the calls of `next` answer with the list and then with nothing. -/
inductive Emits [Iterator σ α] : σ → List (Except QueryError α) → Prop where
  | done {s after : σ} : next s = ⟨.ok none, after⟩ → Emits s []
  | item {s after : σ} {a : α} {rest : List (Except QueryError α)} :
      next s = ⟨.ok (some a), after⟩ → Emits after rest → Emits s (.ok a :: rest)
  | fail {s after : σ} {e : QueryError} {rest : List (Except QueryError α)} :
      next s = ⟨.error e, after⟩ → Emits after rest → Emits s (.error e :: rest)

theorem Emits.inside {τ : Type} [Iterator σ α] [Iterator τ α] {f : σ → τ} {s : σ}
    {outcomes : List (Except QueryError α)} (passes : ∀ s, next (f s) = (next s).inside f)
    (h : Emits s outcomes) : Emits (f s) outcomes := by
  induction h with
  | done hn => exact .done ((passes _).trans (congrArg (Reply.inside f) hn))
  | item hn _ ih => exact .item ((passes _).trans (congrArg (Reply.inside f) hn)) ih
  | fail hn _ ih => exact .fail ((passes _).trans (congrArg (Reply.inside f) hn)) ih

/-! ## Calls by their number -/

/-- The answer to the call of `next` with a number, counted from zero. -/
def nthAnswer [Iterator σ α] (s : σ) : Nat → Except QueryError (Option α)
  | 0 => (next s).result
  | n + 1 => nthAnswer (next s).after n

theorem nthAnswer_inside {τ : Type} [Iterator σ α] [Iterator τ α] {f : σ → τ}
    (passes : ∀ s, next (f s) = (next s).inside f) (s : σ) (n : Nat) :
    nthAnswer (f s) n = nthAnswer s n := by
  induction n generalizing s with
  | zero =>
    rw [nthAnswer, passes]
    rfl
  | succ n ih =>
    rw [nthAnswer, passes]
    exact ih (next s).after

/-- The answer that gives an outcome of a run, or nothing when the run has no further one. -/
def answerOf : Option (Except QueryError α) → Except QueryError (Option α)
  | none => .ok none
  | some (.ok a) => .ok (some a)
  | some (.error e) => .error e

section Numbered

variable [Iterator σ α]
  (settled : ∀ s : σ, (next s).result = .ok none → next (next s).after = ⟨.ok none, (next s).after⟩)
include settled

theorem nthAnswer_of_ended {s : σ} (h : (next s).result = .ok none) (n : Nat) :
    nthAnswer s n = .ok none := by
  induction n generalizing s with
  | zero => exact h
  | succ n ih => exact ih (by rw [settled s h])

/-- An iterator that has nothing more after it had nothing once: its answers are the outcomes of the
run, and nothing from then on. -/
theorem nthAnswer_of_emits {s : σ} {outcomes : List (Except QueryError α)} (h : Emits s outcomes)
    (n : Nat) : nthAnswer s n = answerOf outcomes[n]? := by
  induction h generalizing n with
  | done hn => exact nthAnswer_of_ended settled (by rw [hn]) n
  | item hn _ ih =>
    cases n with
    | zero => simp only [nthAnswer, hn]; rfl
    | succ n => simp only [nthAnswer, hn, List.getElem?_cons_succ, ih]
  | fail hn _ ih =>
    cases n with
    | zero => simp only [nthAnswer, hn]; rfl
    | succ n => simp only [nthAnswer, hn, List.getElem?_cons_succ, ih]

end Numbered

variable [FiniteIterator σ α]

section Fold

variable {β : Type} (f : β → α → β) (total : β)

theorem foldNext_eq (s : σ) :
    foldNext f total s = match next s with
      | ⟨.ok (some a), after⟩ => foldNext f (f total a) after
      | ⟨.ok none, after⟩ => ⟨total, none, after⟩
      | ⟨.error e, after⟩ => ⟨total, some e, after⟩ := by
  conv => lhs; unfold foldNext
  split
  · rename_i h; simp only [h]
  · rename_i h; simp only [h]
  · rename_i h; simp only [h]

/-- A fold goes through the items before anything else and then on from where it stands. -/
theorem foldNext_of_emits_append {s : σ} {items : List α} {more : List (Except QueryError α)}
    (h : Emits s (items.map .ok ++ more)) :
    ∃ later, Emits later more ∧ foldNext f total s = foldNext f (items.foldl f total) later := by
  induction items generalizing s total with
  | nil => exact ⟨s, h, rfl⟩
  | cons a items ih =>
    cases h with
    | item hn hr =>
      obtain ⟨later, further, same⟩ := ih (f total a) hr
      exact ⟨later, further, by rw [foldNext_eq, hn]; exact same⟩

theorem foldNext_of_emits {s : σ} {items : List α} (h : Emits s (items.map .ok)) :
    ∃ after, foldNext f total s = ⟨items.foldl f total, none, after⟩ := by
  rw [← List.append_nil (items.map _)] at h
  obtain ⟨later, further, same⟩ := foldNext_of_emits_append f total h
  cases further with
  | done hn => exact ⟨_, by rw [same, foldNext_eq, hn]⟩

theorem foldNext_of_emits_error {s : σ} {items : List α} {e : QueryError}
    {more : List (Except QueryError α)} (h : Emits s (items.map .ok ++ .error e :: more)) :
    ∃ after, foldNext f total s = ⟨items.foldl f total, some e, after⟩ := by
  obtain ⟨later, further, same⟩ := foldNext_of_emits_append f total h
  cases further with
  | fail hn _ => exact ⟨_, by rw [same, foldNext_eq, hn]⟩

/-- What a fold keeps true of the state and of its total, from item to item. -/
theorem foldNext_induction {s : σ} {P : σ → β → Prop}
    (item : ∀ s total a after, P s total → next s = ⟨.ok (some a), after⟩ → P after (f total a))
    (ended : ∀ s total, P s total → P (next s).after total) (h : P s total) :
    P (foldNext f total s).after (foldNext f total s).total := by
  fun_induction foldNext f total s with
  | case1 total s a after hn _ ih => exact ih (item s total a after h hn)
  | case2 total s after hn =>
    have := ended s total h
    rwa [hn] at this
  | case3 total s e after hn =>
    have := ended s total h
    rwa [hn] at this

/-- The items that are folded are the first answers of `next`, and the answer after them is no item:
it is the error that the fold reports, or there is nothing more. -/
theorem exists_items_of_foldNext (s : σ) :
    ∃ items : List α, (∀ n (h : n < items.length), nthAnswer s n = .ok (some items[n])) ∧
      (foldNext f total s).total = items.foldl f total ∧
      ((foldNext f total s).failure = none ∧ nthAnswer s items.length = .ok none ∨
        ∃ e, (foldNext f total s).failure = some e ∧ nthAnswer s items.length = .error e) := by
  fun_induction foldNext f total s with
  | case1 total s a after hn _ ih =>
    obtain ⟨items, answers, folded, ending⟩ := ih
    refine ⟨a :: items, ?_, folded, ?_⟩
    · intro n h
      cases n with
      | zero => rw [nthAnswer, hn]; rfl
      | succ n => rw [nthAnswer, hn]; exact answers n (Nat.lt_of_succ_lt_succ h)
    · rw [List.length_cons, nthAnswer, hn]
      exact ending
  | case2 total s after hn =>
    refine ⟨[], by simp, rfl, .inl ⟨rfl, ?_⟩⟩
    rw [List.length_nil, nthAnswer, hn]
  | case3 total s e after hn =>
    refine ⟨[], by simp, rfl, .inr ⟨e, rfl, ?_⟩⟩
    rw [List.length_nil, nthAnswer, hn]

end Fold

section Collect

variable {s after : σ}

theorem foldRun_of_emits {β : Type} (f : β → α → β) (total : β) {items : List α}
    (hs : start s = ⟨.ok (), after⟩) (h : Emits after (items.map .ok)) :
    (foldRun f total s).result = .ok (items.foldl f total) := by
  obtain ⟨last, hl⟩ := foldNext_of_emits f total h
  unfold foldRun
  rw [hs]
  simp only [hl]

theorem collect_of_emits {items : List α} (hs : start s = ⟨.ok (), after⟩)
    (h : Emits after (items.map .ok)) : (collect s).result = .ok items.toArray := by
  unfold collect
  rw [foldRun_of_emits Array.push #[] hs h, List.foldl_push_eq_append]
  simp

theorem collect_of_emits_error {items : List α} {e : QueryError}
    {more : List (Except QueryError α)} (hs : start s = ⟨.ok (), after⟩)
    (h : Emits after (items.map .ok ++ .error e :: more)) : (collect s).result = .error e := by
  obtain ⟨last, hl⟩ := foldNext_of_emits_error Array.push #[] h
  unfold collect foldRun
  rw [hs]
  simp only [hl]

/-- Once the start has succeeded, a run is closed however it ends. -/
theorem exists_close_of_collect (hs : start s = ⟨.ok (), after⟩) :
    ∃ last, (collect s).after = close last := by
  unfold collect foldRun
  rw [hs]
  dsimp only
  split <;> exact ⟨_, rfl⟩

theorem collect_of_start_error {e : QueryError} (h : start s = ⟨.error e, after⟩) :
    collect s = ⟨.error e, after⟩ := by
  unfold collect foldRun
  rw [h]

theorem exists_items_of_collect (h : start s = ⟨.ok (), after⟩) :
    ∃ items : List α, (∀ n (h : n < items.length), nthAnswer after n = .ok (some items[n])) ∧
      (nthAnswer after items.length = .ok none ∧ (collect s).result = .ok items.toArray ∨
        ∃ e, nthAnswer after items.length = .error e ∧ (collect s).result = .error e) := by
  obtain ⟨items, answers, folded, ending⟩ := exists_items_of_foldNext Array.push #[] after
  rw [List.foldl_push_eq_append] at folded
  refine ⟨items, answers, ?_⟩
  unfold collect foldRun
  rw [h]
  rcases ending with ⟨complete, last⟩ | ⟨e, failed, last⟩
  · simp [complete, folded, last]
  · simp [failed, last]

/-- What no call changes is not changed by collecting. -/
theorem collect_induction {P : σ → Prop} (starts : P (start s).after)
    (nexts : ∀ s, P s → P (next s).after) (closes : ∀ s, P s → P (close s)) :
    P (collect s).after := by
  match h : start s with
  | ⟨.error e, after⟩ =>
    rw [h] at starts
    rw [collect_of_start_error h]
    exact starts
  | ⟨.ok (), after⟩ =>
    rw [h] at starts
    have kept : P (foldNext Array.push #[] after).after := by
      refine foldNext_induction (P := fun s _ => P s) Array.push #[] ?_ (fun s _ => nexts s) starts
      intro s _ a after held hn
      have := nexts s held
      rwa [hn] at this
    unfold collect foldRun
    rw [h]
    dsimp only
    split <;> exact closes _ kept

/-- What holds of every item that is yielded from the states of a run holds of all collected
items. -/
theorem forall_of_collect {P : σ → Prop} {Q : α → Prop} (started : P (start s).after)
    (step : ∀ s, P s → P (next s).after ∧ ∀ a, (next s).result = .ok (some a) → Q a)
    {items : Array α} (h : (collect s).result = .ok items) : ∀ a ∈ items, Q a := by
  have kept : P (foldNext Array.push #[] (start s).after).after ∧
      ∀ a ∈ (foldNext Array.push #[] (start s).after).total, Q a := by
    refine foldNext_induction (P := fun s items => P s ∧ ∀ a ∈ items, Q a) Array.push #[] ?_ ?_ ?_
    · intro s items a after hp hn
      obtain ⟨held, yields⟩ := step s hp.1
      rw [hn] at held yields
      refine ⟨held, ?_⟩
      intro b hb
      rcases Array.mem_push.1 hb with hb | rfl
      · exact hp.2 b hb
      · exact yields b rfl
    · intro s items hp
      exact ⟨(step s hp.1).1, hp.2⟩
    · exact ⟨started, by simp⟩
  unfold collect foldRun at h
  split at h
  · cases h
  · rename_i after hs
    rw [hs] at kept
    dsimp only at h
    split at h
    · cases h
      exact kept.2
    · cases h

end Collect

/-! ## Two iterators that answer alike -/

section Alike

variable {τ β : Type} [FiniteIterator τ α] {R : σ → τ → Prop}

theorem foldNext_of_alike (f : β → α → β) (total : β)
    (step : ∀ s t, R s t → (next s).result = (next t).result ∧ R (next s).after (next t).after)
    {s : σ} {t : τ} (h : R s t) :
    (foldNext f total s).total = (foldNext f total t).total ∧
      (foldNext f total s).failure = (foldNext f total t).failure := by
  fun_induction foldNext f total s generalizing t with
  | case1 total s a after hn _ ih =>
    obtain ⟨same, kept⟩ := step s t h
    match ht : next t with
    | ⟨answer, after'⟩ =>
      rw [hn, ht] at same kept
      cases same
      rw [foldNext_eq f total t, ht]
      exact ih kept
  | case2 total s after hn =>
    obtain ⟨same, -⟩ := step s t h
    match ht : next t with
    | ⟨answer, after'⟩ =>
      rw [hn, ht] at same
      cases same
      rw [foldNext_eq f total t, ht]
      exact ⟨rfl, rfl⟩
  | case3 total s e after hn =>
    obtain ⟨same, -⟩ := step s t h
    match ht : next t with
    | ⟨answer, after'⟩ =>
      rw [hn, ht] at same
      cases same
      rw [foldNext_eq f total t, ht]
      exact ⟨rfl, rfl⟩

/-- Two iterators that answer alike once they are started collect the same. -/
theorem collect_of_alike
    (step : ∀ s t, R s t → (next s).result = (next t).result ∧ R (next s).after (next t).after)
    {s after : σ} {t after' : τ} (hs : start s = ⟨.ok (), after⟩) (ht : start t = ⟨.ok (), after'⟩)
    (h : R after after') : (collect s).result = (collect t).result := by
  obtain ⟨total, failure⟩ := foldNext_of_alike Array.push #[] step h
  unfold collect foldRun
  rw [hs, ht]
  simp only [total, failure]
  cases (foldNext Array.push #[] after').failure <;> rfl

end Alike

end PullAlgebra
