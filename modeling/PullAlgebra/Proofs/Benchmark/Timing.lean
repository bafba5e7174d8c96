import Mathlib
import PullAlgebra.Main

/-!
# PullAlgebra.Proofs.Benchmark.Timing

The result table under a clock. A clock that gives back the values of what it times decides nothing
but the times: the joins have the counts and the failures that they have in a run without times. The
program's own clock is of this kind, so the table that it prints is the one without times, with times
added.

* `Clock.Faithful`: the clock gives back the value of what it times.
* `measure_untimed`: one join under a faithful clock.
* `report_untimed`, `rows_untimed`: all joins, and the table of them.
* `stopwatch_faithful`: the clock of the program.
-/

namespace PullAlgebra
namespace Benchmark

variable {m : Type → Type} {τ : Type}

def Row.untimed (row : Row τ) : Row Unit :=
  ⟨row.name, ⟨row.forward.count, ()⟩, row.replay.map fun again => ⟨again.count, ()⟩⟩

def Outcomes.untimed (outcomes : Outcomes τ) : Outcomes Unit :=
  outcomes.map fun (name, outcome) => (name, outcome.map Row.untimed)

theorem Outcomes.rows_untimed (outcomes : Outcomes τ) :
    outcomes.untimed.rows = outcomes.rows.map Row.untimed := by
  unfold Outcomes.rows Outcomes.untimed
  rw [List.filterMap_map, List.map_filterMap]
  refine List.filterMap_congr ?_
  rintro ⟨name, outcome⟩ -
  cases outcome <;> rfl

theorem satisfiesM_mapM [Monad m] [LawfulMonad m] {α β γ : Type} {f : α → m β} {g : α → γ}
    {forget : β → γ} (each : ∀ a, SatisfiesM (fun b => forget b = g a) (f a)) (as : List α) :
    SatisfiesM (fun bs => bs.map forget = as.map g) (as.mapM f) := by
  induction as with
  | nil => exact SatisfiesM.pure rfl
  | cons a as ih =>
    rw [List.mapM_cons]
    refine SatisfiesM.bind (each a) fun b first => SatisfiesM.bind ih fun bs rest => ?_
    exact SatisfiesM.pure (by rw [List.map_cons, List.map_cons, first, rest])

/-- What is given back with the time is the value of the computation. -/
def Clock.Faithful [Functor m] (clock : Clock m τ) : Prop :=
  ∀ {α : Type} (compute : Unit → α),
    SatisfiesM (fun taken => taken.1 = compute ()) (clock.time compute)

section Measuring

variable [Monad m] [LawfulMonad m] {clock : Clock m τ} (faithful : clock.Faithful)
include faithful

theorem measureReplayed_untimed (name : String) (t : Timeline Source Tuple) :
    SatisfiesM (fun outcome => outcome.map Row.untimed = (measureReplayed untimed name t).run)
      (measureReplayed clock name t) := by
  refine SatisfiesM.bind (faithful _) ?_
  rintro ⟨first, elapsed⟩ rfl
  rcases run : forward t with ⟨_ | count, t'⟩
  · refine SatisfiesM.pure ?_
    simp only [measureReplayed, untimed, run, pure_bind]
    rfl
  · refine SatisfiesM.bind (faithful _) ?_
    rintro ⟨second, elapsedAgain⟩ rfl
    refine SatisfiesM.pure ?_
    simp only [measureReplayed, untimed, run, pure_bind]
    cases (replay t').result <;> rfl

theorem measureCounted_untimed (name : String) (o : Source) :
    SatisfiesM (fun outcome => outcome.map Row.untimed = (measureCounted untimed name o).run)
      (measureCounted clock name o) := by
  refine SatisfiesM.bind (faithful _) ?_
  rintro ⟨total, elapsed⟩ rfl
  refine SatisfiesM.pure ?_
  simp only [measureCounted, untimed, pure_bind]
  cases (foldRun (fun n _ => n + 1) 0 o).result <;> rfl

theorem measure_untimed (join : Join) (r s : Relation) :
    SatisfiesM (fun outcome => outcome.map Row.untimed = (measure untimed join r s).run)
      (measure clock join r s) := by
  unfold measure
  cases join.build r s with
  | error e => exact SatisfiesM.pure rfl
  | ok o =>
    dsimp only
    split
    · exact measureReplayed_untimed faithful join.name _
    · exact measureCounted_untimed faithful join.name o

theorem report_untimed (o : Options) :
    SatisfiesM (fun outcomes => outcomes.map Outcomes.untimed = (report untimed o).run)
      (report clock o) := by
  unfold report
  cases relations o with
  | error e => exact SatisfiesM.pure rfl
  | ok both =>
    obtain ⟨r, s⟩ := both
    have each (join : Join) :
        SatisfiesM (fun outcome : String × Except QueryError (Row τ) =>
            (outcome.1, outcome.2.map Row.untimed) = (join.name, (measure untimed join r s).run))
          (return (join.name, ← measure clock join r s)) := by
      refine SatisfiesM.bind (measure_untimed faithful join r s) fun outcome same => ?_
      exact SatisfiesM.pure (by rw [same])
    refine SatisfiesM.bind (satisfiesM_mapM each o.strategy.joins) fun outcomes same => ?_
    refine SatisfiesM.pure (congrArg Except.ok (same.trans ?_))
    exact (List.idRun_mapM ..).symm

/-- The table of a run without its times. -/
theorem rows_untimed (o : Options) :
    SatisfiesM (fun outcomes => ∀ done, outcomes = .ok done →
        done.rows.map Row.untimed = (Request.run o).table)
      (report clock o) := by
  refine (report_untimed faithful o).imp ?_
  rintro outcomes same done rfl
  rw [Request.table, ← same, ← Outcomes.rows_untimed]
  rfl

end Measuring

theorem stopwatch_faithful : stopwatch.Faithful := by
  intro α compute
  refine SatisfiesM.bind SatisfiesM.trivial fun start _ => ?_
  refine SatisfiesM.bind (p := (· = compute ())) (SatisfiesM.pure rfl) fun value same => ?_
  refine SatisfiesM.bind SatisfiesM.trivial fun stop _ => ?_
  exact SatisfiesM.pure same

/-- The rows that the program prints are those of the table without times. -/
theorem rows_stopwatch (o : Options) :
    SatisfiesM (fun outcomes => ∀ done, outcomes = .ok done →
        done.rows.map Row.untimed = (Request.run o).table)
      (report stopwatch o) :=
  rows_untimed stopwatch_faithful o

end Benchmark
end PullAlgebra
