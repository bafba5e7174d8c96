import PullAlgebra.Benchmark.CommandLine
import PullAlgebra.Pipeline.Timeline
import PullAlgebra.Source

/-!
# PullAlgebra.Benchmark

Joins of two synthetic relations whose keys repeat in cycles. A theta or a hash join is run forward
under a timeline, rewound and replayed; the tuples of a cross product are counted and not kept.

* `cyclicRelation`: a relation with keys `0, 1, …` up to the cardinality, over and over.
* `forward`, `replay`: the two halves of a run under a timeline.
* `measure`: the row of one join in the result table, with the times that a clock takes.
* `report`: all joins of a run.
-/

namespace PullAlgebra
namespace Benchmark

/-- Adds `count` rows from row number `i` on. -/
def addCyclicRows (key payload : String) (cardinality i : Nat) :
    Nat → Relation → Except TableError Relation
  | 0, r => .ok r
  | count + 1, r =>
    let keyText := String.ofList (Numeral.digits (i % max cardinality 1))
    let payloadText := "row-" ++ String.ofList (Numeral.digits i)
    match (r.pushTexts [(key, keyText), (payload, payloadText)]).kept with
    | .error e => .error e
    | .ok r => addCyclicRows key payload cardinality (i + 1) count r

/-- A relation with a column of keys and a column that numbers the rows. -/
def cyclicRelation (key payload : String) (rows cardinality : Nat) : Except TableError Relation :=
  match Schema.ofColumns [⟨key, .integer⟩, ⟨payload, .string⟩] with
  | .error e => .error e
  | .ok schema => addCyclicRows key payload cardinality 0 rows (.empty schema)

/-- The relations that the joins of a run have in common. -/
def relations (o : Options) : Except TableError (Relation × Relation) :=
  match cyclicRelation "r_key" "r_payload" o.leftRows o.keyCardinality with
  | .error e => .error e
  | .ok r =>
    match cyclicRelation "s_key" "s_payload" o.rightRows o.keyCardinality with
    | .error e => .error e
    | .ok s => .ok (r, s)

/-- The joins of a strategy, in the order in which they are run. -/
def Strategy.joins : Strategy → List Join
  | cross => [.cross]
  | theta => [.theta (.columnsEqual "r_key" "s_key")]
  | hash => [.hash [("r_key", "s_key")]]
  | all => [.cross, .theta (.columnsEqual "r_key" "s_key"), .hash [("r_key", "s_key")]]

/-- Whether a join is run under a timeline. A log of a cross product would hold all of it. -/
def isReplayed : Join → Bool
  | .cross => false
  | _ => true

/-- The number of logged tuples after the rest of a run. -/
def settle (run : Drained (Timeline Source Tuple) Nat) : Reply (Timeline Source Tuple) Nat :=
  match run.failure with
  | none => ⟨.ok run.after.log.size, run.after⟩
  | some e => ⟨.error e, run.after⟩

/-- Starts the timeline and runs it to the end. -/
def forward (t : Timeline Source Tuple) : Reply (Timeline Source Tuple) Nat :=
  match Iterator.start t with
  | ⟨.error e, t⟩ => ⟨.error e, t⟩
  | ⟨.ok (), t⟩ => settle (countRest t)

/-- Steps back to the first tuple and then runs to the end again. -/
def replay (t : Timeline Source Tuple) : Reply (Timeline Source Tuple) Nat :=
  settle (countRest t.rewind.after)

/-- A way to take the time of computations. -/
structure Clock (m : Type → Type) (τ : Type) where
  time : {α : Type} → (Unit → α) → m (α × τ)

/-- The clock of runs whose times do not matter. -/
def untimed : Clock Id Unit := ⟨fun compute => pure (compute (), ())⟩

/-- What one run of a join comes to: the number of its tuples, and the time that it took. -/
structure Measured (τ : Type) where
  count : Nat
  elapsed : τ
  deriving DecidableEq, Repr

/-- A row of the result table: a join run forward, and replayed if it is run under a timeline. -/
structure Row (τ : Type) where
  name : String
  forward : Measured τ
  replay : Option (Measured τ)
  deriving DecidableEq, Repr

/-- What became of each join of a run, by its name. -/
abbrev Outcomes (τ : Type) : Type := List (String × Except QueryError (Row τ))

/-- The rows of the result table. A join that failed has no row in it. -/
def Outcomes.rows {τ : Type} (outcomes : Outcomes τ) : List (Row τ) :=
  outcomes.filterMap fun (_, outcome) => outcome.toOption

section Measuring

variable {m : Type → Type} {τ : Type} [Monad m]

/-- A join run forward and then replayed. -/
def measureReplayed (clock : Clock m τ) (name : String) (t : Timeline Source Tuple) :
    m (Except QueryError (Row τ)) := do
  let (first, elapsed) ← clock.time fun _ => forward t
  match first with
  | ⟨.error e, _⟩ => return .error e
  | ⟨.ok count, t⟩ =>
    let (second, elapsedAgain) ← clock.time fun _ => (replay t).result
    return second.map fun countAgain =>
      ⟨name, ⟨count, elapsed⟩, some ⟨countAgain, elapsedAgain⟩⟩

/-- A join whose tuples are counted and not kept. -/
def measureCounted (clock : Clock m τ) (name : String) (o : Source) :
    m (Except QueryError (Row τ)) := do
  let (total, elapsed) ← clock.time fun _ => (foldRun (fun n _ => n + 1) 0 o).result
  return total.map fun count => ⟨name, ⟨count, elapsed⟩, none⟩

/-- The row for one join of two relations. -/
def measure (clock : Clock m τ) (join : Join) (r s : Relation) : m (Except QueryError (Row τ)) :=
  match join.build r s with
  | .error e => return .error e
  | .ok o =>
    if isReplayed join then measureReplayed clock join.name (.ofInner o)
    else measureCounted clock join.name o

/-- Runs the joins of the options one after the other. -/
def report (clock : Clock m τ) (o : Options) : m (Except TableError (Outcomes τ)) :=
  match relations o with
  | .error e => return .error e
  | .ok (r, s) => do
    let outcomes ← o.strategy.joins.mapM fun join => return (join.name, ← measure clock join r s)
    return .ok outcomes

end Measuring

/-- The rows of the table that a request leads to. -/
def Request.table : Request → List (Row Unit)
  | run options =>
    match (report untimed options).run with
    | .error _ => []
    | .ok outcomes => outcomes.rows
  | information | misuse => []

end Benchmark
end PullAlgebra
