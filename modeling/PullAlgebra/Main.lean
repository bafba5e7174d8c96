import PullAlgebra.Benchmark

/-!
# PullAlgebra.Main

The benchmark program: runs the joins that the command line asks for and prints a table with the
time that each took.
-/

namespace PullAlgebra
namespace Benchmark

def usage : String :=
  "Times the join strategies over synthetic relations\n\n" ++
  "Options: --left-rows N, --right-rows N, --key-cardinality N, " ++
  "--strategy cross|theta|hash|all\n"

/-- Takes times in nanoseconds. -/
def stopwatch : Clock IO Nat where
  time compute := do
    let start ← IO.monoNanosNow
    let value ← IO.lazyPure compute
    let stop ← IO.monoNanosNow
    return (value, stop - start)

/-- Nanoseconds as milliseconds with three decimal places. -/
def timeText (nanoseconds : Nat) : String :=
  let microseconds := nanoseconds / 1000
  let places := String.ofList ((Numeral.digits (1000 + microseconds % 1000)).drop 1)
  s!"{microseconds / 1000}.{places}ms"

def cell (width : Nat) (text : String) : String :=
  text ++ String.ofList (List.replicate (width - text.length) ' ')

def tableLine (name count forwardTime replayTime : String) : String :=
  s!"| {cell 9 name} | {cell 12 count} | {cell 15 forwardTime} | {cell 15 replayTime} |"

def Row.line (row : Row Nat) : String :=
  tableLine row.name (toString row.forward.count) (timeText row.forward.elapsed)
    ((row.replay.map fun again => timeText again.elapsed).getD "-")

def runOptions (o : Options) : IO Unit := do
  match ← report stopwatch o with
  | .error e => IO.eprintln s!"failed to build the relations: {e.message}"
  | .ok outcomes =>
    for (name, outcome) in outcomes do
      if let .error e := outcome then
        IO.eprintln s!"{name} failed: {e.message}"
    IO.println "\n--- Benchmark Results ---"
    IO.println "| Join      | Output Rows  | Forward Time    | Replay Time     |"
    IO.println "|-----------|--------------|-----------------|-----------------|"
    for row in outcomes.rows do
      IO.println row.line

end Benchmark
end PullAlgebra

open PullAlgebra.Benchmark

def main (arguments : List String) : IO UInt32 := do
  let request := Request.ofArguments arguments
  match request with
  | .run options => runOptions options
  | .information => IO.print usage
  | .misuse => IO.eprint usage
  return UInt32.ofNat request.exitCode
