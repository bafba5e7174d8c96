import PullAlgebra.Numeral

/-!
# PullAlgebra.Benchmark.CommandLine

The command line of the benchmark. Each option takes a value, in the next argument or after an
equals sign, and may be given once. What is not given has a default. Arguments are read from left to
right, so a request for help is granted only if nothing before it is wrong.
-/

namespace PullAlgebra
namespace Benchmark

/-- Which joins to run. -/
inductive Strategy where
  | cross
  | theta
  | hash
  | all
  deriving DecidableEq, Repr

def Strategy.ofName? : String → Option Strategy
  | "cross" => some cross
  | "theta" => some theta
  | "hash" => some hash
  | "all" => some all
  | _ => none

structure Options where
  leftRows : Nat
  rightRows : Nat
  /-- The number of different keys in each relation. -/
  keyCardinality : Nat
  strategy : Strategy
  deriving DecidableEq, Repr

/-- What a command line asks for. -/
inductive Request where
  | run (options : Options)
  /-- The help or the version text. -/
  | information
  /-- A command line that cannot be understood. -/
  | misuse
  deriving DecidableEq, Repr

/-- The options that a part of the command line has set. -/
structure Given where
  leftRows : Option Nat
  rightRows : Option Nat
  keyCardinality : Option Nat
  strategy : Option Strategy

namespace Given

def nothing : Given := ⟨none, none, none, none⟩

/-- The options, with the defaults for those not given. -/
def options (g : Given) : Options where
  leftRows := g.leftRows.getD 1000
  rightRows := g.rightRows.getD 1000
  keyCardinality := g.keyCardinality.getD 100
  strategy := g.strategy.getD .all

end Given

/-- A number of 64 bits, written in digits with or without a plus sign. -/
def readCount? (text : String) : Option Nat :=
  let digits := match text.toList with
    | '+' :: rest => rest
    | cs => cs
  (Numeral.readNat? digits).filter (· < 0x10000000000000000)

/-- Sets an option that has not been set, if it exists and the value is one of its values. -/
def Given.set? (g : Given) (option value : String) : Option Given :=
  match option with
  | "--left-rows" =>
    if g.leftRows.isSome then none
    else (readCount? value).map fun n => { g with leftRows := some n }
  | "--right-rows" =>
    if g.rightRows.isSome then none
    else (readCount? value).map fun n => { g with rightRows := some n }
  | "--key-cardinality" =>
    if g.keyCardinality.isSome then none
    else (readCount? value).map fun n => { g with keyCardinality := some n }
  | "--strategy" =>
    if g.strategy.isSome then none
    else (Strategy.ofName? value).map fun s => { g with strategy := some s }
  | _ => none

/-- Whether an argument asks for the help or the version text. After a single dash the first letter
decides. -/
def asksInformation (argument : String) : Bool :=
  match argument.toList with
  | '-' :: 'h' :: _ => true
  | '-' :: 'V' :: _ => true
  | _ => argument == "--help" || argument == "--version"

/-- The parts of an argument before and after its first equals sign, if it has one. -/
def splitValue? (argument : String) : Option (String × String) :=
  let cs := argument.toList
  match cs.dropWhile (· != '=') with
  | '=' :: value => some (String.ofList (cs.takeWhile (· != '=')), String.ofList value)
  | _ => none

/-- Reads the arguments that are left. Two dashes alone may stand at the end. -/
def readArguments (g : Given) : List String → Request
  | [] => .run g.options
  | argument :: rest =>
    if argument == "--" then if rest.isEmpty then .run g.options else .misuse
    else if asksInformation argument then .information
    else
      match splitValue? argument with
      | some (option, value) =>
        match g.set? option value with
        | some g => readArguments g rest
        | none => .misuse
      | none =>
        match rest with
        | [] => .misuse
        | value :: rest =>
          match g.set? argument value with
          | some g => readArguments g rest
          | none => .misuse

/-- What the arguments of the command line ask for. -/
def Request.ofArguments (arguments : List String) : Request := readArguments .nothing arguments

/-- The exit code of a request: zero unless it cannot be understood. -/
def Request.exitCode : Request → Nat
  | run _ | information => 0
  | misuse => 2

end Benchmark
end PullAlgebra
