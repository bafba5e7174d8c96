import Mathlib.Algebra.Group.Nat.Defs
import PullAlgebra.Benchmark.CommandLine

/-!
# PullAlgebra.Proofs.Benchmark.Arguments

A command line for all options. Each option is given by its name and, in the next argument, by its
value, a number in digits.

* `readArguments_pair`: one option.
* `ofArguments_arguments`: the options are read back, whatever numbers of 64 bits they are.
-/

namespace PullAlgebra
namespace Benchmark

def Strategy.name : Strategy → String
  | cross => "cross"
  | theta => "theta"
  | hash => "hash"
  | all => "all"

theorem Strategy.ofName?_name (strategy : Strategy) : ofName? strategy.name = some strategy := by
  cases strategy <;> rfl

def countText (n : Nat) : String := String.ofList (Numeral.digits n)

theorem readCount?_countText {n : Nat} (h : n < 2 ^ 64) : readCount? (countText n) = some n := by
  rw [readCount?, countText, String.toList_ofList]
  split
  · -- there is no plus sign in front of the digits
    rename_i signed
    have digit := Numeral.isDigit_of_mem_digits (n := n) (c := '+') (by simp [signed])
    exact absurd digit (by decide)
  · rw [Numeral.readNat?_digits]
    simpa [Option.filter] using h

/-- The arguments that give all of the options. -/
def Options.arguments (o : Options) : List String :=
  ["--left-rows", countText o.leftRows, "--right-rows", countText o.rightRows,
    "--key-cardinality", countText o.keyCardinality, "--strategy", o.strategy.name]

theorem readArguments_pair {g g' : Given} {option value : String}
    (named : (option == "--") = false ∧ asksInformation option = false ∧ splitValue? option = none)
    (set : g.set? option value = some g') (rest : List String) :
    readArguments g (option :: value :: rest) = readArguments g' rest := by
  obtain ⟨dashes, information, whole⟩ := named
  rw [readArguments]
  simp [dashes, information, whole, set]

theorem ofArguments_arguments {o : Options} (left : o.leftRows < 2 ^ 64)
    (right : o.rightRows < 2 ^ 64) (cardinality : o.keyCardinality < 2 ^ 64) :
    Request.ofArguments o.arguments = .run o := by
  let first : Given := ⟨some o.leftRows, none, none, none⟩
  let second : Given := ⟨some o.leftRows, some o.rightRows, none, none⟩
  let third : Given := ⟨some o.leftRows, some o.rightRows, some o.keyCardinality, none⟩
  have one : Given.nothing.set? "--left-rows" (countText o.leftRows) = some first := by
    simp [Given.set?, Given.nothing, readCount?_countText left, first]
  have two : first.set? "--right-rows" (countText o.rightRows) = some second := by
    simp [Given.set?, readCount?_countText right, first, second]
  have three : second.set? "--key-cardinality" (countText o.keyCardinality) = some third := by
    simp [Given.set?, readCount?_countText cardinality, second, third]
  have four : third.set? "--strategy" o.strategy.name =
      some { third with strategy := some o.strategy } := by
    simp [Given.set?, Strategy.ofName?_name, third]
  rw [Request.ofArguments, Options.arguments, readArguments_pair (by decide) one,
    readArguments_pair (by decide) two, readArguments_pair (by decide) three,
    readArguments_pair (by decide) four]
  rfl

end Benchmark
end PullAlgebra
