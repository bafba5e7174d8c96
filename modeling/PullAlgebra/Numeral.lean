/-!
# PullAlgebra.Numeral

Decimal numerals as lists of characters. A natural number is written with ASCII digits and no
leading zero; an integer has a `-` in front when it is negative. Reading is more liberal: a sign of
either kind may come first and zeros may lead, but at least one digit must follow and nothing else.

* `readNat?_digits`: reading a written natural number gives it back.
* `readInt?_ofInt`: reading a written integer gives it back.
-/

namespace PullAlgebra
namespace Numeral

/-- The digits of `n`, most significant first. -/
def digits (n : Nat) : List Char := Nat.toDigits 10 n

/-- The number that a run of digits denotes. -/
def value (cs : List Char) : Nat := Nat.ofDigitChars 10 cs 0

/-- The numeral of `n`. -/
def ofInt (n : Int) : List Char :=
  if n < 0 then '-' :: digits n.natAbs else digits n.natAbs

/-- Splits a leading sign off; `true` stands for minus. -/
def splitSign : List Char → Bool × List Char
  | '-' :: rest => (true, rest)
  | '+' :: rest => (false, rest)
  | rest => (false, rest)

/-- Reads one or more ASCII digits and nothing else. -/
def readNat? (cs : List Char) : Option Nat :=
  if cs ≠ [] ∧ cs.all Char.isDigit then some (value cs) else none

/-- Reads an optional sign and one or more ASCII digits. -/
def readInt? (cs : List Char) : Option Int :=
  let (negative, body) := splitSign cs
  (readNat? body).map fun n : Nat => if negative then -(n : Int) else n

theorem value_digits (n : Nat) : value (digits n) = n :=
  Nat.ofDigitChars_toDigits (by decide) (by decide)

theorem isDigit_of_mem_digits {n : Nat} {c : Char} (h : c ∈ digits n) : c.isDigit :=
  Nat.isDigit_of_mem_toDigits (by decide) (by decide) h

theorem digits_ne_nil (n : Nat) : digits n ≠ [] := Nat.toDigits_ne_nil

theorem readNat?_digits (n : Nat) : readNat? (digits n) = some n := by
  simp [readNat?, digits_ne_nil, value_digits]
  exact fun c h => isDigit_of_mem_digits h

theorem splitSign_of_ne {c : Char} (minus : c ≠ '-') (plus : c ≠ '+') (cs : List Char) :
    splitSign (c :: cs) = (false, c :: cs) := by
  unfold splitSign
  split
  · rename_i e; cases e; exact absurd rfl minus
  · rename_i e; cases e; exact absurd rfl plus
  · rfl

/-- A digit is no sign. -/
theorem splitSign_of_isDigit {c : Char} (h : c.isDigit) (cs : List Char) :
    splitSign (c :: cs) = (false, c :: cs) :=
  splitSign_of_ne (by rintro rfl; cases h) (by rintro rfl; cases h) cs

theorem splitSign_digits (n : Nat) : splitSign (digits n) = (false, digits n) := by
  obtain ⟨c, cs, e⟩ := List.exists_cons_of_ne_nil (digits_ne_nil n)
  have first : c.isDigit := isDigit_of_mem_digits (e ▸ List.mem_cons_self ..)
  rw [e, splitSign_of_isDigit first]

theorem readInt?_ofInt (n : Int) : readInt? (ofInt n) = some n := by
  unfold ofInt
  split
  · change (readNat? (digits n.natAbs)).map (fun m : Nat => -(m : Int)) = some n
    rw [readNat?_digits, Option.map_some, Option.some.injEq]
    omega
  · unfold readInt?
    rw [splitSign_digits]
    change (readNat? (digits n.natAbs)).map (fun m : Nat => (m : Int)) = some n
    rw [readNat?_digits, Option.map_some, Option.some.injEq]
    omega

end Numeral
end PullAlgebra
