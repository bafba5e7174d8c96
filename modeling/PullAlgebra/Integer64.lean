/-!
# PullAlgebra.Integer64

Arithmetic on 64-bit signed integers that refuses instead of wrapping: each operation computes the
exact integer and answers only when it is in range.

* `toInt_of_ofInt?`: an answer is the exact integer.
* `ofInt?_toInt`: an integer that already has 64 bits is never refused.
-/

namespace PullAlgebra
namespace Integer64

/-- The integers that 64 signed bits hold, from `-2^63` up to but not including `2^63`. -/
def InRange (n : Int) : Prop := -0x8000000000000000 ≤ n ∧ n < 0x8000000000000000

instance (n : Int) : Decidable (InRange n) := inferInstanceAs (Decidable (_ ∧ _))

/-- The 64-bit form of an integer in range. -/
def ofInt? (n : Int) : Option Int64 :=
  if InRange n then some (Int64.ofInt n) else none

def add? (a b : Int64) : Option Int64 := ofInt? (a.toInt + b.toInt)

def sub? (a b : Int64) : Option Int64 := ofInt? (a.toInt - b.toInt)

def mul? (a b : Int64) : Option Int64 := ofInt? (a.toInt * b.toInt)

/-- The quotient without its fractional part; there is none by zero. -/
def div? (a b : Int64) : Option Int64 :=
  if b = 0 then none else ofInt? (a.toInt.tdiv b.toInt)

theorem inRange_toInt (a : Int64) : InRange a.toInt :=
  ⟨a.le_toInt, a.toInt_lt⟩

theorem toInt_ofInt {n : Int} (h : InRange n) : (Int64.ofInt n).toInt = n := by
  obtain ⟨lo, hi⟩ := h
  exact Int64.toInt_ofInt_of_le (by simpa using lo) (by simpa using hi)

theorem ofInt?_eq_some {n : Int} (h : InRange n) : ofInt? n = some (Int64.ofInt n) :=
  if_pos h

theorem toInt_of_ofInt? {n : Int} {a : Int64} (h : ofInt? n = some a) : a.toInt = n := by
  unfold ofInt? at h
  split at h
  · cases h; exact toInt_ofInt ‹_›
  · cases h

theorem ofInt?_toInt (a : Int64) : ofInt? a.toInt = some a := by
  rw [ofInt?_eq_some (inRange_toInt a), Int64.ofInt_toInt]

end Integer64
end PullAlgebra
