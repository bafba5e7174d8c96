import Mathlib.Data.List.TakeWhile
import PullAlgebra.Column
import PullAlgebra.Proofs.Value.Shortest

/-!
# PullAlgebra.Proofs.Value.Notation

The texts of values and what they are read as. A decimal number in the plain layout has digits
around at most one point, with zeros where the number has none, and is read as a number of the same
value: the digits left of the point followed by those right of it, as many places down. Every value
is read back by a column that stores it.

* `Numeral.value_append`: digits after other digits.
* `Decimal.read?_of_digits`, `Decimal.read?_of_point`: the notation without an exponent.
* `Decimal.reads_positionalText`: digits around a point, with zeros where there is none.
* `Decimal.reads_write`: the plain layout of a decimal number.
* `ColumnType.read?_text`: the text of a value.
-/

namespace PullAlgebra

namespace Text

theorem isBlank_of_isDigit {c : Char} (h : c.isDigit) : isBlank c = false := by
  have range : 48 ≤ c.toNat ∧ c.toNat ≤ 57 := by
    simpa [Char.isDigit, UInt32.le_iff_toNat_le] using h
  simp only [isBlank, Bool.or_eq_false_iff, Bool.and_eq_false_iff, decide_eq_false_iff_not,
    beq_eq_false_iff_ne]
  omega

theorem dropWhile_isBlank {cs : List Char} (h : ∀ c ∈ cs, isBlank c = false) :
    cs.dropWhile isBlank = cs := by
  rw [List.dropWhile_eq_self_iff]
  intro present
  simp [h _ (List.getElem_mem present)]

/-- Nothing is removed from a text without white space. -/
theorem trim_eq_self {cs : List Char} (h : ∀ c ∈ cs, isBlank c = false) : trim cs = cs := by
  rw [trim, dropWhile_isBlank h, trimEnd, dropWhile_isBlank fun c hc => h c (List.mem_reverse.1 hc),
    List.reverse_reverse]

end Text

namespace Numeral

theorem value_append (cs ds : List Char) :
    value (cs ++ ds) = 10 ^ ds.length * value cs + value ds := by
  rw [value, Nat.ofDigitChars_append, Nat.ofDigitChars_eq_ofDigitChars_zero]
  rfl

theorem value_zeros (n : Nat) : value (List.replicate n '0') = 0 := by
  rw [value, Nat.ofDigitChars_replicate_zero, Nat.mul_zero]

end Numeral

/-- A run of characters ends at the first one that is not of its kind. -/
theorem takeWhile_of_stop {p : Char → Bool} {run : List Char} {c : Char} (all : ∀ d ∈ run, p d)
    (stop : ¬p c) (rest : List Char) : (run ++ c :: rest).takeWhile p = run := by
  rw [List.takeWhile_append_of_pos all, List.takeWhile_cons_of_neg stop, List.append_nil]

theorem dropWhile_of_stop {p : Char → Bool} {run : List Char} {c : Char} (all : ∀ d ∈ run, p d)
    (stop : ¬p c) (rest : List Char) : (run ++ c :: rest).dropWhile p = c :: rest := by
  rw [List.dropWhile_append_of_pos all, List.dropWhile_cons_of_neg stop]

namespace Decimal

variable {whole places : List Char}

theorem splitPoint_of_digits (digits : ∀ c ∈ whole, c.isDigit) :
    splitPoint whole = (whole, [], []) := by
  rw [splitPoint, List.takeWhile_eq_self_iff.2 digits, List.dropWhile_eq_nil_iff.2 digits]

theorem splitPoint_of_point (digits : ∀ c ∈ whole, c.isDigit) (digits' : ∀ c ∈ places, c.isDigit) :
    splitPoint (whole ++ '.' :: places) = (whole, places, []) := by
  have stop : ¬Char.isDigit '.' := by decide
  simp only [splitPoint, takeWhile_of_stop digits stop, dropWhile_of_stop digits stop, List.takeWhile_eq_self_iff.2 digits',
    List.dropWhile_eq_nil_iff.2 digits']

/-- A body with or without a minus in front. -/
def signed (negative : Bool) (body : List Char) : List Char :=
  if negative then '-' :: body else body

theorem splitSign_signed (negative : Bool) (digits : ∀ c ∈ whole, c.isDigit)
    (present : whole ≠ []) (cs : List Char) :
    Numeral.splitSign (signed negative (whole ++ cs)) = (negative, whole ++ cs) := by
  obtain ⟨c, rest, rfl⟩ := List.exists_cons_of_ne_nil present
  cases negative with
  | true => rfl
  | false => exact Numeral.splitSign_of_isDigit (digits c (List.mem_cons_self ..)) _

/-- The notation without an exponent. -/
theorem read?_of_split {cs body : List Char} {negative : Bool}
    (sign : Numeral.splitSign cs = (negative, body))
    (point : splitPoint body = (whole, places, [])) (present : whole ≠ []) :
    read? cs = some ⟨negative, Numeral.value (whole ++ places), -places.length⟩ := by
  simp only [read?, sign, point, if_neg fun none : whole = [] ∧ places = [] => present none.1]
  simp [readExponent?]

/-- Digits with nothing but a sign. -/
theorem read?_of_digits (negative : Bool) (digits : ∀ c ∈ whole, c.isDigit)
    (present : whole ≠ []) :
    read? (signed negative whole) = some ⟨negative, Numeral.value whole, 0⟩ := by
  have sign := splitSign_signed negative digits present []
  rw [List.append_nil] at sign
  rw [read?_of_split sign (splitPoint_of_digits digits) present, List.append_nil]
  rfl

/-- Digits around a point, of which those on the left are not left out. -/
theorem read?_of_point (negative : Bool) (digits : ∀ c ∈ whole, c.isDigit) (present : whole ≠ [])
    (digits' : ∀ c ∈ places, c.isDigit) : read? (signed negative (whole ++ '.' :: places)) =
      some ⟨negative, Numeral.value (whole ++ places), -places.length⟩ :=
  read?_of_split (splitSign_signed negative digits present _) (splitPoint_of_point digits digits')
    present

/-- The text is read as a number with the sign and the value. -/
def Reads (cs : List Char) (negative : Bool) (magnitude : ℚ) : Prop :=
  ∃ r, read? cs = some r ∧ r.negative = negative ∧ r.magnitude = magnitude

/-- The point stands after `point` digits, also where zeros have to be put in for it. -/
theorem reads_positionalText (negative : Bool) {ds : List Char} (digits : ∀ c ∈ ds, c.isDigit)
    (present : ds ≠ []) (point : Int) :
    Reads (signed negative (positionalText false ds point)) negative
      (Numeral.value ds * 10 ^ (point - ds.length)) := by
  have zeros (n : Nat) : ∀ c ∈ List.replicate n '0', c.isDigit := by simp
  unfold positionalText
  split
  case isTrue left =>
    have digits' : ∀ c ∈ List.replicate (-point).toNat '0' ++ ds, c.isDigit :=
      List.forall_mem_append.2 ⟨zeros _, digits⟩
    have places : -((List.replicate (-point).toNat '0' ++ ds).length : Int) =
        point - ds.length := by
      rw [List.length_append, List.length_replicate]
      omega
    have value : Numeral.value (['0'] ++ (List.replicate (-point).toNat '0' ++ ds)) =
        Numeral.value ds := by
      rw [Numeral.value_append, Numeral.value_append _ ds, Numeral.value_zeros,
        show Numeral.value ['0'] = 0 from rfl, Nat.mul_zero, Nat.mul_zero, Nat.zero_add,
        Nat.zero_add]
    refine ⟨_, read?_of_point negative (zeros 1) (by simp) digits', rfl, ?_⟩
    rw [magnitude, places]
    exact congrArg (fun n : Nat => (n : ℚ) * _) value
  case isFalse right =>
    split
    case isTrue inside =>
      have digits' : ∀ c ∈ ds.drop point.toNat, c.isDigit := fun c hc =>
        digits c (List.mem_of_mem_drop hc)
      have digits'' : ∀ c ∈ ds.take point.toNat, c.isDigit := fun c hc =>
        digits c (List.mem_of_mem_take hc)
      have places : -((ds.drop point.toNat).length : Int) = point - ds.length := by
        rw [List.length_drop]
        omega
      refine ⟨_, read?_of_point negative digits'' ?_ digits', rfl, ?_⟩
      · simp [present]
        omega
      · rw [magnitude, places, List.take_append_drop]
    case isFalse outside =>
      have digits' : ∀ c ∈ ds ++ List.replicate (point.toNat - ds.length) '0', c.isDigit :=
        List.forall_mem_append.2 ⟨digits, zeros _⟩
      have power : point - ds.length = (point.toNat - ds.length : Nat) := by omega
      rw [if_neg (by decide), List.append_nil]
      refine ⟨_, read?_of_digits negative digits' (by simp [present]), rfl, ?_⟩
      rw [power, zpow_natCast]
      simp [magnitude, Numeral.value_append, Numeral.value_zeros, mul_comm]

/-- The plain layout keeps the sign and the value of a number. -/
theorem reads_write (d : Decimal) : Reads (Layout.plain.write d) d.negative d.magnitude := by
  have text := reads_positionalText d.negative (fun c => Numeral.isDigit_of_mem_digits)
    (Numeral.digits_ne_nil d.coefficient)
  rw [Numeral.value_digits] at text
  by_cases zero : d.coefficient = 0
  · have none : d.magnitude = 0 := by simp [magnitude, zero]
    simpa [Layout.write, none, zero, Layout.plain, signed] using text 1
  · have power : ((Numeral.digits d.coefficient).length + d.exponent : Int) -
        (Numeral.digits d.coefficient).length = d.exponent := by omega
    replace text := text ((Numeral.digits d.coefficient).length + d.exponent)
    rw [power, ← magnitude] at text
    simpa [Layout.write, zero, Layout.plain, signed] using text

theorem isBlank_of_mem_signed {negative : Bool} {body : List Char}
    (h : ∀ c ∈ body, Text.isBlank c = false) :
    ∀ c ∈ signed negative body, Text.isBlank c = false := by
  cases negative with
  | true => exact List.forall_mem_cons.2 ⟨by decide, h⟩
  | false => exact h

theorem isBlank_of_mem_digits {n : Nat} : ∀ c ∈ Numeral.digits n, Text.isBlank c = false :=
  fun _ hc => Text.isBlank_of_isDigit (Numeral.isDigit_of_mem_digits hc)

theorem isBlank_of_mem_positionalText {ds : List Char} (h : ∀ c ∈ ds, Text.isBlank c = false)
    (point : Int) : ∀ c ∈ positionalText false ds point, Text.isBlank c = false := by
  have zeros (n : Nat) : ∀ c ∈ List.replicate n '0', Text.isBlank c = false := by
    intro c hc
    rw [List.eq_of_mem_replicate hc]
    decide
  unfold positionalText
  split
  · exact List.forall_mem_cons.2 ⟨by decide, List.forall_mem_cons.2 ⟨by decide,
      List.forall_mem_append.2 ⟨zeros _, h⟩⟩⟩
  · split
    · exact List.forall_mem_append.2 ⟨fun c hc => h c (List.mem_of_mem_take hc),
        List.forall_mem_cons.2 ⟨by decide, fun c hc => h c (List.mem_of_mem_drop hc)⟩⟩
    · rw [if_neg (by decide), List.append_nil]
      exact List.forall_mem_append.2 ⟨h, zeros _⟩

/-- There are no other characters than digits, a sign and a point. -/
theorem isBlank_of_mem_write {d : Decimal} :
    ∀ c ∈ Layout.plain.write d, Text.isBlank c = false :=
  isBlank_of_mem_signed (isBlank_of_mem_positionalText isBlank_of_mem_digits _)

theorem exists_shortest?_of_isFinite {x : Float} (h : x.isFinite) : ∃ d, shortest? x = some d := by
  have finite := Binary64.exponentField_of_isFinite h
  unfold shortest? Binary64.decode?
  dsimp only
  rw [if_neg finite]
  split <;> exact ⟨_, rfl⟩

/-- The text of a finite double is read as this double. -/
theorem toFloat_of_read?_ofFloat {x : Float} (h : x.isFinite) :
    (read? (Text.trim (Layout.plain.ofFloat x).toList)).map toFloat = some x := by
  obtain ⟨d, shortest⟩ := exists_shortest?_of_isFinite h
  obtain ⟨r, read, sign, same⟩ := reads_write d
  simp only [Layout.ofFloat, shortest, String.toList_ofList]
  rw [Text.trim_eq_self isBlank_of_mem_write, read, Option.map_some,
    toFloat_congr sign same, toFloat_of_shortest? shortest]

end Decimal

namespace ColumnType

theorem isBlank_of_mem_ofInt (n : Int) : ∀ c ∈ Numeral.ofInt n, Text.isBlank c = false := by
  have text : Numeral.ofInt n = Decimal.signed (decide (n < 0)) (Numeral.digits n.natAbs) := by
    simp [Numeral.ofInt, Decimal.signed]
  rw [text]
  exact Decimal.isBlank_of_mem_signed Decimal.isBlank_of_mem_digits

theorem trim_ofInt (n : Int) : Text.trim (Numeral.ofInt n) = Numeral.ofInt n :=
  Text.trim_eq_self (isBlank_of_mem_ofInt n)

/-- A value that a column stores is what the column reads its text as. -/
theorem read?_text {type : ColumnType} {v : Value} (h : type.Stores v) :
    type.read? v.text = some v := by
  obtain ⟨rfl, finite⟩ := h
  cases v with
  | boolean b => cases b <;> rfl
  | string s => rfl
  | integer i =>
    simp only [Value.type, Value.text, read?, String.toList_ofList]
    rw [trim_ofInt, Numeral.readInt?_ofInt, Option.bind_some,
      Integer64.ofInt?_toInt, Option.map_some]
  | float x =>
    have finite := finite x rfl
    simp only [Value.type, Value.text, read?, Decimal.toFloat_of_read?_ofFloat finite,
      Option.filter_some, if_pos finite, Option.map_some]

end ColumnType
end PullAlgebra
