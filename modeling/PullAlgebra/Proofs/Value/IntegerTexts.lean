import Mathlib.Data.Nat.Digits.Defs
import PullAlgebra.Proofs.Relation.Acceptance
import PullAlgebra.Proofs.Value.Notation

/-!
# PullAlgebra.Proofs.Value.IntegerTexts

The texts that an integer column reads: white space at both ends aside, an optional sign and one or
more digits, as many zeros in front as one likes, as long as the number has 64 bits. Everything
else is refused with the text as it was given.

* `Text.trim_eq_iff`: what is left of a text without the white space around it.
* `Numeral.value_eq`: the digits count for powers of ten, the last one for itself.
* `Numeral.readInt?_eq_some_iff`: the numerals and their numbers.
* `ColumnType.integer_texts`: what an integer column answers to a text.
-/

namespace PullAlgebra

namespace Text

variable {cs core before after : List Char}

/-- White space stands around a part of a text, which neither begins nor ends with any. -/
structure Trimmed (cs core : List Char) : Prop where
  around : ∃ before after, cs = before ++ core ++ after ∧ (∀ c ∈ before, isBlank c) ∧
    ∀ c ∈ after, isBlank c
  first : ∀ c ∈ core.head?, isBlank c = false
  last : ∀ c ∈ core.getLast?, isBlank c = false

/-- Nothing is taken away from a part without any white space. -/
theorem trimmed_of_inked (blank : ∀ c ∈ before, isBlank c) (blank' : ∀ c ∈ after, isBlank c)
    (inked : ∀ c ∈ core, isBlank c = false) : Trimmed (before ++ core ++ after) core :=
  ⟨⟨before, after, rfl, blank, blank'⟩, fun c hc => inked c (List.mem_of_mem_head? hc),
    fun c hc => inked c (List.mem_of_mem_getLast? hc)⟩

theorem dropWhile_of_first (first : ∀ c ∈ cs.head?, isBlank c = false) :
    cs.dropWhile isBlank = cs := by
  cases cs with
  | nil => rfl
  | cons c rest => exact List.dropWhile_cons_of_neg (by simpa using first c rfl)

theorem trimEnd_append (blank : ∀ c ∈ after, isBlank c)
    (last : ∀ c ∈ core.getLast?, isBlank c = false) : trimEnd (core ++ after) = core := by
  have reversed : ∀ c ∈ core.reverse.head?, isBlank c = false := by
    rwa [List.head?_reverse]
  rw [trimEnd, List.reverse_append,
    List.dropWhile_append_of_pos fun c hc => blank c (List.mem_reverse.1 hc),
    dropWhile_of_first reversed, List.reverse_reverse]

/-- The part between the white space is the only one of its kind. -/
theorem Trimmed.trim_eq (h : Trimmed cs core) : trim cs = core := by
  obtain ⟨⟨before, after, rfl, blank, blank'⟩, first, last⟩ := h
  rw [trim, List.append_assoc, List.dropWhile_append_of_pos blank]
  cases core with
  | nil =>
    rw [List.nil_append, List.dropWhile_eq_nil_iff.2 blank']
    rfl
  | cons c rest =>
    rw [dropWhile_of_first (by simpa using first)]
    exact trimEnd_append blank' last

theorem first_of_dropWhile (cs : List Char) :
    ∀ c ∈ (cs.dropWhile isBlank).head?, isBlank c = false := by
  intro c hc
  have := List.head?_dropWhile_not isBlank cs
  rw [Option.mem_def.1 hc] at this
  simpa using this

theorem exists_trimEnd (cs : List Char) : ∃ after, cs = trimEnd cs ++ after ∧
    ∀ c ∈ after, isBlank c := by
  refine ⟨(cs.reverse.takeWhile isBlank).reverse, ?_, ?_⟩
  · rw [trimEnd, ← List.reverse_append, List.takeWhile_append_dropWhile, List.reverse_reverse]
  · intro c hc
    exact List.mem_takeWhile_imp (List.mem_reverse.1 hc)

theorem trimmed_trim (cs : List Char) : Trimmed cs (trim cs) := by
  obtain ⟨after, split, blank⟩ := exists_trimEnd (cs.dropWhile isBlank)
  refine ⟨⟨cs.takeWhile isBlank, after, ?_, fun c hc => List.mem_takeWhile_imp hc, blank⟩, ?_, ?_⟩
  · rw [List.append_assoc, trim, ← split, List.takeWhile_append_dropWhile]
  · intro c hc
    refine first_of_dropWhile cs c ?_
    rw [split, List.head?_append, show (trimEnd _).head? = some c from hc]
    rfl
  · intro c hc
    rw [trim, trimEnd, List.getLast?_reverse] at hc
    exact first_of_dropWhile _ c hc

theorem trim_eq_iff : trim cs = core ↔ Trimmed cs core :=
  ⟨fun h => h ▸ trimmed_trim cs, Trimmed.trim_eq⟩

end Text

namespace Numeral

variable {cs ds : List Char} {n : Int}

/-- The number that digits stand for, each of them ten times what it would be one place to the
right. -/
def placeValue (ds : List Char) : Nat :=
  Nat.ofDigits 10 (ds.reverse.map fun c => c.toNat - '0'.toNat)

theorem value_eq (ds : List Char) : value ds = placeValue ds := by
  induction ds using List.reverseRecOn with
  | nil => rfl
  | append_singleton ds c ih =>
    have digit : value [c] = c.toNat - '0'.toNat := by
      simp [value, Nat.ofDigitChars]
    rw [value_append, placeValue, List.reverse_append, List.map_append, List.reverse_singleton,
      List.map_singleton, List.singleton_append, Nat.ofDigits_cons, ← placeValue, ← ih, digit,
      Nat.add_comm]
    rfl

/-- One or more ASCII digits. -/
def Digits (ds : List Char) : Prop := ds ≠ [] ∧ ∀ c ∈ ds, c.isDigit

/-- The numerals and what they denote: digits, with a sign of either kind or none. -/
inductive Denotes : List Char → Int → Prop
  | unsigned {ds : List Char} : Digits ds → Denotes ds (placeValue ds)
  | plus {ds : List Char} : Digits ds → Denotes ('+' :: ds) (placeValue ds)
  | minus {ds : List Char} : Digits ds → Denotes ('-' :: ds) (-placeValue ds)

theorem readNat?_eq_some_iff {k : Nat} :
    readNat? ds = some k ↔ Digits ds ∧ placeValue ds = k := by
  simp [readNat?, Digits, value_eq, and_assoc]

theorem splitSign_of_digits (h : Digits ds) : splitSign ds = (false, ds) := by
  obtain ⟨c, rest, rfl⟩ := List.exists_cons_of_ne_nil h.1
  exact splitSign_of_isDigit (h.2 c (List.mem_cons_self ..)) rest

theorem readInt?_of_denotes (h : Denotes cs n) : readInt? cs = some n := by
  cases h with
  | unsigned digits =>
    simp [readInt?, splitSign_of_digits digits, readNat?_eq_some_iff.2 ⟨digits, rfl⟩]
  | plus digits => simp [readInt?, splitSign, readNat?_eq_some_iff.2 ⟨digits, rfl⟩]
  | minus digits => simp [readInt?, splitSign, readNat?_eq_some_iff.2 ⟨digits, rfl⟩]

theorem denotes_of_readInt? (h : readInt? cs = some n) : Denotes cs n := by
  obtain ⟨k, read, rfl⟩ := Option.map_eq_some_iff.1 h
  obtain ⟨digits, rfl⟩ := readNat?_eq_some_iff.1 read
  revert digits
  split <;> intro digits
  · exact .minus digits
  · exact .plus digits
  · exact .unsigned digits

theorem readInt?_eq_some_iff : readInt? cs = some n ↔ Denotes cs n :=
  ⟨denotes_of_readInt?, readInt?_of_denotes⟩

end Numeral

namespace ColumnType

/-- A text that stands for an integer, between white space or not. -/
def IntegerText (s : String) (n : Int) : Prop :=
  ∃ core, Text.Trimmed s.toList core ∧ Numeral.Denotes core n

theorem integerText_iff {s : String} {n : Int} :
    IntegerText s n ↔ Numeral.readInt? (Text.trim s.toList) = some n := by
  simp [IntegerText, ← Text.trim_eq_iff, Numeral.readInt?_eq_some_iff]

theorem parse_integer_iff {s : String} {v : Value} : integer.parse s = .ok v ↔
    ∃ n i, IntegerText s n ∧ -2 ^ 63 ≤ n ∧ n ≤ 2 ^ 63 - 1 ∧ i.toInt = n ∧ v = .integer i := by
  have read : integer.read? s = some v ↔ ∃ n, IntegerText s n ∧ ∃ i, Integer64.ofInt? n = some i ∧
      v = .integer i := by
    simp only [read?, integerText_iff, Option.map_eq_some_iff, Option.bind_eq_some_iff]
    grind
  rw [parse_eq_ok_iff, read]
  constructor
  · rintro ⟨n, text, i, number, rfl⟩
    have same := Integer64.toInt_of_ofInt? number
    have range := Integer64.inRange_toInt i
    unfold Integer64.InRange at range
    exact ⟨n, i, text, by omega, by omega, same, rfl⟩
  · rintro ⟨_, i, text, -, -, rfl, rfl⟩
    exact ⟨i.toInt, text, i, Integer64.ofInt?_toInt i, rfl⟩

theorem trimmed_ofInt (n : Int) {before after : List Char} (blank : ∀ c ∈ before, Text.isBlank c)
    (blank' : ∀ c ∈ after, Text.isBlank c) :
    Text.Trimmed (before ++ Numeral.ofInt n ++ after) (Numeral.ofInt n) :=
  Text.trimmed_of_inked blank blank' (isBlank_of_mem_ofInt n)

/-- An integer column reads the numerals of the integers of 64 bits, between white space or not,
and refuses all other texts as they are. A written integer is read back whatever white space
stands around it. -/
theorem integer_texts :
    (∀ s v, integer.parse s = .ok v ↔ ∃ n i, IntegerText s n ∧ -2 ^ 63 ≤ n ∧ n ≤ 2 ^ 63 - 1 ∧
      i.toInt = n ∧ v = .integer i) ∧
    (∀ s, (∀ v, integer.parse s ≠ .ok v) → integer.parse s = .error (.unreadable .integer s)) ∧
    ∀ (i : Int64) (before after : List Char), (∀ c ∈ before, Text.isBlank c) →
      (∀ c ∈ after, Text.isBlank c) →
      integer.parse (String.ofList (before ++ (Value.integer i).text.toList ++ after)) =
        .ok (.integer i) := by
  refine ⟨fun s v => parse_integer_iff, fun s => parse_error, fun i before after blank blank' => ?_⟩
  have range := Integer64.inRange_toInt i
  unfold Integer64.InRange at range
  have denotes := Numeral.readInt?_eq_some_iff.1 (Numeral.readInt?_ofInt i.toInt)
  refine parse_integer_iff.2 ⟨i.toInt, i, ⟨_, ?_, denotes⟩, by omega, by omega, rfl, rfl⟩
  simpa [Value.text] using trimmed_ofInt i.toInt blank blank'

/-- The least integer with zeros in front and white space of two kinds around it, the first integer
that is too great, and a written one between tabs. -/
theorem extreme_texts :
    integer.parse "\u3000-009223372036854775808\n" = .ok (.integer Int64.minValue) ∧
      integer.parse " 9223372036854775808" = .error (.unreadable .integer " 9223372036854775808") ∧
      integer.parse "\t7\t" = .ok (.integer 7) := by
  refine ⟨?_, ?_, ?_⟩
  · let ds := ['0', '0', '9', '2', '2', '3', '3', '7', '2', '0', '3', '6', '8', '5', '4', '7', '7',
      '5', '8', '0', '8']
    have digits : Numeral.Digits ds := ⟨List.cons_ne_nil _ _, List.all_eq_true.1 rfl⟩
    have inked : ∀ c ∈ '-' :: ds, Text.isBlank c = false :=
      List.forall_mem_cons.2 ⟨rfl, fun c hc => Text.isBlank_of_isDigit (digits.2 c hc)⟩
    have trimmed : Text.Trimmed (['\u3000'] ++ ('-' :: ds) ++ ['\n']) ('-' :: ds) :=
      Text.trimmed_of_inked (List.forall_mem_singleton.2 rfl) (List.forall_mem_singleton.2 rfl)
        inked
    exact (integer_texts.1 _ _).2 ⟨-9223372036854775808, Int64.minValue,
      ⟨_, trimmed, .minus digits⟩, by norm_num, by norm_num, by decide, rfl⟩
  · refine integer_texts.2.1 _ fun v read => ?_
    have := parse_eq_ok_iff.1 read
    rw [show integer.read? " 9223372036854775808" = none from rfl] at this
    cases this
  · have tab : ∀ c ∈ ['\t'], Text.isBlank c := List.forall_mem_singleton.2 rfl
    exact integer_texts.2.2 7 ['\t'] ['\t'] tab tab

end ColumnType
end PullAlgebra
