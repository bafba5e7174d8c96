import PullAlgebra.Proofs.Value.CorrectRounding
import PullAlgebra.Proofs.Value.IntegerTexts

/-!
# PullAlgebra.Proofs.Value.PlainDecimals

The texts that a float column keeps as numbers: digits on both sides of a point, with a minus in
front or not, whose nearest double is finite. The pattern in front of the reader lets the digits of
all scripts through and the reader lets exponents through, but no text with either passes both. What
a column keeps it also reads, from the text as it is.

* `Decimal.isPlain_iff`: the pattern.
* `Decimal.splitPoint_spec`: the reader takes as many digits as there are.
* `Decimal.plainText_iff`: what the pattern and the reader have in common.
* `ColumnType.plain_texts`: what a float column keeps of a text.
-/

namespace PullAlgebra

namespace Decimal

open Numeral (Digits placeValue)
open Text (isDecimalDigit)

variable {cs body whole places rest : List Char} {d : Decimal}

/-- Digits on both sides of a point, with a minus in front or not, and the number that they
denote. -/
inductive PlainText : List Char → Decimal → Prop
  | point (negative : Bool) {whole places : List Char} : Digits whole → Digits places →
      PlainText (signed negative (whole ++ '.' :: places))
        ⟨negative, placeValue (whole ++ places), -places.length⟩

/-- Digits of any scripts on both sides of a point. -/
def PlainBody (body : List Char) : Prop :=
  ∃ whole places, body = whole ++ '.' :: places ∧ whole ≠ [] ∧ (∀ c ∈ whole, isDecimalDigit c) ∧
    places ≠ [] ∧ ∀ c ∈ places, isDecimalDigit c

theorem exists_first (h : PlainBody body) : ∃ c rest, body = c :: rest ∧ isDecimalDigit c := by
  obtain ⟨whole, places, rfl, present, digits, -⟩ := h
  obtain ⟨c, rest, rfl⟩ := List.exists_cons_of_ne_nil present
  exact ⟨c, rest ++ '.' :: places, rfl, digits c (List.mem_cons_self ..)⟩

/-! ## The pattern -/

theorem plainBody_iff : (match body.dropWhile isDecimalDigit with
    | '.' :: places => decide (body.takeWhile isDecimalDigit ≠ [] ∧ places ≠ []) &&
        places.all isDecimalDigit
    | _ => false) = true ↔ PlainBody body := by
  constructor
  · intro h
    split at h
    case h_1 places after =>
      simp only [Bool.and_eq_true, decide_eq_true_eq, List.all_eq_true] at h
      obtain ⟨⟨present, present'⟩, digits⟩ := h
      refine ⟨body.takeWhile isDecimalDigit, places, ?_, present,
        fun c hc => List.mem_takeWhile_imp hc, present', digits⟩
      rw [← after, List.takeWhile_append_dropWhile]
    case h_2 => cases h
  · rintro ⟨whole, places, rfl, present, digits, present', digits'⟩
    have stop : ¬isDecimalDigit '.' := by decide
    simp only [takeWhile_of_stop digits stop, dropWhile_of_stop digits stop]
    simpa [present, present'] using digits'

theorem isPlain_minus : isPlain ('-' :: body) ↔ PlainBody body := plainBody_iff

/-- A body is matched in the same way with a minus in front and without. -/
theorem isPlain_of_ne {c : Char} (h : c ≠ '-') : isPlain (c :: rest) ↔ PlainBody (c :: rest) := by
  have same : isPlain (c :: rest) = isPlain ('-' :: c :: rest) := by simp [isPlain, h]
  rw [same]
  exact isPlain_minus

theorem isPlain_iff :
    isPlain cs ↔ ∃ negative body, cs = signed negative body ∧ PlainBody body := by
  constructor
  · intro h
    cases cs with
    | nil => cases h
    | cons c rest =>
      by_cases minus : c = '-'
      · subst minus
        exact ⟨true, rest, rfl, isPlain_minus.1 h⟩
      · exact ⟨false, c :: rest, rfl, (isPlain_of_ne minus).1 h⟩
  · rintro ⟨negative, body, rfl, h⟩
    cases negative with
    | true => exact isPlain_minus.2 h
    | false =>
      obtain ⟨c, rest, rfl, digit⟩ := exists_first h
      refine (isPlain_of_ne ?_).2 h
      rintro rfl
      cases digit

/-! ## The reader -/

/-- The digits around the first point after digits, and what comes behind them. -/
theorem splitPoint_spec (h : splitPoint cs = (whole, places, rest)) :
    (∀ c ∈ whole, c.isDigit) ∧ (∀ c ∈ places, c.isDigit) ∧
      (cs = whole ++ '.' :: places ++ rest ∨ cs = whole ++ rest) := by
  have run : cs.takeWhile Char.isDigit ++ cs.dropWhile Char.isDigit = cs :=
    List.takeWhile_append_dropWhile
  unfold splitPoint at h
  dsimp only at h
  split at h
  case h_1 after stop =>
    cases h
    refine ⟨fun c hc => List.mem_takeWhile_imp hc, fun c hc => List.mem_takeWhile_imp hc, .inl ?_⟩
    rw [List.append_assoc, List.cons_append, List.takeWhile_append_dropWhile, ← stop, run]
  case h_2 =>
    cases h
    exact ⟨fun c hc => List.mem_takeWhile_imp hc, nofun, .inr run.symm⟩

/-- A digit of any script is no sign. -/
theorem splitSign_of_plainBody (negative : Bool) (h : PlainBody body) :
    Numeral.splitSign (signed negative body) = (negative, body) := by
  cases negative with
  | true => rfl
  | false =>
    obtain ⟨c, rest, rfl, digit⟩ := exists_first h
    exact Numeral.splitSign_of_ne (by rintro rfl; cases digit) (by rintro rfl; cases digit) rest

/-- What follows the digits is nothing or an exponent, which begins with a letter. -/
theorem rest_of_readExponent? {e : Int} (h : readExponent? rest = some e) :
    rest = [] ∨ ∃ c tail, rest = c :: tail ∧ (c = 'e' ∨ c = 'E') := by
  unfold readExponent? at h
  split at h
  case h_1 => exact .inl rfl
  case h_2 c tail =>
    split at h
    · exact .inr ⟨c, tail, rfl, ‹_›⟩
    · cases h

theorem digit_or_point_of_plainBody (h : PlainBody body) :
    ∀ c ∈ body, isDecimalDigit c ∨ c = '.' := by
  obtain ⟨whole, places, rfl, -, digits, -, digits'⟩ := h
  exact List.forall_mem_append.2 ⟨fun c hc => .inl (digits c hc),
    List.forall_mem_cons.2 ⟨.inr rfl, fun c hc => .inl (digits' c hc)⟩⟩

/-- In a body that the reader takes, there are no other digits than those that it knows. -/
theorem digit_of_read? {negative : Bool} (plain : PlainBody body)
    (read : read? (signed negative body) = some d) {c : Char} (hc : c ∈ body)
    (digit : isDecimalDigit c) : c.isDigit := by
  obtain ⟨w, p, rest, parts⟩ : ∃ w p rest, splitPoint body = (w, p, rest) := ⟨_, _, _, rfl⟩
  obtain ⟨digits, digits', shape⟩ := splitPoint_spec parts
  simp only [read?, splitSign_of_plainBody negative plain, parts] at read
  split at read
  · cases read
  · obtain ⟨e, exponent, -⟩ := Option.map_eq_some_iff.1 read
    have nothing : rest = [] := by
      refine (rest_of_readExponent? exponent).resolve_right ?_
      rintro ⟨c, tail, rfl, letter⟩
      have member : c ∈ body := by
        rcases shape with rfl | rfl <;> simp
      rcases digit_or_point_of_plainBody plain c member with digit | rfl
      · rcases letter with rfl | rfl <;> cases digit
      · simp at letter
    subst nothing
    have known : c.isDigit ∨ c = '.' := by
      rcases shape with rfl | rfl
      · simp only [List.append_nil, List.mem_append, List.mem_cons] at hc
        rcases hc with hc | rfl | hc
        · exact .inl (digits c hc)
        · exact .inr rfl
        · exact .inl (digits' c hc)
      · exact .inl (digits c (by simpa using hc))
    refine known.resolve_right ?_
    rintro rfl
    cases digit

/-! ## Both together -/

theorem plainText_iff : PlainText cs d ↔ isPlain cs ∧ read? cs = some d := by
  constructor
  · rintro ⟨negative, digits, digits'⟩
    refine ⟨isPlain_iff.2 ⟨negative, _, rfl, _, _, rfl, digits.1, ?_, digits'.1, ?_⟩, ?_⟩
    · exact fun c hc => Text.isDecimalDigit_of_isDigit (digits.2 c hc)
    · exact fun c hc => Text.isDecimalDigit_of_isDigit (digits'.2 c hc)
    · rw [read?_of_point negative digits.2 digits.1 digits'.2, Numeral.value_eq]
  · rintro ⟨plain, read⟩
    obtain ⟨negative, body, rfl, pattern⟩ := isPlain_iff.1 plain
    have ⟨whole, places, split, present, digits, present', digits'⟩ := pattern
    subst split
    have known : ∀ c ∈ whole, c.isDigit := fun c hc =>
      digit_of_read? pattern read (by simp [hc]) (digits c hc)
    have known' : ∀ c ∈ places, c.isDigit := fun c hc =>
      digit_of_read? pattern read (by simp [hc]) (digits' c hc)
    rw [read?_of_point negative known present known', Numeral.value_eq] at read
    cases read
    exact .point negative ⟨present, known⟩ ⟨present', known'⟩

theorem PlainText.trim_eq (h : PlainText cs d) : Text.trim cs = cs := by
  cases h with
  | point negative digits digits' =>
    have inked : ∀ c, c.isDigit → Text.isBlank c = false := fun c => Text.isBlank_of_isDigit
    exact Text.trim_eq_self (isBlank_of_mem_signed (List.forall_mem_append.2
      ⟨fun c hc => inked c (digits.2 c hc), List.forall_mem_cons.2
        ⟨by decide, fun c hc => inked c (digits'.2 c hc)⟩⟩))

end Decimal

namespace ColumnType

variable {s : String} {x : Float}

theorem plainDecimal?_eq_some_iff : plainDecimal? s = some x ↔
    ∃ d, Decimal.PlainText s.toList d ∧ d.toFloat = x ∧ x.isFinite := by
  simp only [Decimal.plainText_iff, plainDecimal?]
  split
  case isTrue plain => simp [plain, Option.filter_eq_some_iff, ← and_assoc, exists_and_right]
  case isFalse other => simp [other]

/-- The text is not trimmed before it goes to the reader, but nothing would be taken from it. -/
theorem read?_of_plainDecimal? (h : plainDecimal? s = some x) :
    float.read? s = some (.float x) := by
  obtain ⟨d, plain, rfl, finite⟩ := plainDecimal?_eq_some_iff.1 h
  simp [read?, plain.trim_eq, (Decimal.plainText_iff.1 plain).2, finite]

theorem stored?_text_iff {v : Value} :
    float.stored? (.string s) = some v ↔ ∃ x, plainDecimal? s = some x ∧ v = .float x := by
  simp [stored?, eq_comm]

/-- A float column keeps a text exactly if there are digits on both sides of a point, with a minus
in front or not, and the number is below the halfway point between the greatest finite double and
the next power of two. It keeps the double nearest to the number, a tie going to the even one, and
reads the same double from the text. -/
theorem plain_texts (s : String) :
    ((∃ v, float.stored? (.string s) = some v) ↔
      ∃ d, Decimal.PlainText s.toList d ∧ d.magnitude < Binary64.overflow) ∧
    ∀ v, float.stored? (.string s) = some v → float.parse s = .ok v ∧
      ∃ x d b, v = .float x ∧ Decimal.PlainText s.toList d ∧ Binary64.decode? x = some b ∧
        Binary64.NearestTo d.negative d.magnitude b := by
  refine ⟨⟨?_, ?_⟩, ?_⟩
  · rintro ⟨v, stored⟩
    obtain ⟨x, plain, rfl⟩ := stored?_text_iff.1 stored
    obtain ⟨d, text, rfl, finite⟩ := plainDecimal?_eq_some_iff.1 plain
    exact ⟨d, text, d.isFinite_toFloat_iff.1 finite⟩
  · rintro ⟨d, text, bound⟩
    have plain := plainDecimal?_eq_some_iff.2 ⟨d, text, rfl, d.isFinite_toFloat_iff.2 bound⟩
    exact ⟨_, stored?_text_iff.2 ⟨_, plain, rfl⟩⟩
  · intro v stored
    obtain ⟨x, plain, rfl⟩ := stored?_text_iff.1 stored
    refine ⟨parse_eq_ok_iff.2 (read?_of_plainDecimal? plain), ?_⟩
    obtain ⟨d, text, rfl, finite⟩ := plainDecimal?_eq_some_iff.1 plain
    obtain ⟨b, decoded, nearest⟩ := Decimal.exists_toFloat (d.isFinite_toFloat_iff.1 finite)
    exact ⟨_, d, b, rfl, text, decoded, nearest⟩

/-- The number halfway between two doubles. -/
theorem halfway_text_kept : float.parse "9007199254740993.0" =
    .ok (.float (Float.ofBits 0x4340000000000000)) := by
  refine ((plain_texts _).2 _ ?_).1
  rfl

/-- Digits that the pattern knows and the reader does not. -/
example : Decimal.isPlain "٣.٥".toList ∧ float.stored? (.string "٣.٥") = none := by decide

end ColumnType
end PullAlgebra
