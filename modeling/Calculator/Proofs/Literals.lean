import Calculator.Decimal.Literal
import Mathlib.Data.List.TakeWhile

/-!
Which runs of literal characters are numbers.

The reader takes the digits in front, looks for a point behind them and insists on digits for the
rest. That comes down to two counts: there is a digit, and there is no second point.
-/

set_option autoImplicit false

namespace Calculator.Decimal

def IsNumeral (run : List Char) : Prop :=
  (∃ character ∈ run, character.isDigit = true) ∧ run.count '.' ≤ 1

theorem isDigit_or_point {character : Char} (literal : isLiteralCharacter character = true) :
    character.isDigit = true ∨ character = '.' := by
  simpa [isLiteralCharacter] using literal

theorem digit_bounds {character : Char} (digit : character.isDigit = true) :
    48 ≤ character.toNat ∧ character.toNat ≤ 57 := by
  simpa [Char.isDigit, UInt32.le_iff_toNat_le] using digit

theorem count_point_eq_zero_iff {part : List Char}
    (literal : ∀ character ∈ part, isLiteralCharacter character = true) :
    part.count '.' = 0 ↔ part.all Char.isDigit = true := by
  rw [List.count_eq_zero, List.all_eq_true]
  constructor
  · intro noPoint character member
    rcases isDigit_or_point (literal character member) with digit | rfl
    · exact digit
    · exact (noPoint member).elim
  · intro digits point
    exact absurd (digits '.' point) (by decide)

theorem ofDigits?_isSome_iff (whole fraction : List Char) :
    (ofDigits? whole fraction).isSome = true ↔ whole ++ fraction ≠ [] := by
  unfold ofDigits?
  split
  case isTrue empty => simp [empty]
  case isFalse nonempty => simp [nonempty]

theorem exists_digit_iff {digits : List Char} (all : digits.all Char.isDigit = true) :
    (∃ character ∈ digits, character.isDigit = true) ↔ digits ≠ [] := by
  constructor
  · rintro ⟨character, member, _⟩ rfl
    cases member
  · intro nonempty
    obtain ⟨first, member⟩ := List.exists_mem_of_ne_nil digits nonempty
    exact ⟨first, member, List.all_eq_true.mp all first member⟩

theorem digits_or_point {run : List Char}
    (literal : ∀ character ∈ run, isLiteralCharacter character = true) :
    run.all Char.isDigit = true ∨
      ∃ whole fraction, run = whole ++ '.' :: fraction ∧ whole.all Char.isDigit = true := by
  induction run with
  | nil => exact Or.inl rfl
  | cons first run ih =>
      obtain ⟨here, later⟩ := List.forall_mem_cons.mp literal
      rcases isDigit_or_point here with digit | rfl
      · rcases ih later with digits | ⟨whole, fraction, rfl, digits⟩
        · exact Or.inl (by simp [digit, digits])
        · exact Or.inr ⟨first :: whole, fraction, rfl, by simp [digit, digits]⟩
      · exact Or.inr ⟨[], run, rfl, rfl⟩

theorem ofLiteral?_of_digits {whole : List Char} (digits : whole.all Char.isDigit = true) :
    ofLiteral? whole = ofDigits? whole [] := by
  have all := List.all_eq_true.mp digits
  unfold ofLiteral?
  rw [List.takeWhile_eq_self_iff.mpr all, List.dropWhile_eq_nil_iff.mpr all]

theorem ofLiteral?_of_point {whole : List Char} (digits : whole.all Char.isDigit = true)
    (fraction : List Char) :
    ofLiteral? (whole ++ '.' :: fraction) =
      if fraction.all Char.isDigit then ofDigits? whole fraction else none := by
  have all := List.all_eq_true.mp digits
  have point : '.'.isDigit = false := by decide
  unfold ofLiteral?
  rw [List.takeWhile_append_of_pos all, List.dropWhile_append_of_pos all]
  simp [point]

/-- A run of literal characters is read if it has a digit and at most one point, however long it
is. -/
theorem ofLiteral?_isSome_iff {run : List Char}
    (literal : ∀ character ∈ run, isLiteralCharacter character = true) :
    (ofLiteral? run).isSome = true ↔ IsNumeral run := by
  rcases digits_or_point literal with digits | ⟨whole, fraction, rfl, digits⟩
  · have noPoint := (count_point_eq_zero_iff literal).mpr digits
    rw [ofLiteral?_of_digits digits, ofDigits?_isSome_iff, List.append_nil, IsNumeral,
      exists_digit_iff digits, noPoint]
    simp
  · have front := (count_point_eq_zero_iff fun character member =>
      literal character (List.mem_append_left _ member)).mpr digits
    have behind := count_point_eq_zero_iff fun character member =>
      literal character (List.mem_append_right whole (List.mem_cons_of_mem '.' member))
    have points : (whole ++ '.' :: fraction).count '.' = fraction.count '.' + 1 := by
      rw [List.count_append, front, List.count_cons_self, Nat.zero_add]
    rw [ofLiteral?_of_point digits, IsNumeral, points]
    by_cases moreDigits : fraction.all Char.isDigit = true
    · have all : (whole ++ fraction).all Char.isDigit = true := by
        rw [List.all_append, digits, moreDigits, Bool.and_self]
      have same : (∃ character ∈ whole ++ '.' :: fraction, character.isDigit = true) ↔
          ∃ character ∈ whole ++ fraction, character.isDigit = true := by
        simp [or_and_right, exists_or]
      rw [if_pos moreDigits, ofDigits?_isSome_iff, same, exists_digit_iff all,
        behind.mpr moreDigits]
      simp
    · have more := mt behind.mp moreDigits
      simp [moreDigits, more]

end Calculator.Decimal
