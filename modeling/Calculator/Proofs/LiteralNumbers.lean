import Calculator.Proofs.Legibility
import Calculator.Proofs.NearestValue

/-!
The numbers that literals denote.

A numeral denotes a number place by place, whatever way a reader goes about it. Here the reader
makes one whole number of all digits and divides it once. The number is the same, so a literal is
the value that its number rounds to, and every other way to write the number is read alike.
-/

set_option autoImplicit false

namespace Calculator

namespace Binary64

structure RoundsTo (number : ℚ) (value : Float) : Prop where
  isNumber : isNaN value = false
  positive : isNegative value = false
  nearest : Nearest number (rank value)

theorem RoundsTo.unique {number : ℚ} {value other : Float} (rounds : RoundsTo number value)
    (rounds' : RoundsTo number other) : value = other := by
  rw [← ofRank_rank rounds.isNumber, ← ofRank_rank rounds'.isNumber, rounds.positive,
    rounds'.positive, rounds.nearest.unique rounds'.nearest]

namespace RoundsTo

variable {number : ℚ} {value : Float}

/-- From the middle between the greatest value and the power of two behind it, numbers are too
large. -/
theorem isInfinite_iff (rounds : RoundsTo number value) :
    isInfinite value = true ↔ 2 ^ 1024 - 2 ^ 970 ≤ number := by
  have below := rounds.nearest.le_iff (show infinityRank - 1 < infinityRank by decide)
  have next : infinityRank - 1 + 1 = infinityRank := by decide
  have odd : (infinityRank - 1) % 2 = 1 := by decide
  have double : (2 : ℚ) ^ 971 = 2 * 2 ^ 970 := pow_succ' 2 970
  rw [next, magnitude_greatest_finite, magnitude_infinity, odd, double] at below
  have bound := rounds.nearest.bounded
  have infinite : isInfinite value = true ↔ ¬rank value ≤ infinityRank - 1 := by
    rw [isInfinite, decide_eq_true_eq]
    omega
  rw [infinite, below]
  simp only [one_ne_zero, and_false, or_false, not_lt]
  generalize (2 : ℚ) ^ 1024 = top
  generalize (2 : ℚ) ^ 970 = half
  constructor <;> intro <;> linarith

/-- Up to the middle in front of the least normal value, numbers are subnormal or zero. -/
theorem subnormal_iff (rounds : RoundsTo number value) :
    rank value < blockSize ↔ number < 1 / 2 ^ 1022 - 1 / 2 ^ 1075 := by
  have below := rounds.nearest.le_iff (show blockSize - 1 < infinityRank by decide)
  have next : blockSize - 1 + 1 = blockSize := by decide
  have odd : (blockSize - 1) % 2 = 1 := by decide
  have double : (1 : ℚ) / 2 ^ 1074 = 2 * (1 / 2 ^ 1075) := by
    rw [pow_succ (2 : ℚ) 1074]
    field_simp
  rw [next, magnitude_greatest_subnormal, magnitude_least_normal, odd, double] at below
  have less : rank value < blockSize ↔ rank value ≤ blockSize - 1 := by
    have positive : 0 < blockSize := by decide
    omega
  rw [less, below]
  simp only [one_ne_zero, and_false, or_false]
  generalize (1 : ℚ) / 2 ^ 1022 = normal
  generalize (1 : ℚ) / 2 ^ 1075 = half
  constructor <;> intro <;> linarith

/-- Half a quantum still rounds to zero, which is even. -/
theorem zero_iff (rounds : RoundsTo number value) :
    rank value = 0 ↔ number ≤ 1 / 2 ^ 1075 := by
  have below := rounds.nearest.le_iff (show 0 < infinityRank by decide)
  have double : (1 : ℚ) / 2 ^ 1074 = 2 * (1 / 2 ^ 1075) := by
    rw [pow_succ (2 : ℚ) 1074]
    field_simp
  rw [magnitude_zero, magnitude_one, double, zero_add, Nat.le_zero] at below
  rw [below]
  simp only [Nat.zero_mod, and_true, ← le_iff_lt_or_eq]
  generalize (1 : ℚ) / 2 ^ 1075 = half
  constructor <;> intro <;> linarith

end RoundsTo

end Binary64

namespace Decimal

open Binary64

theorem roundsTo_toFloat (decimal : Decimal) : RoundsTo decimal.toRat decimal.toFloat := by
  have nearest := decimal.nearest_rank
  have place : Binary64.rank decimal.toFloat = decimal.rank := by
    rw [toFloat, rank_ofRank, Nat.min_eq_left nearest.bounded]
  refine ⟨?_, isNegative_ofRank false decimal.rank, ?_⟩
  · rw [isNaN, place]
    exact decide_eq_false (Nat.not_lt.mpr nearest.bounded)
  · rw [place]
    exact nearest

def digitNumber (digit : Char) : Nat := digit.toNat - '0'.toNat

/-- The number of the digits behind a point. Each counts tenths of a unit of the place before. -/
def tenths : List Char → ℚ
  | [] => 0
  | digit :: later => (digitNumber digit + tenths later) / 10

/-- The number that a numeral denotes when it goes on behind digits of the given number. -/
def denotedBehind (number : ℚ) : List Char → ℚ
  | [] => number
  | character :: later =>
      if character = '.' then number + tenths later
      else denotedBehind (10 * number + digitNumber character) later

/-- The number that a numeral denotes, place by place. -/
def denoted (numeral : List Char) : ℚ := denotedBehind 0 numeral

theorem ofDigitChars_cons_zero (digit : Char) (digits : List Char) :
    Nat.ofDigitChars 10 (digit :: digits) 0 =
      10 ^ digits.length * digitNumber digit + Nat.ofDigitChars 10 digits 0 := by
  rw [Nat.ofDigitChars_cons, Nat.mul_zero, Nat.zero_add]
  exact Nat.ofDigitChars_eq_ofDigitChars_zero

theorem denotedBehind_digits {digits : List Char} (all : digits.all Char.isDigit = true)
    (number : ℚ) (later : List Char) :
    denotedBehind number (digits ++ later) =
      denotedBehind (10 ^ digits.length * number + Nat.ofDigitChars 10 digits 0) later := by
  induction digits generalizing number with
  | nil => simp [Nat.ofDigitChars_nil]
  | cons digit digits ih =>
      rw [List.all_cons, Bool.and_eq_true] at all
      have notPoint : digit ≠ '.' := by
        rintro rfl
        exact absurd all.1 (by decide)
      rw [List.cons_append, denotedBehind, if_neg notPoint, ih all.2, ofDigitChars_cons_zero,
        List.length_cons]
      congr 1
      push_cast
      ring

theorem tenths_eq (digits : List Char) :
    tenths digits = (Nat.ofDigitChars 10 digits 0 : ℚ) / 10 ^ digits.length := by
  induction digits with
  | nil => simp [tenths, Nat.ofDigitChars_nil]
  | cons digit digits ih =>
      rw [tenths, ih, ofDigitChars_cons_zero, List.length_cons]
      push_cast
      field_simp
      ring

theorem toRat_of_ofDigits? {whole fraction : List Char} {decimal : Decimal}
    (read : ofDigits? whole fraction = some decimal) :
    decimal.toRat = Nat.ofDigitChars 10 whole 0 + tenths fraction := by
  unfold ofDigits? at read
  split at read
  case isTrue => cases read
  case isFalse =>
    cases read
    have number : (Nat.ofDigitChars 10 (whole ++ fraction) 0 : ℚ) =
        10 ^ fraction.length * Nat.ofDigitChars 10 whole 0 + Nat.ofDigitChars 10 fraction 0 := by
      rw [Nat.ofDigitChars_append, Nat.ofDigitChars_eq_ofDigitChars_zero]
      push_cast
      rfl
    have places : (-(-(fraction.length : Int))).toNat = fraction.length := by omega
    have flat : (-(fraction.length : Int)).toNat = 0 := by omega
    simp only [toRat, numerator, denominator, places, flat, tenths_eq]
    push_cast
    rw [number]
    field_simp

theorem toRat_of_ofLiteral? {run : List Char} {decimal : Decimal}
    (literal : ∀ character ∈ run, isLiteralCharacter character = true)
    (read : ofLiteral? run = some decimal) : decimal.toRat = denoted run := by
  rcases digits_or_point literal with digits | ⟨whole, fraction, rfl, digits⟩
  · rw [ofLiteral?_of_digits digits] at read
    have behind := denotedBehind_digits digits 0 []
    rw [List.append_nil, mul_zero, zero_add] at behind
    rw [toRat_of_ofDigits? read, denoted, behind, denotedBehind, tenths, add_zero]
  · rw [ofLiteral?_of_point digits] at read
    split at read
    case isFalse => cases read
    case isTrue =>
      rw [toRat_of_ofDigits? read, denoted, denotedBehind_digits digits, denotedBehind,
        if_pos rfl, mul_zero, zero_add]

theorem tenths_zeros (zeros : Nat) : tenths (List.replicate zeros '0') = 0 := by
  rw [tenths_eq, Nat.ofDigitChars_replicate_zero]
  simp

theorem tenths_append_zeros (digits : List Char) (zeros : Nat) :
    tenths (digits ++ List.replicate zeros '0') = tenths digits := by
  induction digits with
  | nil => exact tenths_zeros zeros
  | cons digit digits ih => rw [List.cons_append, tenths, ih, tenths]

theorem denoted_leading_zeros (zeros : Nat) (run : List Char) :
    denoted (List.replicate zeros '0' ++ run) = denoted run := by
  have digits : (List.replicate zeros '0').all Char.isDigit = true := by
    simp
  rw [denoted, denotedBehind_digits digits, Nat.ofDigitChars_replicate_zero]
  simp [denoted]

theorem denotedBehind_trailing_zeros {run : List Char} (point : '.' ∈ run) (zeros : Nat)
    (number : ℚ) :
    denotedBehind number (run ++ List.replicate zeros '0') = denotedBehind number run := by
  induction run generalizing number with
  | nil => cases point
  | cons character run ih =>
      rw [List.cons_append, denotedBehind, denotedBehind]
      split
      case isTrue => rw [tenths_append_zeros]
      case isFalse other =>
        exact ih (List.mem_of_ne_of_mem (Ne.symm other) point) _

theorem denotedBehind_trailing_point {run : List Char} (whole : '.' ∉ run) (zeros : Nat)
    (number : ℚ) :
    denotedBehind number (run ++ '.' :: List.replicate zeros '0') = denotedBehind number run := by
  induction run generalizing number with
  | nil => simp [denotedBehind, tenths_zeros]
  | cons character run ih =>
      rw [List.mem_cons, not_or] at whole
      rw [List.cons_append, denotedBehind, denotedBehind, if_neg (Ne.symm whole.1),
        if_neg (Ne.symm whole.1), ih whole.2]

theorem IsNumeral.leading_zeros {run : List Char} (numeral : IsNumeral run) (zeros : Nat) :
    IsNumeral (List.replicate zeros '0' ++ run) := by
  obtain ⟨⟨digit, member, isDigit⟩, points⟩ := numeral
  refine ⟨⟨digit, List.mem_append_right _ member, isDigit⟩, ?_⟩
  simpa [List.count_replicate] using points

theorem IsNumeral.trailing_zeros {run : List Char} (numeral : IsNumeral run) (zeros : Nat) :
    IsNumeral (run ++ List.replicate zeros '0') := by
  obtain ⟨⟨digit, member, isDigit⟩, points⟩ := numeral
  refine ⟨⟨digit, List.mem_append_left _ member, isDigit⟩, ?_⟩
  simpa [List.count_replicate] using points

theorem IsNumeral.trailing_point {run : List Char} (numeral : IsNumeral run) (whole : '.' ∉ run)
    (zeros : Nat) : IsNumeral (run ++ '.' :: List.replicate zeros '0') := by
  obtain ⟨⟨digit, member, isDigit⟩, _⟩ := numeral
  refine ⟨⟨digit, List.mem_append_left _ member, isDigit⟩, ?_⟩
  simp [List.count_replicate, List.count_eq_zero_of_not_mem whole]

end Decimal

namespace Lexeme

open Binary64 Decimal

theorem number_of_numeral {run : List Char}
    (literal : ∀ character ∈ run, isLiteralCharacter character = true) (numeral : IsNumeral run)
    (start : Nat) :
    ∃ value, token ⟨start, run⟩ = .ok (.number value) ∧ RoundsTo (denoted run) value := by
  obtain ⟨decimal, parsed⟩ :=
    Option.isSome_iff_exists.mp ((ofLiteral?_isSome_iff literal).mpr numeral)
  have rounds := decimal.roundsTo_toFloat
  rw [toRat_of_ofLiteral? literal parsed] at rounds
  refine ⟨decimal.toFloat, ?_, rounds⟩
  rw [token_of_run literal, parsed]
  rfl

theorem token_eq_number_iff {run : List Char}
    (literal : ∀ character ∈ run, isLiteralCharacter character = true) (start : Nat)
    (value : Float) :
    token ⟨start, run⟩ = .ok (.number value) ↔ IsNumeral run ∧ RoundsTo (denoted run) value := by
  by_cases numeral : IsNumeral run
  · obtain ⟨number, reads, rounds⟩ := number_of_numeral literal numeral start
    rw [reads]
    constructor
    · intro same
      rw [← Token.number.inj (Except.ok.inj same)]
      exact ⟨numeral, rounds⟩
    · rintro ⟨_, rounds'⟩
      rw [rounds.unique rounds']
  · have unread : token ⟨start, run⟩ = .error (.invalidNumber run start) :=
      (literal_eq_error_iff literal).mpr ⟨numeral, rfl⟩
    simp [unread, numeral]

/-- A maximal run of digits and points is one lexeme. It is a number if it has a digit and at most
one point, and then it is the value that the denoted number rounds to: too large a number is
infinite, too small a one subnormal or zero, and what denotes the same number is read as the same
value, so that zeros at either end and a point at the end count for nothing. -/
theorem literals_are_rounded_numbers {text front run back : List Char}
    (maximal : MaximalRun text front run back) :
    let reading := token ⟨width front, run⟩
    (∃ later, scan text = scan front ++ ⟨width front, run⟩ :: later) ∧
    ((∃ value, reading = .ok (.number value)) ↔ IsNumeral run) ∧
    (¬IsNumeral run → reading = .error (.invalidNumber run (width front))) ∧
    ∀ value, reading = .ok (.number value) →
      (isNaN value = false ∧ isNegative value = false ∧ Nearest (denoted run) (rank value)) ∧
      (isInfinite value = true ↔ 2 ^ 1024 - 2 ^ 970 ≤ denoted run) ∧
      (rank value < blockSize ↔ denoted run < 1 / 2 ^ 1022 - 1 / 2 ^ 1075) ∧
      (rank value = 0 ↔ denoted run ≤ 1 / 2 ^ 1075) ∧
      (∀ text' front' run' back', MaximalRun text' front' run' back' → IsNumeral run' →
        denoted run' = denoted run → token ⟨width front', run'⟩ = .ok (.number value)) ∧
      ∀ zeros start,
        token ⟨start, List.replicate zeros '0' ++ run⟩ = .ok (.number value) ∧
        ('.' ∈ run → token ⟨start, run ++ List.replicate zeros '0'⟩ = .ok (.number value)) ∧
        ('.' ∉ run →
          token ⟨start, run ++ '.' :: List.replicate zeros '0'⟩ = .ok (.number value)) := by
  intro reading
  have literal := maximal.literal
  refine ⟨?_, ?_, ?_, ?_⟩
  · rw [maximal.parts]
    exact scan_of_piece maximal.cut_before maximal.cut_behind
      (pieces_of_run maximal.nonempty literal) (not_blank_of_run maximal.nonempty literal)
  · constructor
    · rintro ⟨value, reads⟩
      exact ((token_eq_number_iff literal _ value).mp reads).1
    · intro numeral
      obtain ⟨value, reads, _⟩ := number_of_numeral literal numeral (width front)
      exact ⟨value, reads⟩
  · intro malformed
    exact (literal_eq_error_iff literal).mpr ⟨malformed, rfl⟩
  · intro value reads
    obtain ⟨numeral, rounds⟩ := (token_eq_number_iff literal _ value).mp reads
    have same {other : List Char}
        (literal' : ∀ character ∈ other, isLiteralCharacter character = true)
        (numeral' : IsNumeral other) (number : denoted other = denoted run) (start : Nat) :
        token ⟨start, other⟩ = .ok (.number value) :=
      (token_eq_number_iff literal' start value).mpr ⟨numeral', number ▸ rounds⟩
    have zero (zeros : Nat) :
        ∀ character ∈ List.replicate zeros '0', isLiteralCharacter character = true := by
      intro character member
      rw [(List.mem_replicate.mp member).2]
      decide
    refine ⟨⟨rounds.isNumber, rounds.positive, rounds.nearest⟩, rounds.isInfinite_iff,
      rounds.subnormal_iff, rounds.zero_iff, ?_, ?_⟩
    · intro text' front' run' back' maximal' numeral' number
      exact same maximal'.literal numeral' number (width front')
    · intro zeros start
      refine ⟨?_, ?_, ?_⟩
      · exact same (List.forall_mem_append.mpr ⟨zero zeros, literal⟩)
          (numeral.leading_zeros zeros) (denoted_leading_zeros zeros run) start
      · intro point
        exact same (List.forall_mem_append.mpr ⟨literal, zero zeros⟩)
          (numeral.trailing_zeros zeros) (denotedBehind_trailing_zeros point zeros 0) start
      · intro whole
        have literal' : ∀ character ∈ run ++ '.' :: List.replicate zeros '0',
            isLiteralCharacter character = true :=
          List.forall_mem_append.mpr ⟨literal, List.forall_mem_cons.mpr ⟨by decide, zero zeros⟩⟩
        exact same literal' (numeral.trailing_point whole zeros)
          (denotedBehind_trailing_point whole zeros 0) start

/-- A number with zeros at both ends, and a run with two points. -/
theorem literals_are_rounded_numbers_of_two_runs :
    (MaximalRun "2*0012.50 ".toList "2*".toList "0012.50".toList " ".toList ∧
      token ⟨2, "0012.50".toList⟩ = .ok (.number 12.5) ∧
      IsNumeral "0012.50".toList ∧ isNegative 12.5 = false ∧
      token ⟨7, "00012.50".toList⟩ = .ok (.number 12.5) ∧
      token ⟨7, "0012.500".toList⟩ = .ok (.number 12.5)) ∧
    (MaximalRun "1.2.3".toList [] "1.2.3".toList [] ∧ ¬IsNumeral "1.2.3".toList ∧
      token ⟨0, "1.2.3".toList⟩ = .error (.invalidNumber "1.2.3".toList 0)) := by
  have valid : MaximalRun "2*0012.50 ".toList "2*".toList "0012.50".toList " ".toList := by
    refine ⟨rfl, by decide, List.all_eq_true.mp (by decide), ?_, ?_⟩
    · intro last final
      cases final
      rfl
    · intro next first
      cases first
      rfl
  have malformed : MaximalRun "1.2.3".toList [] "1.2.3".toList [] := by
    refine ⟨rfl, by decide, List.all_eq_true.mp (by decide), ?_, ?_⟩
    · intro last final
      cases final
    · intro next first
      cases first
  have twoPoints : ¬IsNumeral "1.2.3".toList := fun numeral => absurd numeral.2 (by decide)
  have reads : token ⟨2, "0012.50".toList⟩ = .ok (.number 12.5) := by decide +kernel
  obtain ⟨_, number, _, values⟩ := literals_are_rounded_numbers valid
  obtain ⟨⟨_, positive, _⟩, _, _, _, _, zeros⟩ := values 12.5 reads
  obtain ⟨leading, trailing, _⟩ := zeros 1 7
  obtain ⟨_, _, error, _⟩ := literals_are_rounded_numbers malformed
  exact ⟨⟨valid, reads, number.mp ⟨_, reads⟩, positive, leading, trailing (by decide)⟩,
    malformed, twoPoints, error twoPoints⟩

end Lexeme

end Calculator
