import Calculator.Decimal.Layout
import Calculator.Proofs.FewestDigits
import Calculator.Proofs.LiteralNumbers

/-!
What the two layouts of a decimal denote.

The digits on both sides of a point are the quotient and the rest of one division, so they denote
the decimal, and the layout is a literal. The layout with an exponent is a literal up to the mark,
and behind the mark stands the power of ten that is missing.
-/

set_option autoImplicit false

namespace Calculator.Decimal

attribute [local instance (high)] instPowNat

structure Writes (run : List Char) (number : ℚ) : Prop where
  literal : ∀ character ∈ run, isLiteralCharacter character = true
  numeral : IsNumeral run
  denotes : denoted run = number

theorem all_isDigit_toDigits (number : Nat) : (Nat.toDigits 10 number).all Char.isDigit = true :=
  List.all_eq_true.mpr fun _ member => Nat.isDigit_of_mem_toDigits (by decide) (by decide) member

theorem literal_of_digits {digits : List Char} (all : digits.all Char.isDigit = true) :
    ∀ character ∈ digits, isLiteralCharacter character = true := by
  intro character member
  rw [isLiteralCharacter, List.all_eq_true.mp all character member, Bool.true_or]

theorem writes_digits {digits : List Char} (nonempty : digits ≠ [])
    (all : digits.all Char.isDigit = true) : Writes digits (Nat.ofDigitChars 10 digits 0) := by
  have literal := literal_of_digits all
  refine ⟨literal, ⟨(exists_digit_iff all).mpr nonempty, ?_⟩, ?_⟩
  · rw [(count_point_eq_zero_iff literal).mpr all]
    exact Nat.zero_le 1
  · have denotes := denotedBehind_digits all 0 []
    rwa [List.append_nil, mul_zero, zero_add] at denotes

theorem writes_point {whole fraction : List Char} (nonempty : whole ≠ [])
    (digits : whole.all Char.isDigit = true) (digits' : fraction.all Char.isDigit = true) :
    Writes (whole ++ '.' :: fraction) (Nat.ofDigitChars 10 whole 0 + tenths fraction) := by
  have literal := literal_of_digits digits
  have literal' := literal_of_digits digits'
  obtain ⟨digit, member, isDigit⟩ := (exists_digit_iff digits).mpr nonempty
  refine ⟨List.forall_mem_append.mpr ⟨literal, List.forall_mem_cons.mpr ⟨by decide, literal'⟩⟩,
    ⟨⟨digit, List.mem_append_left _ member, isDigit⟩, ?_⟩, ?_⟩
  · rw [List.count_append, List.count_cons_self, (count_point_eq_zero_iff literal).mpr digits,
      (count_point_eq_zero_iff literal').mpr digits']
  · rw [denoted, denotedBehind_digits digits, denotedBehind, if_pos rfl, mul_zero, zero_add]

theorem tenths_leftpad {rest places : Nat} (positive : 0 < places) (small : rest < 10 ^ places) :
    tenths (List.leftpad places '0' (Nat.toDigits 10 rest)) = (rest : ℚ) / 10 ^ places := by
  have short := (Nat.length_toDigits_le_iff (by decide) positive).mpr small
  have number : Nat.ofDigitChars 10 (List.leftpad places '0' (Nat.toDigits 10 rest)) 0 = rest := by
    rw [List.leftpad, Nat.ofDigitChars_append, Nat.ofDigitChars_replicate_zero, Nat.mul_zero,
      Nat.ofDigitChars_ten_toDigits]
  rw [tenths_eq, number, List.length_leftpad, Nat.max_eq_left short]

theorem writes_positional (decimal : Decimal) : Writes decimal.positional decimal.toRat := by
  let places := max 1 (-decimal.exponent).toNat
  let scaled := decimal.digits * 10 ^ (decimal.exponent + places).toNat
  have positive : 0 < places := Nat.lt_of_lt_of_le Nat.one_pos (Nat.le_max_left ..)
  have power : 0 < 10 ^ places := Nat.pow_pos (by decide)
  have padded : (List.leftpad places '0' (Nat.toDigits 10 (scaled % 10 ^ places))).all
      Char.isDigit = true := by
    rw [List.leftpad, List.all_append, all_isDigit_toDigits, Bool.and_true]
    simp
  have writes := writes_point Nat.toDigits_ne_nil (all_isDigit_toDigits (scaled / 10 ^ places))
    padded
  rw [Nat.ofDigitChars_ten_toDigits, tenths_leftpad positive (Nat.mod_lt _ power)] at writes
  have parts : ((scaled / 10 ^ places : Nat) : ℚ) +
      ((scaled % 10 ^ places : Nat) : ℚ) / 10 ^ places = scaled / 10 ^ places := by
    rw [eq_div_iff (by positivity), add_mul, div_mul_cancel₀ _ (by positivity)]
    exact_mod_cast Nat.div_add_mod' scaled (10 ^ places)
  have number : (scaled : ℚ) / 10 ^ places = decimal.toRat := by
    have up : (((decimal.exponent + places).toNat : Nat) : Int) = decimal.exponent + places := by
      omega
    rw [toRat_eq, div_eq_iff (by positivity), mul_assoc]
    simp only [scaled]
    push_cast
    rw [← zpow_natCast, ← zpow_natCast, up, zpow_add₀ (by norm_num)]
  rw [parts, number] at writes
  exact writes

/-- Digits with a point behind the first denote the number of all of them, divided once for each
that stands behind the point. -/
theorem writes_mantissa {first : Char} {others : List Char}
    (digits : (first :: others).all Char.isDigit = true) :
    Writes (first :: if others.isEmpty then [] else '.' :: others)
      ((Nat.ofDigitChars 10 (first :: others) 0 : ℚ) / 10 ^ others.length) := by
  have all := Bool.and_eq_true_iff.mp (List.all_cons.symm.trans digits)
  have here : [first].all Char.isDigit = true := by
    rw [List.all_cons, all.1, List.all_nil, Bool.and_true]
  cases others with
  | nil =>
      rw [List.length_nil, pow_zero, div_one]
      exact writes_digits (List.cons_ne_nil first []) here
  | cons second others =>
      have writes := writes_point (List.cons_ne_nil first []) here all.2
      have number : (Nat.ofDigitChars 10 [first] 0 : ℚ) + tenths (second :: others) =
          (Nat.ofDigitChars 10 (first :: second :: others) 0 : ℚ) /
            10 ^ (second :: others).length := by
        rw [tenths_eq, ofDigitChars_cons_zero first (second :: others),
          ofDigitChars_cons_zero first []]
        simp only [List.length_nil, pow_zero, Nat.ofDigitChars_nil]
        push_cast
        field_simp
        ring
      rwa [number] at writes

theorem digits_ne_zero {decimal : Decimal} (nonzero : decimal.rank ≠ 0) : decimal.digits ≠ 0 := by
  intro noDigits
  have zero : decimal.toRat = (⟨0, 0⟩ : Decimal).toRat := by
    rw [toRat_eq, toRat_eq, noDigits]
    push_cast
    ring
  exact nonzero ((rank_congr zero).trans rank_zero)

theorem mantissa_bounds {decimal : Decimal} {first : Char} {others : List Char}
    (nonzero : decimal.digits ≠ 0) (parts : Nat.toDigits 10 decimal.digits = first :: others) :
    1 ≤ (decimal.digits : ℚ) / 10 ^ others.length ∧
      (decimal.digits : ℚ) / 10 ^ others.length < 10 := by
  have count : decimal.digitCount = others.length + 1 := by
    rw [digitCount, parts, List.length_cons]
  have high := (decimal.digitCount_le_iff (Nat.succ_pos others.length)).mp count.le
  have low : 10 ^ others.length ≤ decimal.digits := by
    rcases Nat.eq_zero_or_pos others.length with single | more
    · rw [single]
      exact Nat.pos_of_ne_zero nonzero
    · by_contra fewer
      have short := (decimal.digitCount_le_iff more).mpr (Nat.not_le.mp fewer)
      omega
  rw [one_le_div (by positivity), div_lt_iff₀ (by positivity), ← pow_succ']
  exact ⟨by exact_mod_cast low, by exact_mod_cast high⟩

/-- With an exponent, a decimal is a literal up to the mark. The number of the literal has one digit
in front of the point, and with the power of ten behind the mark it is the decimal. -/
theorem scientific_parts {decimal : Decimal} (nonzero : decimal.digits ≠ 0) :
    ∃ mantissa number exponent, decimal.scientific = mantissa ++ 'e' :: signed exponent ∧
      Writes mantissa number ∧ (1 ≤ number ∧ number < 10) ∧
      number * 10 ^ exponent = decimal.toRat := by
  cases parts : Nat.toDigits 10 decimal.digits with
  | nil => exact (Nat.toDigits_ne_nil parts).elim
  | cons first others =>
      have digits := all_isDigit_toDigits decimal.digits
      have value : Nat.ofDigitChars 10 (Nat.toDigits 10 decimal.digits) 0 = decimal.digits :=
        Nat.ofDigitChars_ten_toDigits
      rw [parts] at digits value
      have writes := writes_mantissa digits
      rw [value] at writes
      refine ⟨_, _, decimal.exponent + others.length, ?_, writes, mantissa_bounds nonzero parts, ?_⟩
      · rw [scientific, parts, List.cons_append]
      · rw [toRat_eq, zpow_add₀ (by norm_num), zpow_natCast]
        field_simp

end Calculator.Decimal
