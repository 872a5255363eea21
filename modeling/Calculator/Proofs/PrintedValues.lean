import Calculator.Binary64.Text
import Calculator.Proofs.FirstError
import Calculator.Proofs.Layouts

/-!
Which printed results can be typed in again.

A result without a sign and without an exponent is a literal, and the literal is read as the result.
All other results are turned down: a sign is an operator that lacks an operand, and no number holds
the letters of an exponent, of an infinity or of what is not a number. So no printed result is ever
read as another value.
-/

set_option autoImplicit false

namespace Calculator

namespace Binary64

attribute [local instance (high)] instPowNat

/-- Whether a value is zero or of a size that is written without an exponent. -/
def WrittenOut (value : Float) : Prop :=
  rank value = 0 ∨ (1 / 10 ^ 4 ≤ magnitude (rank value) ∧ magnitude (rank value) < 10 ^ 16)

def sign (value : Float) : List Char := if isNegative value then ['-'] else []

theorem first_rank_iff {first : Nat} {threshold : ℚ} (below : magnitude (first - 1) < threshold)
    (reached : threshold ≤ magnitude first) (rank : Nat) :
    first ≤ rank ↔ threshold ≤ magnitude rank := by
  constructor
  · intro behind
    exact reached.trans (magnitude_strictMono.monotone behind)
  · intro large
    by_contra before
    have most := magnitude_strictMono.monotone (Nat.le_sub_one_of_lt (Nat.not_le.mp before))
    exact absurd (large.trans most) (not_le.mpr below)

theorem firstPositionalRank_le_iff (rank : Nat) :
    firstPositionalRank ≤ rank ↔ 1 / 10 ^ 4 ≤ magnitude rank := by
  have threshold : (1 : ℚ) / 10 ^ 4 = (1 : Nat) / (10 ^ 4 : Nat) := by norm_num
  rw [threshold]
  refine first_rank_iff ?_ (not_lt.mp ?_) rank <;>
    rw [magnitude, quotient_lt_quotient_iff _ _ (by decide +kernel) (by decide +kernel)] <;>
    decide +kernel

theorem firstLargeRank_le_iff (rank : Nat) : firstLargeRank ≤ rank ↔ 10 ^ 16 ≤ magnitude rank := by
  have threshold : (10 : ℚ) ^ 16 = (10 ^ 16 : Nat) / (1 : Nat) := by norm_num
  rw [threshold]
  refine first_rank_iff ?_ (not_lt.mp ?_) rank <;>
    rw [magnitude, quotient_lt_quotient_iff _ _ (by decide +kernel) (by decide +kernel)] <;>
    decide +kernel

theorem isPositional_iff (value : Float) : isPositional (rank value) = true ↔ WrittenOut value := by
  rw [isPositional, decide_eq_true_eq, firstPositionalRank_le_iff, ← Nat.not_le,
    firstLargeRank_le_iff, not_le, WrittenOut]

theorem finite_of_writtenOut {value : Float} (plain : WrittenOut value) :
    rank value < infinityRank := by
  rcases plain with zero | ⟨_, small⟩
  · rw [zero]
    decide
  · by_contra infinite
    have most := magnitude_strictMono.monotone (Nat.not_lt.mp infinite)
    rw [magnitude_infinity] at most
    have power : (10 : ℚ) ^ 16 ≤ 2 ^ 1024 :=
      calc (10 : ℚ) ^ 16 ≤ 2 ^ 54 := by norm_num
        _ ≤ 2 ^ 1024 := pow_le_pow_right₀ (by norm_num) (by decide)
    exact absurd (small.trans_le power) (not_lt.mpr most)

theorem isNaN_of_finite {value : Float} (finite : rank value < infinityRank) :
    isNaN value = false :=
  decide_eq_false (Nat.not_lt.mpr finite.le)

theorem text_of_finite {value : Float} (finite : rank value < infinityRank) :
    text value = sign value ++
      if isPositional (rank value) then (Decimal.shortest (rank value)).positional
      else (Decimal.shortest (rank value)).scientific := by
  simp only [text, isNaN_of_finite finite, magnitudeText, if_neg finite.ne, Bool.false_eq_true,
    if_false, sign]

theorem text_of_writtenOut {value : Float} (plain : WrittenOut value) :
    ∃ decimal run, Decimal.IsShortest decimal (rank value) ∧ Decimal.Writes run decimal.toRat ∧
      '.' ∈ run ∧ text value = sign value ++ run := by
  have finite := finite_of_writtenOut plain
  refine ⟨_, _, Decimal.isShortest_shortest finite, Decimal.writes_positional _, ?_, ?_⟩
  · simp [Decimal.positional]
  · rw [text_of_finite finite, if_pos ((isPositional_iff value).mpr plain)]

theorem text_of_exponent {value : Float} (finite : rank value < infinityRank)
    (outside : ¬WrittenOut value) :
    ∃ decimal mantissa number exponent, Decimal.IsShortest decimal (rank value) ∧
      Decimal.Writes mantissa number ∧ (1 ≤ number ∧ number < 10) ∧
      number * 10 ^ exponent = decimal.toRat ∧
      text value = sign value ++ mantissa ++ 'e' :: Decimal.signed exponent := by
  have shortest := Decimal.isShortest_shortest finite
  have nonzero : (Decimal.shortest (rank value)).rank ≠ 0 := by
    rw [shortest.readsBack]
    exact fun zero => outside (Or.inl zero)
  obtain ⟨mantissa, number, exponent, parts, writes, bounds, power⟩ :=
    Decimal.scientific_parts (Decimal.digits_ne_zero nonzero)
  refine ⟨_, mantissa, number, exponent, shortest, writes, bounds, power, ?_⟩
  rw [text_of_finite finite, if_neg (mt (isPositional_iff value).mp outside), parts,
    List.append_assoc]

theorem text_of_infinite {value : Float} (infinite : isInfinite value = true) :
    text value = sign value ++ "inf".toList := by
  have place : rank value = infinityRank := of_decide_eq_true infinite
  have number : isNaN value = false := decide_eq_false (by rw [place]; exact Nat.lt_irrefl _)
  simp only [text, number, magnitudeText, if_pos place, Bool.false_eq_true, if_false, sign]

theorem text_of_nan {value : Float} (nan : isNaN value = true) : text value = "NaN".toList := by
  simp only [text, nan, if_true]

theorem roundsTo_of_shortest {value : Float} {decimal : Decimal}
    (finite : rank value < infinityRank) (positive : isNegative value = false)
    (shortest : Decimal.IsShortest decimal (rank value)) : RoundsTo decimal.toRat value := by
  have nearest := decimal.nearest_rank
  rw [shortest.readsBack] at nearest
  exact ⟨isNaN_of_finite finite, positive, nearest⟩

end Binary64

namespace Evaluator

open Lexeme Binary64 Decimal

def signPending (value : Float) : List Pending :=
  if isNegative value then [.operator .sub] else []

theorem feedAll_sign (evaluator : Evaluator) (value : Float) :
    evaluator.feedAll Stacks.empty (scan (sign value)) = .ok ⟨[], signPending value⟩ := by
  unfold sign signPending
  cases isNegative value <;> rfl

theorem feedAll_literal (evaluator : Evaluator) (state : Stacks) {run : List Char} {number : ℚ}
    (writes : Writes run number) :
    ∃ read, RoundsTo number read ∧
      evaluator.feedAll state (scan run) = .ok (state.pushOperand read) := by
  obtain ⟨read, reads, rounds⟩ := number_of_numeral writes.literal writes.numeral 0
  rw [writes.denotes] at rounds
  have nonempty : run ≠ [] := by
    rintro rfl
    obtain ⟨⟨_, member, _⟩, _⟩ := writes.numeral
    cases member
  have alone : scan run = [⟨0, run⟩] := by
    simp [scan, pieces_of_run nonempty writes.literal, located,
      not_blank_of_run nonempty writes.literal]
  refine ⟨read, rounds, ?_⟩
  rw [alone]
  simp only [feedAll, List.foldlM_cons, List.foldlM_nil, feed, reads, push]
  rfl

theorem feedAll_signed_literal (evaluator : Evaluator) (value : Float) {run : List Char}
    {number : ℚ} (writes : Writes run number) :
    ∃ read, RoundsTo number read ∧
      evaluator.feedAll Stacks.empty (scan (sign value ++ run)) =
        .ok ⟨[read], signPending value⟩ := by
  obtain ⟨read, rounds, fed⟩ := evaluator.feedAll_literal ⟨[], signPending value⟩ writes
  have cut : SafeCut (sign value) run := by
    unfold sign
    intro last final next _
    cases sign : isNegative value <;> rw [sign] at final <;> cases final
    exact Bool.false_and _
  refine ⟨read, rounds, ?_⟩
  rw [feedAll_scan_append _ _ cut, feedAll_sign, Except.bind, fed]
  rfl

theorem evaluate_signed_literal (evaluator : Evaluator) (value : Float) {run : List Char}
    {number : ℚ} (writes : Writes run number) :
    ∃ read, RoundsTo number read ∧
      evaluator.evaluate (sign value ++ run) =
        if isNegative value then .error (.missingOperand .sub) else .ok read := by
  obtain ⟨read, rounds, fed⟩ := evaluator.feedAll_signed_literal value writes
  refine ⟨read, rounds, ?_⟩
  rw [evaluate, fed]
  unfold signPending
  cases isNegative value <;> rfl

theorem evaluate_text_of_writtenOut (evaluator : Evaluator) {value : Float}
    (plain : WrittenOut value) :
    evaluator.evaluate (text value) =
      if isNegative value then .error (.missingOperand .sub) else .ok value := by
  obtain ⟨decimal, run, shortest, writes, _, printed⟩ := text_of_writtenOut plain
  obtain ⟨read, rounds, outcome⟩ := evaluator.evaluate_signed_literal value writes
  rw [printed, outcome]
  cases positive : isNegative value with
  | true => rfl
  | false =>
      have rounds' := roundsTo_of_shortest (finite_of_writtenOut plain) positive shortest
      rw [rounds.unique rounds']

theorem evaluate_exponent (evaluator : Evaluator) (value : Float) {mantissa : List Char}
    {number : ℚ} (writes : Writes mantissa number) (later : List Char) :
    evaluator.evaluate (sign value ++ mantissa ++ 'e' :: later) =
      .error (.invalidCharacter 'e' (width (sign value ++ mantissa))) := by
  obtain ⟨read, _, fed⟩ := evaluator.feedAll_signed_literal value writes
  exact evaluate_of_fault (.character rfl (by decide)) fed

theorem evaluate_text_of_infinite (evaluator : Evaluator) {value : Float}
    (infinite : isInfinite value = true) :
    evaluator.evaluate (text value) = .error (.invalidCharacter 'i' (width (sign value))) := by
  rw [text_of_infinite infinite]
  exact evaluate_of_fault (.character rfl (by decide)) (evaluator.feedAll_sign value)

theorem evaluate_text_of_nan (evaluator : Evaluator) {value : Float} (nan : isNaN value = true) :
    evaluator.evaluate (text value) = .error (.invalidCharacter 'N' 0) := by
  have nothing : evaluator.feedAll Stacks.empty (scan []) = .ok Stacks.empty := rfl
  have fault : Fault (text value) [] (.invalidCharacter 'N' (width [])) :=
    .character (text_of_nan nan) (by decide)
  exact evaluate_of_fault fault nothing

theorem error_of_not_writtenOut (evaluator : Evaluator) {value : Float}
    (outside : ¬WrittenOut value) : ∃ error, evaluator.evaluate (text value) = .error error := by
  rcases Nat.lt_trichotomy (rank value) infinityRank with finite | infinite | nan
  · obtain ⟨_, mantissa, _, exponent, _, writes, _, _, printed⟩ := text_of_exponent finite outside
    rw [printed]
    exact ⟨_, evaluator.evaluate_exponent value writes _⟩
  · exact ⟨_, evaluator.evaluate_text_of_infinite (decide_eq_true infinite)⟩
  · exact ⟨_, evaluator.evaluate_text_of_nan (decide_eq_true nan)⟩

/-- The text of a value is evaluated to this value if it has no sign and is written out, and to no
value at all otherwise. Values that are written out are their shortest decimal with a point in its
place, and with a sign they lack an operand. The other finite values are their shortest decimal with
an exponent, whose mark is turned down, and so is the first letter of what is infinite or not a
number. -/
theorem printed_values_are_not_misread (evaluator : Evaluator) (value : Float) :
    let printed := text value
    let outcome := evaluator.evaluate printed
    (outcome = .ok value ↔ isNegative value = false ∧ WrittenOut value) ∧
    (∀ read, outcome = .ok read → read = value) ∧
    (WrittenOut value →
      (∃ decimal run, IsShortest decimal (rank value) ∧ Writes run decimal.toRat ∧ '.' ∈ run ∧
        printed = sign value ++ run) ∧
      (isNegative value = true → outcome = .error (.missingOperand .sub))) ∧
    (rank value < infinityRank → ¬WrittenOut value →
      ∃ decimal mantissa number exponent, IsShortest decimal (rank value) ∧
        Writes mantissa number ∧ (1 ≤ number ∧ number < 10) ∧
        number * 10 ^ exponent = decimal.toRat ∧
        printed = sign value ++ mantissa ++ 'e' :: signed exponent ∧
        outcome = .error (.invalidCharacter 'e' (width (sign value ++ mantissa)))) ∧
    (isInfinite value = true → printed = sign value ++ "inf".toList ∧
      outcome = .error (.invalidCharacter 'i' (width (sign value)))) ∧
    (isNaN value = true → printed = "NaN".toList ∧
      outcome = .error (.invalidCharacter 'N' 0)) := by
  intro printed outcome
  have accepted (read : Float) (value' : outcome = .ok read) :
      read = value ∧ isNegative value = false ∧ WrittenOut value := by
    by_cases plain : WrittenOut value
    · rw [show outcome = _ from evaluator.evaluate_text_of_writtenOut plain] at value'
      cases positive : isNegative value <;> rw [positive] at value' <;> cases value'
      exact ⟨rfl, rfl, plain⟩
    · obtain ⟨error, refused⟩ := evaluator.error_of_not_writtenOut plain
      cases value'.symm.trans refused
  refine ⟨⟨fun same => (accepted value same).2, ?_⟩, fun read same => (accepted read same).1,
    ?_, ?_, ?_, ?_⟩
  · rintro ⟨positive, plain⟩
    have whole := evaluator.evaluate_text_of_writtenOut plain
    rwa [positive] at whole
  · intro plain
    refine ⟨text_of_writtenOut plain, fun negative => ?_⟩
    have whole := evaluator.evaluate_text_of_writtenOut plain
    rwa [negative] at whole
  · intro finite outside
    obtain ⟨decimal, mantissa, number, exponent, shortest, writes, bounds, power, layout⟩ :=
      text_of_exponent finite outside
    refine ⟨decimal, mantissa, number, exponent, shortest, writes, bounds, power, layout, ?_⟩
    have refused := evaluator.evaluate_exponent value writes (signed exponent)
    rwa [← layout] at refused
  · intro infinite
    exact ⟨text_of_infinite infinite, evaluator.evaluate_text_of_infinite infinite⟩
  · intro nan
    exact ⟨text_of_nan nan, evaluator.evaluate_text_of_nan nan⟩

/-- Each way to be written, with and without a sign where it can have one. -/
theorem printed_values_are_not_misread_of_six :
    let outcome := fun value : Float => Evaluator.standard.evaluate (text value)
    (isNegative 0.1 = false ∧ WrittenOut 0.1 ∧ text 0.1 = "0.1".toList ∧
      outcome 0.1 = .ok 0.1) ∧
    (isNegative (zero true) = true ∧ WrittenOut (zero true) ∧ text (zero true) = "-0.0".toList ∧
      outcome (zero true) = .error (.missingOperand .sub)) ∧
    (¬WrittenOut 1e16 ∧ text 1e16 = "1e16".toList ∧ outcome 1e16 ≠ .ok 1e16) ∧
    (rank (-2.5e-7) < infinityRank ∧ ¬WrittenOut (-2.5e-7) ∧
      text (-2.5e-7) = "-2.5e-7".toList ∧
      ∃ mantissa exponent, text (-2.5e-7) = sign (-2.5e-7) ++ mantissa ++ 'e' :: signed exponent ∧
        outcome (-2.5e-7) = .error (.invalidCharacter 'e' (width (sign (-2.5e-7) ++ mantissa)))) ∧
    (isInfinite (infinity true) = true ∧ text (infinity true) = "-inf".toList ∧
      outcome (infinity true) = .error (.invalidCharacter 'i' 1)) ∧
    (isNaN nan = true ∧ outcome nan = .error (.invalidCharacter 'N' 0)) := by
  intro outcome
  have tenth : WrittenOut 0.1 := (isPositional_iff _).mp (by decide +kernel)
  have nought : WrittenOut (zero true) := (isPositional_iff _).mp (by decide +kernel)
  have large : ¬WrittenOut 1e16 := mt (isPositional_iff _).mpr (by decide +kernel)
  have small : ¬WrittenOut (-2.5e-7) := mt (isPositional_iff _).mpr (by decide +kernel)
  have finite : rank (-2.5e-7) < infinityRank := by decide +kernel
  obtain ⟨read, _⟩ := printed_values_are_not_misread Evaluator.standard 0.1
  obtain ⟨_, _, signed, _⟩ := printed_values_are_not_misread Evaluator.standard (zero true)
  obtain ⟨unread, _⟩ := printed_values_are_not_misread Evaluator.standard 1e16
  obtain ⟨_, _, _, exponent, _⟩ := printed_values_are_not_misread Evaluator.standard (-2.5e-7)
  obtain ⟨_, _, _, _, infinite, _⟩ :=
    printed_values_are_not_misread Evaluator.standard (infinity true)
  obtain ⟨_, _, _, _, _, notNumber⟩ := printed_values_are_not_misread Evaluator.standard nan
  obtain ⟨_, mantissa, _, power, _, _, _, _, layout, refused⟩ := exponent finite small
  refine ⟨⟨by decide +kernel, tenth, by decide +kernel, read.mpr ⟨by decide +kernel, tenth⟩⟩,
    ⟨by decide +kernel, nought, by decide +kernel, (signed nought).2 (by decide +kernel)⟩,
    ⟨large, by decide +kernel, fun same => large (unread.mp same).2⟩,
    ⟨finite, small, by decide +kernel, mantissa, power, layout, refused⟩,
    ⟨by decide +kernel, by decide +kernel, ?_⟩, ⟨by decide +kernel, ?_⟩⟩
  · exact (infinite (by decide +kernel)).2
  · exact (notNumber (by decide +kernel)).2

end Evaluator

end Calculator
