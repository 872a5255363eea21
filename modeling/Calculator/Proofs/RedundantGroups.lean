import Calculator.Proofs.FirstError
import Calculator.Proofs.Groups
import Calculator.Proofs.Spacing

/-!
Parentheses that add nothing.

The plan of a balanced text never closes more than it opened, so around it an open parenthesis and
its partner change nothing: the partner releases what the end of the text would have released, and
finds its open parenthesis on top. This asks nothing of the text but the balance. It may lack
operands, which the group then takes from outside, it may divide by zero, and it may be unreadable.
-/

set_option autoImplicit false

namespace Calculator

theorem Lexeme.mismatch_not_mem_readings (text : List Char) :
    .error .mismatchedParentheses ∉ readings text := by
  intro unread
  cases error_of_mem_readings unread

theorem Lexeme.readings_group_shift (text : List Char) :
    readings ('(' :: (text ++ [')'])) =
      (.ok .openParen :: (readings text ++ [.ok .closeParen])).map fun reading =>
        reading.mapError (CalculationError.shift 1) := by
  rw [readings_group]
  simp [Except.mapError]

namespace Plan

theorem on_shift (offset : Nat) (plan : Plan) (operands : List Float) :
    on ⟨plan.program, plan.status.mapError (CalculationError.shift offset)⟩ operands =
      (plan.on operands).mapError (CalculationError.shift offset) := by
  obtain ⟨program, status⟩ := plan
  simp only [on]
  cases ran : Postfix.run program operands with
  | error error =>
      have operator := Postfix.error_of_run ran
      have placeless := CalculationError.shift_of_not_ofText operator.not_ofText offset
      simp only [Except.mapError, placeless]
  | ok reached => cases status <;> rfl

theorem status_of_balanced {power : Associativity}
    {readings : List (Except CalculationError Token)}
    (lexical : .error .mismatchedParentheses ∉ readings) (balanced : Balanced (tokensOf readings)) :
    (ofReadings power readings).status ≠ .error .mismatchedParentheses := by
  intro mismatched
  rcases fault_of_status mismatched with unread | ⟨_, excess | ⟨_, unequal⟩⟩
  · exact lexical unread
  · exact balanced.1 (excess.of_part (leadingTokens_are_first readings))
  · exact unequal balanced.2

theorem pending_of_ofReadings {power : Associativity}
    {readings : List (Except CalculationError Token)} {pending : List Pending}
    (status : (ofReadings power readings).status = .ok pending) : pending = [] := by
  obtain ⟨_, _, _, _, _, stop⟩ := ofReadings_covers power readings
  rw [status] at stop
  exact stop.1

/-- A group around a balanced text is the plan of the text, and goes on with what was pending. -/
theorem scan_group_of_balanced (power : Associativity) (base : List Pending)
    {readings : List (Except CalculationError Token)}
    (lexical : .error .mismatchedParentheses ∉ readings) (balanced : Balanced (tokensOf readings)) :
    scan power base (.ok .openParen :: (readings ++ [.ok .closeParen])) =
      ⟨(ofReadings power readings).program,
        (ofReadings power readings).status.map fun _ => base⟩ := by
  have carries := group_carries power base readings
  cases status : (ofReadings power readings).status with
  | ok pending => exact carries.continues pending status
  | error fault =>
      have other : fault ≠ .mismatchedParentheses := by
        rintro rfl
        exact status_of_balanced lexical balanced status
      rw [carries.stops fault status other, Except.map, ← status]

theorem ofReadings_group_of_balanced (power : Associativity)
    {readings : List (Except CalculationError Token)}
    (lexical : .error .mismatchedParentheses ∉ readings) (balanced : Balanced (tokensOf readings)) :
    ofReadings power (.ok .openParen :: (readings ++ [.ok .closeParen])) =
      ofReadings power readings := by
  rw [ofReadings, scan_group_of_balanced power [] lexical balanced]
  have empty : drain [] = ⟨[], .ok []⟩ := rfl
  generalize planned : ofReadings power readings = plan
  obtain ⟨program, status⟩ := plan
  cases status with
  | error fault => rfl
  | ok pending =>
      have settled : pending = [] := pending_of_ofReadings (by rw [planned])
      simp only [andThen, Except.map, empty, List.append_nil, settled]

/-- A second pair of parentheses finds the first open parenthesis on top when it is closed. -/
theorem scan_group_of_group (power : Associativity) (base : List Pending)
    {readings : List (Except CalculationError Token)}
    (lexical : .error .mismatchedParentheses ∉ readings) (balanced : Balanced (tokensOf readings)) :
    let group (inner : List (Except CalculationError Token)) :=
      .ok .openParen :: (inner ++ [.ok .closeParen])
    scan power base (group (group readings)) = scan power base (group readings) := by
  intro group
  have closed : closeGroup (.openParen :: base) = ⟨[], .ok base⟩ := rfl
  simp only [group]
  rw [scan_group, scan_group_of_balanced power (.openParen :: base) lexical balanced,
    scan_group_of_balanced power base lexical balanced]
  cases (ofReadings power readings).status with
  | error fault => rfl
  | ok pending => simp only [andThen, Except.map, closed, List.append_nil]

end Plan

namespace Evaluator

open Lexeme

theorem evaluate_group_of_balanced (evaluator : Evaluator) {text : List Char}
    (balanced : Balanced (tokensOf (readings text))) :
    evaluator.evaluate ('(' :: (text ++ [')'])) =
      (evaluator.evaluate text).mapError (CalculationError.shift 1) := by
  have fixed : CalculationError.shift 1 .mismatchedParentheses = .mismatchedParentheses := rfl
  have lexical := mismatch_not_mem_readings text
  rw [Plan.evaluate_settles_plan, Plan.evaluate_settles_plan, readings_group_shift,
    Plan.ofReadings_mapError fixed, Plan.ofReadings_group_of_balanced _ lexical balanced,
    CalculationError.shift_eq_relocate, Plan.settle_relocate]

theorem feedAll_group_of_group (evaluator : Evaluator) (state : Stacks) {text : List Char}
    (balanced : Balanced (tokensOf (readings text))) :
    let group (text : List Char) := '(' :: (text ++ [')'])
    (evaluator.feedAll state (scan (group (group text)))).mapError Stacks.Failure.error =
      (evaluator.feedAll state (scan (group text))).mapError fun failure =>
        failure.error.shift 1 := by
  intro group
  have fixed : CalculationError.shift 1 .mismatchedParentheses = .mismatchedParentheses := rfl
  have lexical := mismatch_not_mem_readings text
  let bracket (inner : List (Except CalculationError Token)) :=
    Except.ok Token.openParen :: (inner ++ [.ok .closeParen])
  let move (inner : List (Except CalculationError Token)) :=
    inner.map fun reading => reading.mapError (CalculationError.shift 1)
  have once : readings (group text) = move (bracket (readings text)) := readings_group_shift text
  have twice : readings (group (group text)) = move (move (bracket (bracket (readings text)))) := by
    simp only [group, move, bracket]
    rw [readings_group_shift, readings_group_shift]
    simp [Except.mapError]
  have inner := Plan.feedAll_is_planned evaluator state (scan (group text))
  have outer := Plan.feedAll_is_planned evaluator state (scan (group (group text)))
  rw [← readings, once, Plan.scan_mapError fixed] at inner
  rw [← readings, twice, Plan.scan_mapError fixed, Plan.scan_mapError fixed,
    Plan.scan_group_of_group _ _ lexical balanced, Plan.on_shift, ← inner] at outer
  rw [outer]
  cases evaluator.feedAll state (scan (group text)) <;> rfl

/-- Parentheses around a balanced text, whatever else is in it, do not change its evaluation but
for the places that they move. On any stacks, a group in parentheses of its own does what the group
does: it leaves the same stacks, or it fails with the same error. -/
theorem redundant_parentheses_are_transparent (evaluator : Evaluator) {text : List Char}
    (balanced : Balanced (tokensOf (readings text))) :
    let group (text : List Char) := '(' :: (text ++ [')'])
    evaluator.evaluate (group text) =
        (evaluator.evaluate text).mapError (CalculationError.shift 1) ∧
      ∀ state,
        (evaluator.feedAll state (scan (group (group text)))).mapError Stacks.Failure.error =
          (evaluator.feedAll state (scan (group text))).mapError fun failure =>
            failure.error.shift 1 :=
  ⟨evaluator.evaluate_group_of_balanced balanced,
    fun state => evaluator.feedAll_group_of_group state balanced⟩

/-- A text that lacks its left operand and takes it from outside, and one that cannot be read. -/
theorem redundant_parentheses_are_transparent_in_two_texts :
    let state : Stacks := ⟨[2.0], [.operator .add]⟩
    (Balanced (tokensOf (readings "*(3)".toList)) ∧
      Evaluator.standard.evaluate "(*(3))".toList = .error (.missingOperand .mul) ∧
      Evaluator.standard.evaluate "*(3)".toList = .error (.missingOperand .mul) ∧
      (Evaluator.standard.feedAll state (scan "((*(3)))".toList)).mapError Stacks.Failure.error =
        .ok ⟨[6.0], [.operator .add]⟩) ∧
    (Balanced (tokensOf (readings "1+(2)$".toList)) ∧
      Evaluator.standard.evaluate "1+(2)$".toList = .error (.invalidCharacter '$' 5) ∧
      Evaluator.standard.evaluate "(1+(2)$)".toList = .error (.invalidCharacter '$' 6) ∧
      (Evaluator.standard.feedAll state (scan "((1+(2)$))".toList)).mapError Stacks.Failure.error =
        .error (.invalidCharacter '$' 7)) := by
  intro state
  have incomplete : Balanced (tokensOf (readings "*(3)".toList)) :=
    (nesting_iff_balanced _).mp (by decide +kernel)
  have unreadable : Balanced (tokensOf (readings "1+(2)$".toList)) :=
    (nesting_iff_balanced _).mp (by decide +kernel)
  have missing : Evaluator.standard.evaluate "*(3)".toList = .error (.missingOperand .mul) := by
    decide +kernel
  have foreign : Evaluator.standard.evaluate "1+(2)$".toList =
      .error (.invalidCharacter '$' 5) := by decide +kernel
  have taken : Evaluator.standard.feedAll state (scan "(*(3))".toList) =
      .ok ⟨[6.0], [.operator .add]⟩ := by decide +kernel
  have stopped : Evaluator.standard.feedAll state (scan "(1+(2)$)".toList) =
      .error ⟨.invalidCharacter '$' 6, ⟨[2.0, 1.0, 2.0],
        [.operator .add, .openParen, .operator .add]⟩⟩ := by decide +kernel
  have first := redundant_parentheses_are_transparent Evaluator.standard incomplete
  have second := redundant_parentheses_are_transparent Evaluator.standard unreadable
  have regrouped := first.2 state
  have restopped := second.2 state
  have alone := first.1
  have moved := second.1
  change _ = (Evaluator.standard.feedAll state (scan "(*(3))".toList)).mapError _ at regrouped
  change _ = (Evaluator.standard.feedAll state (scan "(1+(2)$)".toList)).mapError _ at restopped
  rw [taken] at regrouped
  rw [stopped] at restopped
  rw [missing] at alone
  rw [foreign] at moved
  exact ⟨⟨incomplete, alone, missing, regrouped⟩, unreadable, foreign, moved, restopped⟩

/-- A parenthesis that closes a group of the text in place of its own partner. -/
example : Evaluator.standard.evaluate "1+(".toList = .error .mismatchedParentheses ∧
    Evaluator.standard.evaluate "(1+()".toList = .error (.missingOperand .add) := by
  decide +kernel

end Evaluator

end Calculator
