import Calculator.Proofs.Nesting
import Calculator.Proofs.PlanContents

/-!
Where the operands go.

A number adds an operand and an operator that is applied takes one away, so at any time there are
as many operands more than pending operators as numbers were read more than operators. The count
that is left at the end of a text is therefore known before anything is computed. It is zero only
where nothing was computed: whatever an instruction takes, it leaves an operand.
-/

set_option autoImplicit false

namespace Calculator

theorem only_parentheses_iff (tokens : List Token) :
    (∀ token ∈ tokens, token = .openParen ∨ token = .closeParen) ↔
      (numbersOf tokens).length = 0 ∧ (operatorsOf tokens).length = 0 := by
  induction tokens with
  | nil => simp [numbersOf, operatorsOf]
  | cons token tokens ih => cases token <;> simp [numbersOf, operatorsOf, ih]

namespace Plan

open Postfix

theorem operands_of_run {program : List Instruction} {read : List Token} {left : List Operator}
    {operands : List Float} (accounts : Accounts program [] read left)
    (ran : run program [] = .ok operands) :
    operands.length + (operatorsOf read).length = left.length + (numbersOf read).length := by
  have counted := length_of_run ran
  have shared := accounts.operators.length_eq
  rw [accounts.numbers] at counted
  simp only [List.length_append, List.length_nil] at shared counted
  omega

theorem operands_of_feedAll {evaluator : Evaluator} {lexemes : List Lexeme} {state : Stacks}
    (fed : evaluator.feedAll Stacks.empty lexemes = .ok state) :
    state.operands.length + (operatorsOf (tokensOf (lexemes.map Lexeme.token))).length =
      (waiting state.pending).length +
        (numbersOf (tokensOf (lexemes.map Lexeme.token))).length := by
  have planned := feedAll_is_planned evaluator Stacks.empty lexemes
  rw [fed] at planned
  obtain ⟨ran, status⟩ := on_eq_ok planned.symm
  obtain ⟨read, rest, left, split, accounts, stop⟩ :=
    scan_accounts evaluator.power [] (lexemes.map Lexeme.token)
  change (scan evaluator.power [] _).status = _ at status
  rw [status] at stop
  obtain ⟨rfl, rfl⟩ := stop
  rw [split, List.append_nil, tokensOf_map_ok]
  exact operands_of_run accounts ran

theorem contents_of_completed {power : Associativity}
    {readings : List (Except CalculationError Token)} {pending : List Pending}
    (status : (ofReadings power readings).status = .ok pending) :
    pushed (ofReadings power readings).program = numbersOf (tokensOf readings) ∧
      (applied (ofReadings power readings).program).Perm (operatorsOf (tokensOf readings)) := by
  obtain ⟨read, rest, split, numbers, _, stop⟩ := ofReadings_covers power readings
  rw [status] at stop
  obtain ⟨rfl, rfl, operators⟩ := stop
  have tokens : tokensOf readings = read := by
    rw [split, List.append_nil, tokensOf_map_ok]
  rw [tokens]
  exact ⟨numbers, operators⟩

theorem operands_of_completed {power : Associativity}
    {readings : List (Except CalculationError Token)} {operands : List Float}
    {pending : List Pending} (ran : run (ofReadings power readings).program [] = .ok operands)
    (status : (ofReadings power readings).status = .ok pending) :
    operands.length + (operatorsOf (tokensOf readings)).length =
      (numbersOf (tokensOf readings)).length := by
  obtain ⟨numbers, operators⟩ := contents_of_completed status
  have counted := length_of_run ran
  rw [numbers, operators.length_eq] at counted
  simpa using counted

theorem no_numbers_of_completed {power : Associativity}
    {readings : List (Except CalculationError Token)} {pending : List Pending}
    (ran : run (ofReadings power readings).program [] = .ok [])
    (status : (ofReadings power readings).status = .ok pending) :
    (numbersOf (tokensOf readings)).length = 0 := by
  have idle : (ofReadings power readings).program = [] := by
    by_contra numbered
    exact ne_nil_of_run ran (Or.inr numbered) rfl
  have numbers := (contents_of_completed status).1
  rw [idle] at numbers
  rw [← numbers]
  rfl

theorem settle_of_only_parentheses {power : Associativity}
    {readings : List (Except CalculationError Token)}
    (clean : ∀ error, .error error ∉ readings) (balanced : Balanced (tokensOf readings))
    (only : ∀ token ∈ tokensOf readings, token = .openParen ∨ token = .closeParen) :
    (ofReadings power readings).settle = .error (.operandCount 0) := by
  obtain ⟨pending, status⟩ := (status_eq_ok_iff power readings).mpr ⟨clean, balanced⟩
  obtain ⟨noNumbers, noOperators⟩ := (only_parentheses_iff _).mp only
  obtain ⟨numbers, operators⟩ := contents_of_completed status
  rw [List.length_eq_zero_iff.mp noNumbers] at numbers
  rw [List.length_eq_zero_iff.mp noOperators] at operators
  have idle := eq_nil_of_idle numbers operators.eq_nil
  simp [settle, idle, run, status]

/-- The accounts of a text. Numbers and operators alone tell how many operands are left if the text
is read to its end, and the stacks are in balance with them all the way. -/
theorem operands_are_accounted_for (evaluator : Evaluator) (text : List Char) :
    let readings := Lexeme.readings text
    let tokens := tokensOf readings
    let numbers := (numbersOf tokens).length
    let operators := (operatorsOf tokens).length
    let outcome := evaluator.evaluate text
    (∀ value, outcome = .ok value → numbers = operators + 1) ∧
    (∀ count, outcome = .error (.operandCount count) →
      operators ≤ numbers ∧ count = numbers - operators ∧ count ≠ 1) ∧
    (outcome = .error (.operandCount 0) ↔ (∀ error, .error error ∉ readings) ∧
      Balanced tokens ∧ ∀ token ∈ tokens, token = .openParen ∨ token = .closeParen) ∧
    (0 < operators → numbers ≤ operators →
      (∀ value, outcome ≠ .ok value) ∧ ∀ count, outcome ≠ .error (.operandCount count)) ∧
    ∀ part, part <+: Lexeme.scan text → ∀ state, evaluator.feedAll Stacks.empty part = .ok state →
      (state.operands.length : Int) - (waiting state.pending).length =
        (numbersOf (tokensOf (part.map Lexeme.token))).length -
          (operatorsOf (tokensOf (part.map Lexeme.token))).length := by
  intro readings tokens numbers operators outcome
  have settled : outcome = (ofReadings evaluator.power readings).settle :=
    evaluate_settles_plan evaluator text
  have valued (value : Float) (accepted : outcome = .ok value) : numbers = operators + 1 := by
    obtain ⟨ran, pending, status⟩ := settle_eq_ok (settled.symm.trans accepted)
    have left : 1 + operators = numbers := operands_of_completed ran status
    omega
  have counted (count : Nat) (rejected : outcome = .error (.operandCount count)) :
      operators ≤ numbers ∧ count = numbers - operators ∧ count ≠ 1 ∧
        (count = 0 → numbers = 0) := by
    obtain ⟨operands, pending, ran, status, rfl, notOne⟩ := counted_of_evaluate rejected
    have left : operands.length + operators = numbers := operands_of_completed ran status
    refine ⟨by omega, by omega, notOne, ?_⟩
    intro noOperators
    rw [List.length_eq_zero_iff.mp noOperators] at ran
    exact no_numbers_of_completed ran status
  refine ⟨valued, ?_, ?_, ?_, ?_⟩
  · intro count rejected
    obtain ⟨enough, same, notOne, _⟩ := counted count rejected
    exact ⟨enough, same, notOne⟩
  · constructor
    · intro rejected
      obtain ⟨enough, _, _, withoutNumbers⟩ := counted 0 rejected
      obtain ⟨clean, balanced⟩ :=
        (status_eq_ok_iff _ _).mp (status_of_completed (Or.inr ⟨0, rejected⟩))
      have noNumbers := withoutNumbers rfl
      exact ⟨clean, balanced, (only_parentheses_iff tokens).mpr ⟨noNumbers, by omega⟩⟩
    · rintro ⟨clean, balanced, only⟩
      exact settled.trans (settle_of_only_parentheses clean balanced only)
  · intro operating few
    constructor
    · intro value accepted
      have more := valued value accepted
      omega
    · intro count rejected
      obtain ⟨enough, same, _, _⟩ := counted count rejected
      omega
  · intro part _ state fed
    have balance := operands_of_feedAll fed
    omega

/-- An operator behind its operands, two values side by side, and too few values. -/
theorem operands_are_accounted_for_in_three_texts :
    let numbers (text : List Char) := (numbersOf (tokensOf (Lexeme.readings text))).length
    let operators (text : List Char) := (operatorsOf (tokensOf (Lexeme.readings text))).length
    (Evaluator.standard.evaluate "(2)(3)+".toList = .ok 5.0 ∧
      numbers "(2)(3)+".toList = operators "(2)(3)+".toList + 1) ∧
    (Evaluator.standard.evaluate "2(3)".toList = .error (.operandCount 2) ∧
      operators "2(3)".toList ≤ numbers "2(3)".toList ∧
      2 = numbers "2(3)".toList - operators "2(3)".toList) ∧
    (0 < operators "1+*".toList ∧ numbers "1+*".toList ≤ operators "1+*".toList ∧
      (∀ value, Evaluator.standard.evaluate "1+*".toList ≠ .ok value) ∧
      ∀ count, Evaluator.standard.evaluate "1+*".toList ≠ .error (.operandCount count)) ∧
    (Evaluator.standard.feedAll Stacks.empty (Lexeme.scan "1+*".toList) =
        .ok ⟨[1.0], [.operator .mul, .operator .add]⟩ ∧
      ([1.0].length : Int) - (waiting [.operator .mul, .operator .add]).length =
        numbers "1+*".toList - operators "1+*".toList) := by
  intro numbers operators
  have sum : Evaluator.standard.evaluate "(2)(3)+".toList = .ok 5.0 := by decide +kernel
  have pair : Evaluator.standard.evaluate "2(3)".toList = .error (.operandCount 2) := by
    decide +kernel
  have operating : 0 < operators "1+*".toList := by decide +kernel
  have few : numbers "1+*".toList ≤ operators "1+*".toList := by decide +kernel
  have fed : Evaluator.standard.feedAll Stacks.empty (Lexeme.scan "1+*".toList) =
      .ok ⟨[1.0], [.operator .mul, .operator .add]⟩ := by decide +kernel
  obtain ⟨valued, _⟩ := operands_are_accounted_for Evaluator.standard "(2)(3)+".toList
  obtain ⟨_, counted, _⟩ := operands_are_accounted_for Evaluator.standard "2(3)".toList
  obtain ⟨_, _, _, neither, balance⟩ := operands_are_accounted_for Evaluator.standard "1+*".toList
  obtain ⟨enough, same, _⟩ := counted 2 pair
  have left := balance _ (List.prefix_refl _) _ fed
  exact ⟨⟨sum, valued _ sum⟩, ⟨pair, enough, same⟩, ⟨operating, few, neither operating few⟩,
    fed, left⟩

end Plan

end Calculator
