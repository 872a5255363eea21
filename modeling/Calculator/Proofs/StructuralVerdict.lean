import Calculator.Proofs.Nesting
import Mathlib.Data.List.Forall2

/-!
Values have no say in what is wrong with a text.

Planning does not look at a number, and a program whose divisors are not zero fails or goes through
by the count of its operands alone. So two texts whose items are of the same kinds, one by one,
are judged alike unless one of them divides by zero: both have a value, or both have the same
fault, for the same operator, with the same count or at the same item. What is read for a number,
what exactly cannot be read and how the items are spaced makes no difference.
-/

set_option autoImplicit false

namespace Calculator

inductive CalculationError.SameKind : CalculationError → CalculationError → Prop where
  | characters (character other : Char) (position place : Nat) :
      SameKind (.invalidCharacter character position) (.invalidCharacter other place)
  | numbers (literal other : List Char) (position place : Nat) :
      SameKind (.invalidNumber literal position) (.invalidNumber other place)

/-- Two readings of one kind: numbers of any value, the same symbol, or errors that are related. -/
inductive Alike (errors : CalculationError → CalculationError → Prop) :
    Except CalculationError Token → Except CalculationError Token → Prop where
  | numbers (value other : Float) : Alike errors (.ok (.number value)) (.ok (.number other))
  | operators (operator : Operator) :
      Alike errors (.ok (.operator operator)) (.ok (.operator operator))
  | openParens : Alike errors (.ok .openParen) (.ok .openParen)
  | closeParens : Alike errors (.ok .closeParen) (.ok .closeParen)
  | unread {error other : CalculationError} (related : errors error other) :
      Alike errors (.error error) (.error other)

def SameItem (first second : List (Except CalculationError Token))
    (error other : CalculationError) : Prop :=
  error.SameKind other ∧
    ∃ index : Nat, first[index]? = some (.error error) ∧
      second[index]? = some (.error other)

/-- Two outcomes that differ at most in a value, or in what an error says about one item. -/
inductive SameVerdict (first second : List (Except CalculationError Token)) :
    Except CalculationError Float → Except CalculationError Float → Prop where
  | valued (value other : Float) : SameVerdict first second (.ok value) (.ok other)
  | missing (operator : Operator) :
      SameVerdict first second (.error (.missingOperand operator))
        (.error (.missingOperand operator))
  | counted (count : Nat) :
      SameVerdict first second (.error (.operandCount count)) (.error (.operandCount count))
  | mismatched :
      SameVerdict first second (.error .mismatchedParentheses) (.error .mismatchedParentheses)
  | unread {error other : CalculationError} (item : SameItem first second error other) :
      SameVerdict first second (.error error) (.error other)

theorem SameItem.behind {first second : List (Except CalculationError Token)}
    {error other : CalculationError} (item : SameItem first second error other)
    (reading another : Except CalculationError Token) :
    SameItem (reading :: first) (another :: second) error other := by
  rcases item with ⟨kind, index, here, there⟩
  exact ⟨kind, index + 1, by simpa using here, by simpa using there⟩

theorem Alike.weaken {errors weaker : CalculationError → CalculationError → Prop}
    {reading other : Except CalculationError Token} (alike : Alike errors reading other)
    (implied : ∀ error another, reading = .error error → other = .error another →
      errors error another → weaker error another) : Alike weaker reading other := by
  cases alike with
  | numbers value other => exact .numbers value other
  | operators operator => exact .operators operator
  | openParens => exact .openParens
  | closeParens => exact .closeParens
  | unread related => exact .unread (implied _ _ rfl rfl related)

theorem alike_at_items {first second : List (Except CalculationError Token)}
    (alike : List.Forall₂ (Alike CalculationError.SameKind) first second) :
    List.Forall₂ (Alike (SameItem first second)) first second := by
  induction alike with
  | nil => exact .nil
  | @cons reading other first second same rest ih =>
      constructor
      · apply same.weaken
        rintro error another rfl rfl kind
        exact ⟨kind, 0, rfl, rfl⟩
      · apply ih.imp
        intro later otherLater alike
        apply alike.weaken
        intro _ _ _ _ item
        exact item.behind reading other

namespace Plan

open Postfix

inductive StatusAlike (errors : CalculationError → CalculationError → Prop) :
    Except CalculationError (List Pending) → Except CalculationError (List Pending) → Prop where
  | continues (pending : List Pending) : StatusAlike errors (.ok pending) (.ok pending)
  | mismatched :
      StatusAlike errors (.error .mismatchedParentheses) (.error .mismatchedParentheses)
  | stops {fault other : CalculationError} (related : errors fault other) :
      StatusAlike errors (.error fault) (.error other)

structure PlansAlike (errors : CalculationError → CalculationError → Prop)
    (plan other : Plan) : Prop where
  counts : tally plan.program = tally other.program
  status : StatusAlike errors plan.status other.status

variable {errors : CalculationError → CalculationError → Prop}

theorem plansAlike_refl {plan : Plan}
    (faults : ∀ fault, plan.status = .error fault → fault = .mismatchedParentheses) :
    PlansAlike errors plan plan := by
  constructor
  · rfl
  · cases status : plan.status with
    | ok pending => exact .continues pending
    | error fault =>
        rw [faults fault status]
        exact .mismatched

theorem PlansAlike.andThen {plan other : Plan} {next otherNext : List Pending → Plan}
    (first : PlansAlike errors plan other)
    (second : ∀ pending, PlansAlike errors (next pending) (otherNext pending)) :
    PlansAlike errors (plan.andThen next) (other.andThen otherNext) := by
  have status := first.status
  generalize ends : plan.status = reached, otherEnds : other.status = otherReached at status
  cases status with
  | continues pending =>
      have later := second pending
      rw [andThen_of_ok next ends, andThen_of_ok otherNext otherEnds]
      constructor
      · funext count
        rw [tally_append, tally_append, first.counts, later.counts]
      · exact later.status
  | mismatched =>
      rw [andThen_of_error next ends, andThen_of_error otherNext otherEnds]
      exact ⟨first.counts, .mismatched⟩
  | stops related =>
      rw [andThen_of_error next ends, andThen_of_error otherNext otherEnds]
      exact ⟨first.counts, .stops related⟩

theorem fault_of_drain {pending : List Pending} {fault : CalculationError}
    (stops : (drain pending).status = .error fault) : fault = .mismatchedParentheses := by
  rcases drain_cases pending with ⟨_, drains⟩ | ⟨_, _, drains⟩
  · rw [drains] at stops
    cases stops
  · rw [drains] at stops
    cases stops
    rfl

theorem reading_alike (power : Associativity) (pending : List Pending)
    {reading other : Except CalculationError Token} (alike : Alike errors reading other) :
    PlansAlike errors (ofReading power pending reading) (ofReading power pending other) := by
  cases alike with
  | numbers value other => exact ⟨rfl, .continues pending⟩
  | operators operator => exact plansAlike_refl fun _ stops => fault_of_token stops
  | openParens => exact plansAlike_refl fun _ stops => fault_of_token stops
  | closeParens => exact plansAlike_refl fun _ stops => fault_of_token stops
  | unread related => exact ⟨rfl, .stops related⟩

theorem scan_alike (power : Associativity) (pending : List Pending)
    {first second : List (Except CalculationError Token)}
    (alike : List.Forall₂ (Alike errors) first second) :
    PlansAlike errors (scan power pending first) (scan power pending second) := by
  induction alike generalizing pending with
  | nil => exact ⟨rfl, .continues pending⟩
  | cons same rest ih =>
      apply (reading_alike power pending same).andThen
      intro next
      exact ih next

theorem ofReadings_alike (power : Associativity)
    {first second : List (Except CalculationError Token)}
    (alike : List.Forall₂ (Alike errors) first second) :
    PlansAlike errors (ofReadings power first) (ofReadings power second) := by
  apply (scan_alike power [] alike).andThen
  intro pending
  exact plansAlike_refl fun _ stops => fault_of_drain stops

theorem run_of_settle {plan : Plan} (defined : plan.settle ≠ .error .divisionByZero) :
    run plan.program [] ≠ .error .divisionByZero := by
  intro failed
  exact defined (by rw [settle, failed])

/-- Two programs that count alike and divide by no zero fail at the same operator, or leave as many
operands. -/
theorem runs_of_alike {plan other : Plan} (alike : PlansAlike errors plan other)
    (defined : plan.settle ≠ .error .divisionByZero)
    (otherDefined : other.settle ≠ .error .divisionByZero) :
    (∃ operator, run plan.program [] = .error (.missingOperand operator) ∧
      run other.program [] = .error (.missingOperand operator)) ∨
    ∃ operands others, run plan.program [] = .ok operands ∧ run other.program [] = .ok others ∧
      others.length = operands.length := by
  have counted := length_of_run_eq_tally (run_of_settle defined)
  have otherCounted := length_of_run_eq_tally (run_of_settle otherDefined)
  rw [← alike.counts, ← counted] at otherCounted
  cases ran : run plan.program [] with
  | error error =>
      cases otherRan : run other.program [] with
      | ok others =>
          rw [ran, otherRan] at otherCounted
          cases otherCounted
      | error another =>
          rw [ran, otherRan] at otherCounted
          cases otherCounted
          cases error_of_run ran with
          | missing operator => exact Or.inl ⟨operator, rfl, rfl⟩
          | division => exact (run_of_settle defined ran).elim
  | ok operands =>
      cases otherRan : run other.program [] with
      | error another =>
          rw [ran, otherRan] at otherCounted
          cases otherCounted
      | ok others =>
          rw [ran, otherRan] at otherCounted
          exact Or.inr ⟨operands, others, rfl, rfl, Except.ok.inj otherCounted⟩

theorem verdict_of_alike {first second : List (Except CalculationError Token)} {plan other : Plan}
    (alike : PlansAlike (SameItem first second) plan other)
    (defined : plan.settle ≠ .error .divisionByZero)
    (otherDefined : other.settle ≠ .error .divisionByZero) :
    SameVerdict first second plan.settle other.settle := by
  rcases runs_of_alike alike defined otherDefined with
    ⟨operator, ran, otherRan⟩ | ⟨operands, others, ran, otherRan, lengths⟩
  · simp only [settle, ran, otherRan]
    exact .missing operator
  · have status := alike.status
    generalize ends : plan.status = reached, otherEnds : other.status = otherReached at status
    cases status with
    | mismatched =>
        simp only [settle, ran, otherRan, ends, otherEnds]
        exact .mismatched
    | stops item =>
        simp only [settle, ran, otherRan, ends, otherEnds]
        exact .unread item
    | continues pending =>
        rcases settle_of_lengths ran otherRan ends otherEnds lengths with
          ⟨value, another, valued, otherValued⟩ | ⟨count, counted, otherCounted⟩
        · rw [valued, otherValued]
          exact .valued value another
        · rw [counted, otherCounted]
          exact .counted count

end Plan

namespace Evaluator

open Lexeme

/-- Two texts that agree item by item in kind get the same verdict, unless one divides by zero. -/
theorem values_have_no_say (evaluator : Evaluator) {first second : List Char}
    (alike : List.Forall₂ (Alike CalculationError.SameKind) (readings first) (readings second))
    (defined : evaluator.evaluate first ≠ .error .divisionByZero)
    (otherDefined : evaluator.evaluate second ≠ .error .divisionByZero) :
    SameVerdict (readings first) (readings second) (evaluator.evaluate first)
      (evaluator.evaluate second) := by
  rw [Plan.evaluate_settles_plan] at defined otherDefined ⊢
  rw [Plan.evaluate_settles_plan]
  have plans := Plan.ofReadings_alike evaluator.power (alike_at_items alike)
  exact Plan.verdict_of_alike plans defined otherDefined

/-- Two texts that end in different malformed numbers, and two that lack an operand behind different
quotients. -/
theorem values_have_no_say_in_two_pairs :
    (List.Forall₂ (Alike CalculationError.SameKind) (readings "2*1.2.3".toList)
        (readings "7 * ..".toList) ∧
      Evaluator.standard.evaluate "2*1.2.3".toList = .error (.invalidNumber "1.2.3".toList 2) ∧
      Evaluator.standard.evaluate "7 * ..".toList = .error (.invalidNumber "..".toList 4) ∧
      SameVerdict (readings "2*1.2.3".toList) (readings "7 * ..".toList)
        (.error (.invalidNumber "1.2.3".toList 2)) (.error (.invalidNumber "..".toList 4))) ∧
    (List.Forall₂ (Alike CalculationError.SameKind) (readings "1/2-".toList)
        (readings "0/3 -".toList) ∧
      Evaluator.standard.evaluate "1/2-".toList = .error (.missingOperand .sub) ∧
      Evaluator.standard.evaluate "0/3 -".toList = .error (.missingOperand .sub) ∧
      SameVerdict (readings "1/2-".toList) (readings "0/3 -".toList)
        (.error (.missingOperand .sub)) (.error (.missingOperand .sub))) := by
  have product : readings "2*1.2.3".toList = [.ok (.number 2.0), .ok (.operator .mul),
      .error (.invalidNumber "1.2.3".toList 2)] := by decide +kernel
  have otherProduct : readings "7 * ..".toList = [.ok (.number 7.0), .ok (.operator .mul),
      .error (.invalidNumber "..".toList 4)] := by decide +kernel
  have quotient : readings "1/2-".toList = [.ok (.number 1.0), .ok (.operator .div),
      .ok (.number 2.0), .ok (.operator .sub)] := by decide +kernel
  have otherQuotient : readings "0/3 -".toList = [.ok (.number 0.0), .ok (.operator .div),
      .ok (.number 3.0), .ok (.operator .sub)] := by decide +kernel
  have malformed : List.Forall₂ (Alike CalculationError.SameKind) (readings "2*1.2.3".toList)
      (readings "7 * ..".toList) := by
    rw [product, otherProduct]
    exact .cons (.numbers _ _) (.cons (.operators _) (.cons (.unread (.numbers _ _ _ _)) .nil))
  have lacking : List.Forall₂ (Alike CalculationError.SameKind) (readings "1/2-".toList)
      (readings "0/3 -".toList) := by
    rw [quotient, otherQuotient]
    exact .cons (.numbers _ _) (.cons (.operators _) (.cons (.numbers _ _)
      (.cons (.operators _) .nil)))
  have first : Evaluator.standard.evaluate "2*1.2.3".toList =
      .error (.invalidNumber "1.2.3".toList 2) := by decide +kernel
  have second : Evaluator.standard.evaluate "7 * ..".toList =
      .error (.invalidNumber "..".toList 4) := by decide +kernel
  have third : Evaluator.standard.evaluate "1/2-".toList = .error (.missingOperand .sub) := by
    decide +kernel
  have fourth : Evaluator.standard.evaluate "0/3 -".toList = .error (.missingOperand .sub) := by
    decide +kernel
  have unread := values_have_no_say Evaluator.standard malformed (by rw [first]; simp)
    (by rw [second]; simp)
  have missing := values_have_no_say Evaluator.standard lacking (by rw [third]; simp)
    (by rw [fourth]; simp)
  rw [first, second] at unread
  rw [third, fourth] at missing
  exact ⟨⟨malformed, first, second, unread⟩, lacking, third, fourth, missing⟩

end Evaluator

end Calculator
