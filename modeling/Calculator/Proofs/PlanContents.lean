import Calculator.Proofs.Schedule
import Mathlib.Data.List.Perm.Subperm

/-!
What a plan consists of.

Numbers go into the program where they are read, and every operator that is read is either applied
by the program or still waiting. So the program holds the numbers in the order of the text and no
operator twice, and a plan without a fault has applied each operator.
-/

set_option autoImplicit false

open scoped List

namespace Calculator

def waiting : List Pending → List Operator
  | [] => []
  | .operator operator :: pending => operator :: waiting pending
  | .openParen :: pending => waiting pending

theorem waiting_operators_append (operators : List Operator) (pending : List Pending) :
    waiting (operators.map .operator ++ pending) = operators ++ waiting pending := by
  induction operators with
  | nil => rfl
  | cons operator operators ih => exact congrArg (operator :: ·) ih

namespace Plan

open Postfix

theorem released_append_waiting_kept (ready : Operator → Bool) (pending : List Pending) :
    released ready pending ++ waiting (kept ready pending) = waiting pending := by
  rw [← waiting_operators_append, released_append_kept]

/-- A program against the tokens that were read for it: `before` was waiting when they came, and
`left` is waiting behind them. -/
structure Accounts (program : List Instruction) (before : List Operator) (read : List Token)
    (left : List Operator) : Prop where
  numbers : pushed program = numbersOf read
  operators : (applied program ++ left).Perm (before ++ operatorsOf read)

/-- Where a plan stops: behind the last reading, at one that is an error itself, or at a closing
parenthesis that has no partner and finds nothing more to release. -/
def StopsAt (rest : List (Except CalculationError Token)) (left : List Operator) :
    Except CalculationError (List Pending) → Prop
  | .ok pending => rest = [] ∧ left = waiting pending
  | .error fault =>
      (∃ later, rest = .error fault :: later) ∨
        (fault = .mismatchedParentheses ∧ left = [] ∧ ∃ later, rest = .ok .closeParen :: later)

theorem Accounts.refl (operators : List Operator) : Accounts [] operators [] operators :=
  ⟨rfl, by simp [applied, operatorsOf]⟩

theorem Accounts.append {program later : List Instruction} {before between left : List Operator}
    {read more : List Token} (first : Accounts program before read between)
    (second : Accounts later between more left) :
    Accounts (program ++ later) before (read ++ more) left := by
  constructor
  · rw [pushed_append, numbersOf_append, first.numbers, second.numbers]
  · rw [applied_append, operatorsOf_append]
    calc applied program ++ applied later ++ left
        = applied program ++ (applied later ++ left) := List.append_assoc ..
      _ ~ applied program ++ (between ++ operatorsOf more) := second.operators.append_left _
      _ = applied program ++ between ++ operatorsOf more := (List.append_assoc ..).symm
      _ ~ before ++ operatorsOf read ++ operatorsOf more := first.operators.append_right _
      _ = before ++ (operatorsOf read ++ operatorsOf more) := List.append_assoc ..

theorem Accounts.subperm {program : List Instruction} {read : List Token} {left : List Operator}
    (accounts : Accounts program [] read left) :
    (applied program).Subperm (operatorsOf read) :=
  (List.sublist_append_left _ left).subperm.trans accounts.operators.subperm

theorem Accounts.perm {program : List Instruction} {read : List Token}
    (accounts : Accounts program [] read []) : (applied program).Perm (operatorsOf read) := by
  simpa only [List.append_nil, List.nil_append] using accounts.operators

theorem released_accounts (ready : Operator → Bool) (pending : List Pending) :
    Accounts ((released ready pending).map .apply) (waiting pending) []
      (waiting (kept ready pending)) := by
  constructor
  · exact pushed_map_apply _
  · simp only [applied_map_apply, released_append_waiting_kept, operatorsOf, List.append_nil]
    exact List.Perm.refl _

theorem token_accounts (power : Associativity) (pending : List Pending) (token : Token) :
    (∃ next, (ofToken power pending token).status = .ok next ∧
      Accounts (ofToken power pending token).program (waiting pending) [token] (waiting next)) ∨
    ((ofToken power pending token).status = .error .mismatchedParentheses ∧
      token = .closeParen ∧
      Accounts (ofToken power pending token).program (waiting pending) [] []) := by
  cases token with
  | number value =>
      refine Or.inl ⟨pending, rfl, rfl, ?_⟩
      simp [ofToken, applied, operatorsOf]
  | openParen =>
      refine Or.inl ⟨.openParen :: pending, rfl, rfl, ?_⟩
      simp [ofToken, applied, operatorsOf, waiting]
  | operator incoming =>
      have released := released_accounts (fun waiting => waiting.appliesBefore incoming power)
        pending
      have waits (behind : List Operator) :
          Accounts [] behind [.operator incoming] (incoming :: behind) :=
        ⟨rfl, (List.perm_append_singleton incoming behind).symm⟩
      have both := released.append (waits _)
      rw [List.append_nil] at both
      rw [ofToken_operator]
      exact Or.inl ⟨_, rfl, both⟩
  | closeParen =>
      have released := released_accounts (fun _ => true) pending
      rw [ofToken]
      rcases closeGroup_cases pending with ⟨unopened, closed⟩ | ⟨outer, group, closed⟩
      · rw [unopened] at released
        rw [closed]
        exact Or.inr ⟨rfl, rfl, released⟩
      · rw [group] at released
        rw [closed]
        exact Or.inl ⟨outer, rfl, released.numbers, released.operators⟩

theorem scan_accounts (power : Associativity) (pending : List Pending)
    (readings : List (Except CalculationError Token)) :
    ∃ read rest left, readings = read.map .ok ++ rest ∧
      Accounts (scan power pending readings).program (waiting pending) read left ∧
      StopsAt rest left (scan power pending readings).status := by
  induction readings generalizing pending with
  | nil => exact ⟨[], [], waiting pending, rfl, Accounts.refl _, rfl, rfl⟩
  | cons reading readings ih =>
      cases reading with
      | error error =>
          exact ⟨[], .error error :: readings, waiting pending, rfl, Accounts.refl _,
            Or.inl ⟨readings, rfl⟩⟩
      | ok token =>
          simp only [scan, ofReading]
          rcases token_accounts power pending token with
            ⟨next, continues, first⟩ | ⟨stops, rfl, first⟩
          · obtain ⟨read, rest, left, split, second, stop⟩ := ih next
            rw [andThen_of_ok _ continues]
            exact ⟨token :: read, rest, left, by simp [split], first.append second, stop⟩
          · rw [andThen_of_error _ stops]
            exact ⟨[], .ok .closeParen :: readings, [], rfl, first,
              Or.inr ⟨rfl, rfl, readings, rfl⟩⟩

/-- A plan with other numbers in it, and with a fault told in another way. -/
def revise (change : Float → Float) (alter : CalculationError → CalculationError)
    (plan : Plan) : Plan :=
  ⟨plan.program.map (Instruction.renumber change), plan.status.mapError alter⟩

theorem revise_andThen (change : Float → Float) (alter : CalculationError → CalculationError)
    (plan : Plan) (next : List Pending → Plan) :
    (plan.andThen next).revise change alter =
      (plan.revise change alter).andThen fun pending => (next pending).revise change alter := by
  obtain ⟨program, status⟩ := plan
  cases status with
  | error fault => rfl
  | ok pending => simp [andThen, revise, Except.mapError]

theorem release_revise (change : Float → Float) (alter : CalculationError → CalculationError)
    (ready : Operator → Bool) (pending : List Pending) :
    (release ready pending).revise change alter = release ready pending := by
  simp [release, revise, Except.mapError, Function.comp_def, Instruction.renumber]

theorem drain_revise (change : Float → Float) {alter : CalculationError → CalculationError}
    (fixed : alter .mismatchedParentheses = .mismatchedParentheses) (pending : List Pending) :
    (drain pending).revise change alter = drain pending := by
  rw [drain, revise_andThen, release_revise]
  congr 1
  funext kept
  rcases kept with _ | ⟨top, kept⟩
  · rfl
  · simp [revise, Except.mapError, fixed]

theorem token_revise (change : Float → Float) {alter : CalculationError → CalculationError}
    (fixed : alter .mismatchedParentheses = .mismatchedParentheses) (power : Associativity)
    (pending : List Pending) (token : Token) :
    (ofToken power pending token).revise change alter =
      ofToken power pending (token.renumber change) := by
  cases token with
  | number value => rfl
  | openParen => rfl
  | operator incoming =>
      simp only [ofToken, Token.renumber]
      rw [revise_andThen, release_revise]
      rfl
  | closeParen =>
      simp only [ofToken, Token.renumber, closeGroup]
      rw [revise_andThen, release_revise]
      congr 1
      funext kept
      rcases kept with _ | ⟨_ | _, kept⟩ <;> simp [revise, Except.mapError, fixed]

/-- Planning is blind to numbers, and to what the errors of the text say. -/
theorem scan_revise (change : Float → Float) {alter : CalculationError → CalculationError}
    (fixed : alter .mismatchedParentheses = .mismatchedParentheses) (power : Associativity)
    (pending : List Pending) (readings : List (Except CalculationError Token)) :
    (scan power pending readings).revise change alter =
      scan power pending
        (readings.map fun reading => (reading.map (Token.renumber change)).mapError alter) := by
  induction readings generalizing pending with
  | nil => rfl
  | cons reading readings ih =>
      have first : (ofReading power pending reading).revise change alter =
          ofReading power pending ((reading.map (Token.renumber change)).mapError alter) := by
        cases reading with
        | error error => rfl
        | ok token => exact token_revise change fixed power pending token
      simp only [scan, List.map_cons]
      rw [revise_andThen, first]
      congr 1
      funext pending
      exact ih pending

theorem ofReadings_revise (change : Float → Float) {alter : CalculationError → CalculationError}
    (fixed : alter .mismatchedParentheses = .mismatchedParentheses) (power : Associativity)
    (readings : List (Except CalculationError Token)) :
    (ofReadings power readings).revise change alter =
      ofReadings power
        (readings.map fun reading => (reading.map (Token.renumber change)).mapError alter) := by
  simp only [ofReadings]
  rw [revise_andThen, scan_revise change fixed]
  congr 1
  funext pending
  exact drain_revise change fixed pending

/-- The program of a whole text holds the numbers that were read in their order and every operator
that was read at most once, and it holds each of them once unless the text ends in an error or in
an open group. The reading goes up to the first reading that is an error, or to a closing
parenthesis without a partner. -/
def Covers (plan : Plan) (readings : List (Except CalculationError Token)) : Prop :=
  ∃ read rest, readings = read.map .ok ++ rest ∧
    pushed plan.program = numbersOf read ∧
    (applied plan.program).Subperm (operatorsOf read) ∧
    match plan.status with
    | .ok pending =>
        pending = [] ∧ rest = [] ∧ (applied plan.program).Perm (operatorsOf read)
    | .error fault =>
        (∃ later, rest = .error fault :: later) ∨
        (fault = .mismatchedParentheses ∧ rest = []) ∨
        (fault = .mismatchedParentheses ∧ (∃ later, rest = .ok .closeParen :: later) ∧
          (applied plan.program).Perm (operatorsOf read))

theorem ofReadings_covers (power : Associativity)
    (readings : List (Except CalculationError Token)) :
    (ofReadings power readings).Covers readings := by
  obtain ⟨read, rest, left, split, accounts, stop⟩ := scan_accounts power [] readings
  refine ⟨read, rest, split, ?_⟩
  unfold ofReadings
  cases reached : (scan power [] readings).status with
  | error fault =>
      rw [andThen_of_error _ reached]
      rw [reached] at stop
      refine ⟨accounts.numbers, accounts.subperm, ?_⟩
      rcases stop with later | ⟨mismatch, rfl, later⟩
      · exact Or.inl later
      · exact Or.inr (Or.inr ⟨mismatch, later, accounts.perm⟩)
  | ok pending =>
      rw [reached] at stop
      obtain ⟨rfl, rfl⟩ := stop
      have all := accounts.append (released_accounts (fun _ => true) pending)
      rw [List.append_nil] at all
      rw [andThen_of_ok _ reached]
      rcases drain_cases pending with ⟨unopened, drained⟩ | ⟨outer, group, drained⟩
      · rw [unopened] at all
        rw [drained]
        exact ⟨all.numbers, all.subperm, rfl, rfl, all.perm⟩
      · rw [drained]
        exact ⟨all.numbers, all.subperm, Or.inr (Or.inl ⟨rfl, rfl⟩)⟩

theorem ofReadings_renumber (change : Float → Float) (power : Associativity)
    (readings : List (Except CalculationError Token)) :
    ofReadings power (readings.map (Except.map (Token.renumber change))) =
      (ofReadings power readings).revise change id := by
  have same : (readings.map fun reading => (reading.map (Token.renumber change)).mapError id) =
      readings.map (Except.map (Token.renumber change)) := by
    apply List.map_congr_left
    intro reading _
    cases reading <;> rfl
  rw [ofReadings_revise change rfl, same]

theorem revise_id (alter : CalculationError → CalculationError) (plan : Plan) :
    plan.revise id alter = ⟨plan.program, plan.status.mapError alter⟩ := by
  rw [revise, Instruction.renumber_id, List.map_id]

theorem map_renumber_id (alter : CalculationError → CalculationError)
    (readings : List (Except CalculationError Token)) :
    (readings.map fun reading => (reading.map (Token.renumber id)).mapError alter) =
      readings.map fun reading => reading.mapError alter := by
  apply List.map_congr_left
  intro reading _
  rw [Token.renumber_id]
  cases reading <;> rfl

theorem scan_mapError {alter : CalculationError → CalculationError}
    (fixed : alter .mismatchedParentheses = .mismatchedParentheses) (power : Associativity)
    (pending : List Pending) (readings : List (Except CalculationError Token)) :
    scan power pending (readings.map fun reading => reading.mapError alter) =
      ⟨(scan power pending readings).program,
        (scan power pending readings).status.mapError alter⟩ := by
  rw [← map_renumber_id, ← scan_revise id fixed, revise_id]

theorem ofReadings_mapError {alter : CalculationError → CalculationError}
    (fixed : alter .mismatchedParentheses = .mismatchedParentheses) (power : Associativity)
    (readings : List (Except CalculationError Token)) :
    ofReadings power (readings.map fun reading => reading.mapError alter) =
      ⟨(ofReadings power readings).program,
        (ofReadings power readings).status.mapError alter⟩ := by
  rw [← map_renumber_id, ← ofReadings_revise id fixed, revise_id]

/-- An evaluation is two phases: a planning that no number has an influence on, and the run of the
program that was planned. -/
theorem evaluate_is_two_phases (evaluator : Evaluator) (text : List Char) :
    let readings := Lexeme.readings text
    let plan := ofReadings evaluator.power readings
    evaluator.evaluate text = plan.settle ∧
      (∀ error, run plan.program [] = .error error ↔
        ∃ before operator later operands, plan.program = before ++ .apply operator :: later ∧
          run before [] = .ok operands ∧
          ((operands.length < 2 ∧ error = .missingOperand operator) ∨
            (∃ right left rest, operands = right :: left :: rest ∧ operator = .div ∧
              (right == 0.0) = true ∧ error = .divisionByZero))) ∧
      plan.Covers readings ∧
      ∀ change, ofReadings evaluator.power (readings.map (Except.map (Token.renumber change))) =
        plan.revise change id := by
  intro readings plan
  refine ⟨evaluate_settles_plan evaluator text, ?_, ofReadings_covers _ _, ?_⟩
  · intro error
    simp only [run_eq_error_iff, perform_apply_eq_error_iff]
  · intro change
    exact ofReadings_renumber change evaluator.power readings

end Plan

end Calculator
