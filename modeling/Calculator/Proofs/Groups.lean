import Calculator.Proofs.PlanContents
import Calculator.Proofs.SafeCut

/-!
Groups are closed worlds.

A text in parentheses is planned on top of an open parenthesis as it is planned alone. Only a
closing parenthesis without a partner tells the two apart, and alone that is an error. So a text
that has a value puts this value, as a group, on whatever operands there are and touches nothing
else, and a text that divides by zero or cannot be read fails as a group in the same way.
-/

set_option autoImplicit false

namespace Calculator

namespace Plan

open Postfix

/-- What a plan becomes in a surrounding that changes the pending by `lift`. Where the plan finds
its parentheses mismatched, the surrounding may go on. -/
structure Carries (lift : List Pending → List Pending) (plan framed : Plan) : Prop where
  begins : plan.program <+: framed.program
  continues : ∀ pending, plan.status = .ok pending →
    framed = ⟨plan.program, .ok (lift pending)⟩
  stops : ∀ fault, plan.status = .error fault → fault ≠ .mismatchedParentheses → framed = plan

theorem carries_of_ok (lift : List Pending → List Pending) (program : List Instruction)
    (pending : List Pending) :
    Carries lift ⟨program, .ok pending⟩ ⟨program, .ok (lift pending)⟩ := by
  constructor
  · exact List.prefix_refl program
  · intro reached same
    cases same
    rfl
  · intro fault same
    cases same

theorem carries_of_fault (lift : List Pending → List Pending) (program : List Instruction)
    (fault : CalculationError) :
    Carries lift ⟨program, .error fault⟩ ⟨program, .error fault⟩ := by
  constructor
  · exact List.prefix_refl program
  · intro pending impossible
    cases impossible
  · intro _ _ _
    rfl

theorem carries_of_mismatch (lift : List Pending → List Pending) {program : List Instruction}
    {framed : Plan} (begins : program <+: framed.program) :
    Carries lift ⟨program, .error .mismatchedParentheses⟩ framed := by
  constructor
  · exact begins
  · intro pending impossible
    cases impossible
  · intro fault same other
    cases same
    exact (other rfl).elim

theorem program_andThen (plan : Plan) (next : List Pending → Plan) :
    plan.program <+: (plan.andThen next).program := by
  cases status : plan.status with
  | error fault =>
      have stays : (plan.andThen next).program = plan.program := by
        rw [andThen_of_error next status]
      simp only [stays, List.prefix_rfl]
  | ok pending =>
      rw [andThen_of_ok next status]
      exact List.prefix_append _ _

theorem Carries.andThen {lift further : List Pending → List Pending} {plan framed : Plan}
    {next framedNext : List Pending → Plan} (first : Carries lift plan framed)
    (second : ∀ pending, Carries further (next pending) (framedNext (lift pending))) :
    Carries further (plan.andThen next) (framed.andThen framedNext) := by
  cases status : plan.status with
  | error fault =>
      rw [andThen_of_error next status]
      by_cases mismatch : fault = .mismatchedParentheses
      · subst mismatch
        exact carries_of_mismatch further (first.begins.trans (program_andThen framed framedNext))
      · have same := first.stops fault status mismatch
        rw [same, andThen_of_error framedNext status]
        exact carries_of_fault further plan.program fault
  | ok pending =>
      have later := second pending
      rw [andThen_of_ok next status, first.continues pending status]
      simp only [Plan.andThen]
      constructor
      · exact (List.prefix_append_right_inj plan.program).mpr later.begins
      · intro reached ends
        rw [later.continues reached ends]
      · intro fault ends other
        rw [later.stops fault ends other]

theorem released_over_barrier (ready : Operator → Bool) (top base : List Pending) :
    released ready (top ++ .openParen :: base) = released ready top := by
  induction top with
  | nil => rfl
  | cons entry top ih => cases entry <;> simp [released, ih]

theorem kept_over_barrier (ready : Operator → Bool) (top base : List Pending) :
    kept ready (top ++ .openParen :: base) = kept ready top ++ .openParen :: base := by
  induction top with
  | nil => rfl
  | cons entry top ih =>
      cases entry with
      | openParen => rfl
      | operator operator => cases goes : ready operator <;> simp [kept, goes, ih]

theorem release_carries (ready : Operator → Bool) (top base : List Pending) :
    Carries (· ++ .openParen :: base) (release ready top)
      (release ready (top ++ .openParen :: base)) := by
  simp only [release, released_over_barrier, kept_over_barrier]
  exact carries_of_ok _ _ _

theorem token_carries (power : Associativity) (top base : List Pending) (token : Token) :
    Carries (· ++ .openParen :: base) (ofToken power top token)
      (ofToken power (top ++ .openParen :: base) token) := by
  cases token with
  | number value => exact carries_of_ok _ _ _
  | openParen => exact carries_of_ok _ _ _
  | operator incoming =>
      simp only [ofToken]
      apply (release_carries _ top base).andThen
      intro kept
      exact carries_of_ok _ _ _
  | closeParen =>
      simp only [ofToken, closeGroup]
      apply (release_carries _ top base).andThen
      intro kept
      rcases kept with _ | ⟨operator | _, kept⟩
      · -- Alone this parenthesis has no partner; in the group it closes the barrier.
        exact carries_of_mismatch _ List.nil_prefix
      · exact carries_of_fault _ _ _
      · exact carries_of_ok _ _ _

theorem scan_carries (power : Associativity) (top base : List Pending)
    (readings : List (Except CalculationError Token)) :
    Carries (· ++ .openParen :: base) (scan power top readings)
      (scan power (top ++ .openParen :: base) readings) := by
  induction readings generalizing top with
  | nil => exact carries_of_ok _ _ _
  | cons reading readings ih =>
      have first : Carries (· ++ .openParen :: base) (ofReading power top reading)
          (ofReading power (top ++ .openParen :: base) reading) := by
        cases reading with
        | ok token => exact token_carries power top base token
        | error error => exact carries_of_fault _ _ _
      exact first.andThen ih

/-- The end of the text and the parenthesis that closes the group release the same operators. -/
theorem drain_carries (top base : List Pending) :
    Carries (fun _ => base) (drain top) (closeGroup (top ++ .openParen :: base)) := by
  simp only [drain, closeGroup]
  apply (release_carries _ top base).andThen
  intro kept
  rcases kept with _ | ⟨entry, kept⟩
  · exact carries_of_ok (fun _ => base) [] []
  · exact carries_of_mismatch _ List.nil_prefix

theorem scan_group (power : Associativity) (base : List Pending)
    (readings : List (Except CalculationError Token)) :
    scan power base (.ok .openParen :: (readings ++ [.ok .closeParen])) =
      (scan power (.openParen :: base) readings).andThen closeGroup := by
  have last (pending : List Pending) :
      scan power pending [.ok .closeParen] = closeGroup pending := by
    simp only [scan, ofReading, ofToken, andThen]
    cases status : (closeGroup pending).status <;> simp [← status]
  change (scan power (.openParen :: base) (readings ++ [.ok .closeParen])) = _
  rw [scan_append]
  congr 1
  funext pending
  exact last pending

theorem group_carries (power : Associativity) (base : List Pending)
    (readings : List (Except CalculationError Token)) :
    Carries (fun _ => base) (ofReadings power readings)
      (scan power base (.ok .openParen :: (readings ++ [.ok .closeParen]))) := by
  rw [scan_group]
  exact (scan_carries power [] base readings).andThen fun pending => drain_carries pending base

/-- Feeding a text in parentheses carries out some plan that the plan of the text carries over to.
The text stands one byte behind its parenthesis. -/
theorem feedAll_group_is_planned (evaluator : Evaluator) (state : Stacks) (offset : Nat)
    (text : List Char) :
    ∃ framed : Plan,
      Carries (fun _ => state.pending)
        ⟨(ofReadings evaluator.power (Lexeme.readings text)).program,
          (ofReadings evaluator.power (Lexeme.readings text)).status.mapError
            (CalculationError.shift (offset + 1))⟩ framed ∧
      (evaluator.feedAll state ((Lexeme.scan ('(' :: (text ++ [')']))).map
          (Lexeme.shift offset))).mapError Stacks.Failure.error =
        framed.on state.operands := by
  have located : ((Lexeme.scan ('(' :: (text ++ [')']))).map (Lexeme.shift offset)).map
      Lexeme.token =
        .ok .openParen :: ((Lexeme.readings text).map (fun reading =>
          reading.mapError (CalculationError.shift (offset + 1))) ++ [.ok .closeParen]) := by
    rw [Lexeme.map_token_shift, ← Lexeme.readings, Lexeme.readings_group]
    simp only [List.map_cons, List.map_append, List.map_map, List.map_nil, Except.mapError]
    congr 2
    apply List.map_congr_left
    intro reading _
    cases reading with
    | ok token => rfl
    | error error =>
        simp only [Function.comp_apply]
        rw [CalculationError.shift_shift, Nat.add_comm]
  have fixed : CalculationError.shift (offset + 1) .mismatchedParentheses =
      .mismatchedParentheses := rfl
  refine ⟨_, ?_, feedAll_is_planned evaluator state _⟩
  rw [located, ← ofReadings_mapError fixed]
  exact group_carries evaluator.power state.pending _

theorem on_of_settle_eq_ok {plan framed : Plan} {alter : CalculationError → CalculationError}
    {pending : List Pending} {value : Float} (operands : List Float)
    (settled : plan.settle = .ok value)
    (carries : Carries (fun _ => pending) ⟨plan.program, plan.status.mapError alter⟩ framed) :
    framed.on operands = .ok ⟨value :: operands, pending⟩ := by
  obtain ⟨ran, reached, status⟩ := settle_eq_ok settled
  have deeper : run plan.program operands = .ok (value :: operands) :=
    run_over_base operands ran
  have lifted := carries.continues reached (by rw [status]; rfl)
  rw [lifted, on]
  simp only [deeper]
  rfl

theorem on_of_settle_eq_error {plan framed : Plan} {offset : Nat} {pending : List Pending}
    {error : CalculationError} (operands : List Float) (settled : plan.settle = .error error)
    (early : ∀ operator, error ≠ .missingOperand operator)
    (matched : error ≠ .mismatchedParentheses)
    (counted : ∀ count, error ≠ .operandCount count)
    (carries : Carries (fun _ => pending)
      ⟨plan.program, plan.status.mapError (CalculationError.shift offset)⟩ framed) :
    framed.on operands = .error (error.shift offset) := by
  rcases settle_eq_error settled with failed | ⟨reached, ran, status | count⟩
  · cases error_of_run failed with
    | missing operator => exact (early operator rfl).elim
    | division =>
        have deeper : run plan.program operands = .error .divisionByZero :=
          run_over_base_of_division operands failed
        obtain ⟨more, longer⟩ := carries.begins
        rw [on, ← longer, run_append, deeper]
        rfl
  · have deeper : run plan.program operands = .ok (reached ++ operands) :=
      run_over_base operands ran
    have shifted : error.shift offset ≠ .mismatchedParentheses := by
      cases error <;> simp_all [CalculationError.shift]
    have same := carries.stops (error.shift offset) (by rw [status]; rfl) shifted
    rw [same, on]
    simp only [deeper, status]
    rfl
  · exact (counted _ count).elim

end Plan

/-- A group in any context: a text with a value adds that value to the operands and leaves all
else as it was, and a text that divides by zero or cannot be read fails in the same place. -/
theorem feedAll_group (evaluator : Evaluator) (state : Stacks) (offset : Nat)
    (text : List Char) :
    let group := (Lexeme.scan ('(' :: (text ++ [')']))).map (Lexeme.shift offset)
    (∀ value, evaluator.evaluate text = .ok value →
      evaluator.feedAll state group = .ok (state.pushOperand value)) ∧
    (∀ error, evaluator.evaluate text = .error error →
      (error = .divisionByZero ∨
        (∃ character position, error = .invalidCharacter character position) ∨
        ∃ literal position, error = .invalidNumber literal position) →
      ∃ left, evaluator.feedAll state group = .error ⟨error.shift (offset + 1), left⟩) := by
  intro group
  obtain ⟨framed, carries, fed⟩ := Plan.feedAll_group_is_planned evaluator state offset text
  rw [Plan.evaluate_settles_plan]
  constructor
  · intro value settled
    rw [Plan.on_of_settle_eq_ok state.operands settled carries] at fed
    cases outcome : evaluator.feedAll state group with
    | ok reached =>
        rw [outcome] at fed
        cases fed
        rfl
    | error failure =>
        rw [outcome] at fed
        cases fed
  · intro error settled kind
    have carried := Plan.on_of_settle_eq_error state.operands settled
      (by rintro _ rfl; simp at kind) (by rintro rfl; simp at kind)
      (by rintro _ rfl; simp at kind) carries
    rw [carried] at fed
    cases outcome : evaluator.feedAll state group with
    | ok reached =>
        rw [outcome] at fed
        cases fed
    | error failure =>
        rw [outcome] at fed
        obtain ⟨told, left⟩ := failure
        cases fed
        exact ⟨left, rfl⟩

/-- A sum and an unreadable text as groups, under operators and an open parenthesis that wait. -/
theorem feedAll_group_of_sum :
    let state : Stacks := ⟨[2.0], [.operator .pow, .openParen, .operator .add]⟩
    let group (text : List Char) :=
      (Lexeme.scan ('(' :: (text ++ [')']))).map (Lexeme.shift 7)
    Evaluator.standard.evaluate "1+2".toList = .ok 3.0 ∧
      Evaluator.standard.feedAll state (group "1+2".toList) = .ok (state.pushOperand 3.0) ∧
      Evaluator.standard.evaluate "1$".toList = .error (.invalidCharacter '$' 1) ∧
      ∃ left, Evaluator.standard.feedAll state (group "1$".toList) =
        .error ⟨.invalidCharacter '$' 9, left⟩ := by
  intro state group
  have sum : Evaluator.standard.evaluate "1+2".toList = .ok 3.0 := by decide +kernel
  have unreadable : Evaluator.standard.evaluate "1$".toList =
      .error (.invalidCharacter '$' 1) := by decide +kernel
  have added := (feedAll_group Evaluator.standard state 7 "1+2".toList).1 3.0 sum
  have failed := (feedAll_group Evaluator.standard state 7 "1$".toList).2 _ unreadable
    (Or.inr (Or.inl ⟨'$', 1, rfl⟩))
  exact ⟨sum, added, unreadable, failed⟩

end Calculator
