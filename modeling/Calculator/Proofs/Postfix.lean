import Calculator.Operator.Arithmetic

/-!
Postfix programs over a stack of operands.

A program knows nothing of precedence or of parentheses: it pushes numbers and applies operators
in the order in which they stand. Where a program starts on a deeper stack than it needs, it
never looks at the surplus; only a missing operand could tell the difference.
-/

set_option autoImplicit false

namespace Calculator

inductive Instruction where
  | push (value : Float)
  | apply (operator : Operator)
  deriving DecidableEq

inductive CalculationError.OfOperator : CalculationError → Prop where
  | missing (operator : Operator) : OfOperator (.missingOperand operator)
  | division : OfOperator .divisionByZero

namespace Postfix

/-- One instruction on a stack that has its top first. An operator needs two operands. -/
def perform : Instruction → List Float → Except CalculationError (List Float)
  | .push value, operands => .ok (value :: operands)
  | .apply operator, right :: left :: operands =>
      (operator.apply left right).map fun value => value :: operands
  | .apply operator, _ => .error (.missingOperand operator)

/-- The first instruction that fails decides the error. -/
def run : List Instruction → List Float → Except CalculationError (List Float)
  | [], operands => .ok operands
  | instruction :: program, operands => (perform instruction operands).bind (run program)

def pushed : List Instruction → List Float
  | [] => []
  | .push value :: program => value :: pushed program
  | .apply _ :: program => pushed program

def applied : List Instruction → List Operator
  | [] => []
  | .push _ :: program => applied program
  | .apply operator :: program => operator :: applied program

theorem run_append (program later : List Instruction) (operands : List Float) :
    run (program ++ later) operands = (run program operands).bind (run later) := by
  induction program generalizing operands with
  | nil => rfl
  | cons instruction program ih =>
      simp only [List.cons_append, run]
      cases perform instruction operands with
      | error error => rfl
      | ok reached => exact ih reached

theorem pushed_append (program later : List Instruction) :
    pushed (program ++ later) = pushed program ++ pushed later := by
  induction program with
  | nil => rfl
  | cons instruction program ih => cases instruction <;> simp [pushed, ih]

theorem applied_append (program later : List Instruction) :
    applied (program ++ later) = applied program ++ applied later := by
  induction program with
  | nil => rfl
  | cons instruction program ih => cases instruction <;> simp [applied, ih]

theorem pushed_map_apply (operators : List Operator) :
    pushed (operators.map .apply) = [] := by
  induction operators with
  | nil => rfl
  | cons operator operators ih => simpa [pushed] using ih

theorem applied_map_apply (operators : List Operator) :
    applied (operators.map .apply) = operators := by
  induction operators with
  | nil => rfl
  | cons operator operators ih => simpa [applied] using ih

theorem eq_nil_of_idle {program : List Instruction} (numbers : pushed program = [])
    (operators : applied program = []) : program = [] := by
  cases program with
  | nil => rfl
  | cons instruction program =>
      cases instruction with
      | push value => cases numbers
      | apply operator => cases operators

theorem perform_apply_eq_ok {operator : Operator} {operands reached : List Float}
    (performed : perform (.apply operator) operands = .ok reached) :
    ∃ right left rest value, operands = right :: left :: rest ∧
      operator.apply left right = .ok value ∧ reached = value :: rest := by
  match operands, performed with
  | right :: left :: rest, performed =>
      cases computed : operator.apply left right with
      | error error => simp [perform, computed, Except.map] at performed
      | ok value =>
          simp only [perform, computed, Except.map, Except.ok.injEq] at performed
          exact ⟨right, left, rest, value, rfl, computed, performed.symm⟩

theorem perform_apply_of_short {operator : Operator} {operands : List Float}
    (short : operands.length < 2) :
    perform (.apply operator) operands = .error (.missingOperand operator) := by
  match operands with
  | [] => rfl
  | [_] => rfl
  | _ :: _ :: _ =>
      simp only [List.length_cons] at short
      omega

theorem perform_apply_pair_eq_error_iff {operator : Operator} {right left : Float}
    {rest : List Float} {error : CalculationError} :
    perform (.apply operator) (right :: left :: rest) = .error error ↔
      operator.apply left right = .error error := by
  simp only [perform]
  cases operator.apply left right <;> simp [Except.map]

theorem perform_apply_eq_error_iff {operator : Operator} {operands : List Float}
    {error : CalculationError} :
    perform (.apply operator) operands = .error error ↔
      (operands.length < 2 ∧ error = .missingOperand operator) ∨
      (∃ right left rest, operands = right :: left :: rest ∧ operator = .div ∧
        (right == 0.0) = true ∧ error = .divisionByZero) := by
  constructor
  · intro failed
    by_cases short : operands.length < 2
    · rw [perform_apply_of_short short] at failed
      cases failed
      exact Or.inl ⟨short, rfl⟩
    · match operands, short with
      | right :: left :: rest, _ =>
          have computed := perform_apply_pair_eq_error_iff.mp failed
          have division := Operator.apply_eq_error_iff.mp computed
          exact Or.inr ⟨right, left, rest, rfl, division⟩
      | [], short => exact (short Nat.zero_lt_two).elim
      | [_], short => exact (short Nat.one_lt_two).elim
  · intro cause
    rcases cause with ⟨short, rfl⟩ | ⟨right, left, rest, rfl, division⟩
    · exact perform_apply_of_short short
    · exact perform_apply_pair_eq_error_iff.mpr (Operator.apply_eq_error_iff.mpr division)

theorem run_eq_error_iff {program : List Instruction} {operands : List Float}
    {error : CalculationError} :
    run program operands = .error error ↔
      ∃ before operator later reached, program = before ++ .apply operator :: later ∧
        run before operands = .ok reached ∧
        perform (.apply operator) reached = .error error := by
  constructor
  · intro failed
    induction program generalizing operands with
    | nil => cases failed
    | cons instruction program ih =>
        simp only [run] at failed
        cases performed : perform instruction operands with
        | ok next =>
            rw [performed] at failed
            obtain ⟨before, operator, later, reached, rfl, ran, fails⟩ := ih failed
            refine ⟨instruction :: before, operator, later, reached, rfl, ?_, fails⟩
            rw [run, performed]
            exact ran
        | error first =>
            rw [performed] at failed
            cases instruction with
            | push value => cases performed
            | apply operator =>
                refine ⟨[], operator, program, operands, rfl, rfl, ?_⟩
                rw [performed]
                exact failed
  · rintro ⟨before, operator, later, reached, rfl, ran, fails⟩
    rw [run_append, ran]
    change (perform (.apply operator) reached).bind (run later) = _
    rw [fails]
    rfl

theorem error_of_run {program : List Instruction} {operands : List Float}
    {error : CalculationError} (failed : run program operands = .error error) :
    error.OfOperator := by
  obtain ⟨_, operator, _, _, _, _, fails⟩ := run_eq_error_iff.mp failed
  rcases perform_apply_eq_error_iff.mp fails with ⟨_, rfl⟩ | ⟨_, _, _, _, _, _, rfl⟩
  · exact .missing operator
  · exact .division

theorem length_of_run {program : List Instruction} {operands reached : List Float}
    (ran : run program operands = .ok reached) :
    reached.length + (applied program).length = operands.length + (pushed program).length := by
  induction program generalizing operands with
  | nil =>
      cases ran
      rfl
  | cons instruction program ih =>
      simp only [run] at ran
      cases performed : perform instruction operands with
      | error error => simp [performed, Except.bind] at ran
      | ok next =>
          rw [performed] at ran
          have later := ih ran
          cases instruction with
          | push value =>
              cases performed
              simp only [pushed, applied, List.length_cons] at later ⊢
              omega
          | apply operator =>
              obtain ⟨right, left, rest, value, rfl, -, rfl⟩ := perform_apply_eq_ok performed
              simp only [pushed, applied, List.length_cons] at later ⊢
              omega

theorem ne_nil_of_run {program : List Instruction} {operands reached : List Float}
    (ran : run program operands = .ok reached) (busy : operands ≠ [] ∨ program ≠ []) :
    reached ≠ [] := by
  induction program generalizing operands with
  | nil =>
      cases ran
      exact busy.resolve_right (fun filled => filled rfl)
  | cons instruction program ih =>
      simp only [run] at ran
      cases performed : perform instruction operands with
      | error error => simp [performed, Except.bind] at ran
      | ok next =>
          rw [performed] at ran
          refine ih ran (Or.inl ?_)
          cases instruction with
          | push value =>
              cases performed
              exact List.cons_ne_nil _ _
          | apply operator =>
              obtain ⟨_, _, rest, value, _, _, rfl⟩ := perform_apply_eq_ok performed
              exact List.cons_ne_nil value rest

theorem perform_over_base {instruction : Instruction} {operands reached : List Float}
    (base : List Float) (performed : perform instruction operands = .ok reached) :
    perform instruction (operands ++ base) = .ok (reached ++ base) := by
  cases instruction with
  | push value =>
      cases performed
      rfl
  | apply operator =>
      obtain ⟨right, left, rest, value, rfl, computed, rfl⟩ := perform_apply_eq_ok performed
      simp [perform, computed, Except.map]

theorem run_over_base {program : List Instruction} {operands reached : List Float}
    (base : List Float) (ran : run program operands = .ok reached) :
    run program (operands ++ base) = .ok (reached ++ base) := by
  induction program generalizing operands with
  | nil =>
      cases ran
      rfl
  | cons instruction program ih =>
      simp only [run] at ran ⊢
      cases performed : perform instruction operands with
      | error error => simp [performed, Except.bind] at ran
      | ok next =>
          rw [performed] at ran
          rw [perform_over_base base performed]
          exact ih ran

/-- A zero divisor that a program meets on its own operands is met on a deeper stack too. A
missing operand need not be missing there. -/
theorem run_over_base_of_division {program : List Instruction} {operands : List Float}
    (base : List Float) (failed : run program operands = .error .divisionByZero) :
    run program (operands ++ base) = .error .divisionByZero := by
  obtain ⟨before, operator, later, reached, split, ran, fails⟩ := run_eq_error_iff.mp failed
  refine run_eq_error_iff.mpr ⟨before, operator, later, reached ++ base, split, ?_, ?_⟩
  · exact run_over_base base ran
  · rcases perform_apply_eq_error_iff.mp fails with ⟨_, other⟩ | ⟨right, left, rest, rfl, division⟩
    · cases other
    · exact perform_apply_eq_error_iff.mpr (Or.inr ⟨right, left, rest ++ base, rfl, division⟩)

/-- How many operands a program leaves of so many, whatever their values are. -/
def tally : List Instruction → Nat → Except CalculationError Nat
  | [], count => .ok count
  | .push _ :: program, count => tally program (count + 1)
  | .apply _ :: program, count + 2 => tally program (count + 1)
  | .apply operator :: _, _ => .error (.missingOperand operator)

theorem tally_append (program later : List Instruction) (count : Nat) :
    tally (program ++ later) count = (tally program count).bind (tally later) := by
  induction program generalizing count with
  | nil => rfl
  | cons instruction program ih =>
      cases instruction with
      | push value => exact ih (count + 1)
      | apply operator =>
          match count with
          | 0 => rfl
          | 1 => rfl
          | count + 2 => exact ih (count + 1)

theorem tally_apply_eq_ok {operator : Operator} {program : List Instruction} {count left : Nat}
    (enough : tally (.apply operator :: program) count = .ok left) :
    ∃ fewer, count = fewer + 2 ∧ tally program (fewer + 1) = .ok left := by
  match count with
  | 0 => cases enough
  | 1 => cases enough
  | fewer + 2 => exact ⟨fewer, rfl, enough⟩

theorem tally_map_apply {operators : List Operator} {count left : Nat}
    (enough : tally (operators.map .apply) count = .ok left) : left + operators.length = count := by
  induction operators generalizing count with
  | nil =>
      cases enough
      rfl
  | cons operator operators ih =>
      obtain ⟨fewer, rfl, later⟩ := tally_apply_eq_ok enough
      have counted := ih later
      simp only [List.length_cons]
      omega

/-- Only a zero divisor lets values decide how a run ends. All else is a matter of counting. -/
theorem length_of_run_eq_tally {program : List Instruction} {operands : List Float}
    (defined : run program operands ≠ .error .divisionByZero) :
    (run program operands).map List.length = tally program operands.length := by
  induction program generalizing operands with
  | nil => rfl
  | cons instruction program ih =>
      cases instruction with
      | push value => exact @ih (value :: operands) defined
      | apply operator =>
          match operands, defined with
          | [], _ => rfl
          | [_], _ => rfl
          | right :: left :: rest, defined =>
              simp only [run, perform] at defined ⊢
              cases computed : operator.apply left right with
              | error error =>
                  rw [computed, Operator.error_of_apply_eq_error computed] at defined
                  exact (defined rfl).elim
              | ok value =>
                  rw [computed] at defined
                  exact @ih (value :: rest) defined

theorem tally_of_run {program : List Instruction} {operands reached : List Float}
    (ran : run program operands = .ok reached) :
    tally program operands.length = .ok reached.length := by
  rw [← length_of_run_eq_tally (by rw [ran]; simp), ran]
  rfl

theorem tally_of_missing {program : List Instruction} {operands : List Float}
    {operator : Operator} (failed : run program operands = .error (.missingOperand operator)) :
    tally program operands.length = .error (.missingOperand operator) := by
  rw [← length_of_run_eq_tally (by rw [failed]; simp), failed]
  rfl

end Postfix

end Calculator
