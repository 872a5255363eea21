import Calculator.Proofs.Schedule

/-!
What a release leaves on the stacks.

Operators are applied one by one, and each takes two operands and gives one back, so an operation
that stops halfway has already replaced some of them. What it leaves can still be told from the
number of operators that it took: the operands below those that they needed are as they were, and
above them is the one value that was computed, or nothing if the last operator failed. The pending
entries lose these operators and, from the open parenthesis downwards, nothing.
-/

set_option autoImplicit false

namespace Calculator

namespace Plan

theorem kept_suffix (ready : Operator → Bool) (pending : List Pending) :
    kept ready pending <:+ pending :=
  ⟨_, released_append_kept ready pending⟩

theorem not_ready_of_kept {ready : Operator → Bool} {pending rest : List Pending}
    {top : Operator} (stays : kept ready pending = .operator top :: rest) : ready top = false := by
  induction pending with
  | nil => cases stays
  | cons entry pending ih =>
      cases entry with
      | openParen => cases stays
      | operator operator =>
          cases goes : ready operator with
          | false =>
              simp only [kept, goes] at stays
              cases stays
              exact goes
          | true =>
              simp only [kept, goes, if_true] at stays
              exact ih stays

theorem released_of_group (ready : Operator → Bool) (pending : List Pending) :
    ∃ waiting, released (fun _ => true) pending = released ready pending ++ waiting ∧
      kept ready pending = waiting.map .operator ++ kept (fun _ => true) pending := by
  induction pending with
  | nil => exact ⟨[], rfl, rfl⟩
  | cons top pending ih =>
      cases top with
      | openParen => exact ⟨[], rfl, rfl⟩
      | operator operator =>
          obtain ⟨waiting, group, rest⟩ := ih
          cases goes : ready operator with
          | true => exact ⟨waiting, by simp [released, goes, group], by simp [kept, goes, rest]⟩
          | false =>
              refine ⟨operator :: released (fun _ => true) pending, ?_, ?_⟩
              · simp [released, goes]
              · simp [kept, goes, released_append_kept]

theorem ready_of_released (ready : Operator → Bool) (pending : List Pending) :
    ∀ operator ∈ released ready pending, ready operator = true := by
  induction pending with
  | nil => simp [released]
  | cons top pending ih =>
      cases top with
      | openParen => simp [released]
      | operator operator =>
          cases goes : ready operator with
          | false => simp [released, goes]
          | true => simpa [released, goes] using ih

end Plan

namespace Stacks

open Postfix

/-- What is left of operands by operators that were taken from the top down. All of them have been
applied, or the last one has failed with the error. It failed at a zero divisor, with the operands
that it needed gone, or because they were not there, with none left at all. -/
inductive Leaves (operands : List Float) (taken : List Operator) :
    Option CalculationError → List Float → Prop where
  | untouched (idle : taken = []) : Leaves operands taken none operands
  | computed {value : Float} (busy : taken ≠ []) (enough : taken.length < operands.length)
      (ran : run (taken.map .apply) (operands.take (taken.length + 1)) = .ok [value]) :
      Leaves operands taken none (value :: operands.drop (taken.length + 1))
  | divided (enough : taken.length < operands.length)
      (failed : run (taken.map .apply) (operands.take (taken.length + 1)) =
        .error .divisionByZero) :
      Leaves operands taken (some .divisionByZero) (operands.drop (taken.length + 1))
  | starved {operator : Operator} (few : operands.length ≤ taken.length)
      (last : taken.getLast? = some operator) :
      Leaves operands taken (some (.missingOperand operator)) []

theorem Leaves.behind {operator : Operator} {right left value : Float} {rest reached : List Float}
    {taken : List Operator} {outcome : Option CalculationError}
    (applied : operator.apply left right = .ok value)
    (leaves : Leaves (value :: rest) taken outcome reached) :
    Leaves (right :: left :: rest) (operator :: taken) outcome reached := by
  have first (program : List Instruction) (count : Nat) :
      run (.apply operator :: program) ((right :: left :: rest).take (count + 1 + 1)) =
        run program ((value :: rest).take (count + 1)) := by
    simp [run, perform, applied, Except.map, Except.bind]
  cases leaves with
  | untouched idle =>
      subst idle
      refine .computed (by simp) (by simp) ?_
      exact first [] 0
  | computed busy enough ran =>
      refine .computed (by simp) (by simpa using enough) ?_
      rw [List.map_cons, List.length_cons, first, ran]
  | divided enough failed =>
      refine .divided (by simpa using enough) ?_
      rw [List.map_cons, List.length_cons, first, failed]
  | starved few last =>
      refine .starved (by simpa using few) ?_
      rw [List.getLast?_cons, last]
      rfl

theorem leaves_of_failed_reduce {operator : Operator} {operands left : List Float}
    {error : CalculationError} (failed : reduce operator operands = .error (error, left)) :
    Leaves operands [operator] (some error) left := by
  match operands, failed with
  | right :: below :: rest, failed =>
      simp only [reduce] at failed
      cases computed : operator.apply below right with
      | ok value => simp [computed] at failed
      | error fault =>
          have zero := Operator.error_of_apply_eq_error computed
          simp only [computed, Except.error.injEq, Prod.mk.injEq] at failed
          obtain ⟨rfl, rfl⟩ := failed
          rw [zero] at computed ⊢
          refine .divided (by simp) ?_
          simp [run, perform, computed, Except.map, Except.bind]
  | [single], failed =>
      cases failed
      exact .starved (Nat.le_refl 1) rfl
  | [], failed =>
      cases failed
      exact .starved (Nat.zero_le 1) rfl

theorem reduce_eq_ok {operator : Operator} {operands reached : List Float}
    (reduced : reduce operator operands = .ok reached) :
    ∃ right left rest value, operands = right :: left :: rest ∧
      operator.apply left right = .ok value ∧ reached = value :: rest := by
  apply perform_apply_eq_ok
  rw [← Plan.reduce_is_perform, reduced]
  rfl

theorem pending_of_release {ready : Operator → Bool} {operands : List Float}
    {pending : List Pending} {released : Stacks}
    (done : release ready operands pending = .ok released) :
    released.pending = Plan.kept ready pending := by
  have planned := Plan.release_is_planned ready operands pending
  rw [done] at planned
  have kept := (Plan.on_eq_ok planned.symm).2
  exact (Except.ok.inj kept).symm

theorem operands_of_release {ready : Operator → Bool} {operands : List Float}
    {pending : List Pending} {reached : Stacks}
    (done : release ready operands pending = .ok reached) :
    Leaves operands (Plan.released ready pending) none reached.operands := by
  induction pending generalizing operands with
  | nil =>
      cases done
      exact .untouched rfl
  | cons top pending ih =>
      cases top with
      | openParen =>
          cases done
          exact .untouched rfl
      | operator operator =>
          cases goes : ready operator with
          | false =>
              simp only [release, goes, Bool.false_eq_true, if_false] at done
              cases done
              exact .untouched (by simp [Plan.released, goes])
          | true =>
              simp only [release, goes, if_true] at done
              cases reduced : reduce operator operands with
              | error failed => simp [reduced] at done
              | ok next =>
                  simp only [reduced] at done
                  obtain ⟨right, left, rest, value, rfl, applied, rfl⟩ := reduce_eq_ok reduced
                  simp only [Plan.released, goes, if_true]
                  exact (ih done).behind applied

theorem failure_of_release {ready : Operator → Bool} {operands : List Float}
    {pending : List Pending} {failure : Failure}
    (failed : release ready operands pending = .error failure) :
    ∃ taken waiting, Plan.released ready pending = taken ++ waiting ∧
      failure.left.pending = waiting.map .operator ++ Plan.kept ready pending ∧
      Leaves operands taken (some failure.error) failure.left.operands := by
  induction pending generalizing operands with
  | nil => cases failed
  | cons top pending ih =>
      cases top with
      | openParen => cases failed
      | operator operator =>
          cases goes : ready operator with
          | false => simp [release, goes] at failed
          | true =>
              simp only [release, goes, if_true] at failed
              simp only [Plan.released, Plan.kept, goes, if_true]
              cases reduced : reduce operator operands with
              | error fault =>
                  obtain ⟨error, left⟩ := fault
                  simp only [reduced] at failed
                  cases failed
                  refine ⟨[operator], Plan.released ready pending, rfl, ?_,
                    leaves_of_failed_reduce reduced⟩
                  rw [Plan.released_append_kept]
              | ok next =>
                  simp only [reduced] at failed
                  obtain ⟨right, left, rest, value, rfl, applied, rfl⟩ := reduce_eq_ok reduced
                  obtain ⟨taken, waiting, split, lain, leaves⟩ := ih failed
                  exact ⟨operator :: taken, waiting, by rw [split, List.cons_append], lain,
                    leaves.behind applied⟩

/-- What an incoming operator makes of the operands, of the group that it comes to and of what
encloses this group. It takes the operators off the top of the group that go before it, and lies on
the first that does not, unless one that it took has failed. -/
inductive PushLeaves (operands : List Float) (group : List Operator) (outer : List Pending)
    (power : Associativity) (incoming : Operator) : Except Failure Stacks → Prop where
  | pushed {taken waiting : List Operator} {left : List Float} (split : group = taken ++ waiting)
      (before : ∀ operator ∈ taken, operator.appliesBefore incoming power = true)
      (behind : ∀ operator ∈ waiting.head?, operator.appliesBefore incoming power = false)
      (leaves : Leaves operands taken none left) :
      PushLeaves operands group outer power incoming
        (.ok ⟨left, .operator incoming :: (waiting.map .operator ++ outer)⟩)
  | failed {taken waiting : List Operator} {left : List Float} {error : CalculationError}
      (split : group = taken ++ waiting)
      (before : ∀ operator ∈ taken, operator.appliesBefore incoming power = true)
      (leaves : Leaves operands taken (some error) left) :
      PushLeaves operands group outer power incoming
        (.error ⟨error, ⟨left, waiting.map .operator ++ outer⟩⟩)

/-- What a closing parenthesis makes of them. It takes the whole group and its open parenthesis,
or everything if no parenthesis is open; or it stops at an operator that has failed. -/
inductive CloseLeaves (operands : List Float) (group : List Operator) :
    List Pending → Except Failure Stacks → Prop where
  | closed {enclosing : List Pending} {left : List Float}
      (leaves : Leaves operands group none left) :
      CloseLeaves operands group (.openParen :: enclosing) (.ok ⟨left, enclosing⟩)
  | unopened {left : List Float} (leaves : Leaves operands group none left) :
      CloseLeaves operands group [] (.error ⟨.mismatchedParentheses, ⟨left, []⟩⟩)
  | failed {outer : List Pending} {taken waiting : List Operator} {left : List Float}
      {error : CalculationError} (split : group = taken ++ waiting)
      (leaves : Leaves operands taken (some error) left) :
      CloseLeaves operands group outer (.error ⟨error, ⟨left, waiting.map .operator ++ outer⟩⟩)

theorem pushOperator_frame (power : Associativity) (incoming : Operator) (state : Stacks) :
    PushLeaves state.operands (Plan.released (fun _ => true) state.pending)
      (Plan.kept (fun _ => true) state.pending) power incoming
      (state.pushOperator power incoming) := by
  obtain ⟨rest, group, below⟩ :=
    Plan.released_of_group (fun waiting => waiting.appliesBefore incoming power) state.pending
  have ready := Plan.ready_of_released (fun waiting => waiting.appliesBefore incoming power)
    state.pending
  simp only [pushOperator]
  cases done : release (fun waiting => waiting.appliesBefore incoming power) state.operands
      state.pending with
  | ok reached =>
      have lain := pending_of_release done
      have unready : ∀ operator ∈ rest.head?, operator.appliesBefore incoming power = false := by
        intro operator first
        obtain ⟨others, rfl⟩ := List.head?_eq_some_iff.mp first
        exact Plan.not_ready_of_kept below
      rw [below] at lain
      simp only [lain]
      exact .pushed group ready unready (operands_of_release done)
  | error failure =>
      obtain ⟨taken, waiting, split, lain, leaves⟩ := failure_of_release done
      obtain ⟨error, left, pending⟩ := failure
      rw [below, ← List.append_assoc, ← List.map_append] at lain
      rw [split] at ready
      rw [split, List.append_assoc] at group
      simp only at lain leaves
      simp only [lain]
      exact .failed group (fun operator member => ready operator (List.mem_append_left _ member))
        leaves

theorem closeGroup_frame (state : Stacks) :
    CloseLeaves state.operands (Plan.released (fun _ => true) state.pending)
      (Plan.kept (fun _ => true) state.pending) state.closeGroup := by
  unfold closeGroup
  cases done : release (fun _ => true) state.operands state.pending with
  | ok reached =>
      have lain := pending_of_release done
      have leaves := operands_of_release done
      obtain ⟨operands, pending⟩ := reached
      simp only at lain leaves ⊢
      rcases Plan.kept_all_cases state.pending with unopened | ⟨enclosing, opened⟩
      · rw [unopened] at lain ⊢
        rw [lain]
        exact .unopened leaves
      · rw [opened] at lain ⊢
        rw [lain]
        exact .closed leaves
  | error failure =>
      obtain ⟨taken, waiting, split, lain, leaves⟩ := failure_of_release done
      obtain ⟨error, left, pending⟩ := failure
      simp only at lain leaves ⊢
      rw [lain]
      exact .failed split leaves

/-- Whatever the stacks hold, the operators above the topmost open parenthesis are the group at
which an incoming operator and a closing parenthesis stop, and each of the two leaves, in success
and in failure, what the operators tell that it has taken. -/
theorem releases_leave_the_rest (state : Stacks) :
    ∃ (group : List Operator) (outer : List Pending),
      state.pending = group.map .operator ++ outer ∧
      (outer = [] ∨ ∃ enclosing, outer = .openParen :: enclosing) ∧
      (∀ power incoming, PushLeaves state.operands group outer power incoming
        (state.pushOperator power incoming)) ∧
      CloseLeaves state.operands group outer state.closeGroup :=
  ⟨Plan.released (fun _ => true) state.pending, Plan.kept (fun _ => true) state.pending,
    (Plan.released_append_kept _ _).symm, Plan.kept_all_cases state.pending,
    fun power incoming => pushOperator_frame power incoming state, closeGroup_frame state⟩

/-- A zero divisor at the second operator, and an operator that finds one operand. -/
example : closeGroup ⟨[2.0, 2.0, 6.0, 1.0, 9.0],
      [.operator .sub, .operator .div, .operator .add, .openParen]⟩ =
        .error ⟨.divisionByZero, ⟨[1.0, 9.0], [.operator .add, .openParen]⟩⟩ ∧
    pushOperator .left .sub ⟨[3.0, 2.0], [.operator .mul, .operator .add, .openParen]⟩ =
      .error ⟨.missingOperand .add, ⟨[], [.openParen]⟩⟩ := by
  constructor <;> rfl

end Stacks

end Calculator
