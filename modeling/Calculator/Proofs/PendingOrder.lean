import Calculator.Proofs.Nesting
import Calculator.Proofs.PlanContents
import Calculator.Proofs.Releases

/-!
What waits below binds no tighter than what waits above it.

Between two open parentheses the pending operators stand in layers. An operator comes to lie on
another only where that one is not ready to go before it, and everything else that happens to the
stacks takes entries off from the top, also where it fails halfway. So whatever "not ready" says
about two operators holds of all neighbours at any time: that the upper one binds at least as
tightly, that it binds tighter where powers group from the left, and that only powers lie on their
like where they group from the right.
-/

set_option autoImplicit false

namespace Calculator

/-- Whether a relation holds of any two neighbouring operators, the lower of the two first. An open
parenthesis between two operators keeps them apart. -/
def Layered (fits : Operator → Operator → Prop) (pending : List Pending) : Prop :=
  ∀ upper lower, [.operator upper, .operator lower] <:+: pending → fits lower upper

theorem Layered.of_infix {fits : Operator → Operator → Prop} {part pending : List Pending}
    (layered : Layered fits pending) (within : part <:+: pending) : Layered fits part :=
  fun upper lower neighbours => layered upper lower (neighbours.trans within)

theorem layered_nil (fits : Operator → Operator → Prop) : Layered fits [] := by
  intro upper lower neighbours
  simp at neighbours

theorem Layered.openParen {fits : Operator → Operator → Prop} {pending : List Pending}
    (layered : Layered fits pending) : Layered fits (.openParen :: pending) := by
  intro upper lower neighbours
  rcases List.infix_cons_iff.mp neighbours with top | below
  · simp at top
  · exact layered upper lower below

theorem Layered.operator {fits : Operator → Operator → Prop} {pending : List Pending}
    {incoming : Operator} (layered : Layered fits pending)
    (lies : ∀ top rest, pending = .operator top :: rest → fits top incoming) :
    Layered fits (.operator incoming :: pending) := by
  intro upper lower neighbours
  rcases List.infix_cons_iff.mp neighbours with top | below
  · obtain ⟨same, rest, split⟩ := List.cons_prefix_cons.mp top
    cases same
    exact lies lower rest split.symm
  · exact layered upper lower below

def topPrecedence : List Pending → Nat
  | .operator top :: _ => top.precedence
  | _ => 0

theorem topPrecedence_le (pending : List Pending) : topPrecedence pending ≤ 3 := by
  rcases pending with _ | ⟨top | _, pending⟩
  · exact Nat.zero_le _
  · exact top.precedence_bounds.2
  · exact Nat.zero_le _

/-- Where every layer binds tighter than the one below, a group has no more layers than there are
precedences. The count goes by the operator on top, which has room for all that are below it. -/
theorem waiting_le_of_strict {pending : List Pending}
    (strict : Layered (fun lower upper => lower.precedence < upper.precedence) pending) :
    (waiting pending).length ≤ topPrecedence pending + 3 * openGroups pending := by
  induction pending with
  | nil => exact Nat.le_refl _
  | cons top pending ih =>
      have below := ih (strict.of_infix (List.suffix_cons top pending).isInfix)
      have most := topPrecedence_le pending
      cases top with
      | openParen =>
          simp only [waiting, topPrecedence, openGroups]
          omega
      | operator upper =>
          have room : topPrecedence pending < upper.precedence := by
            rcases pending with _ | ⟨lower | _, pending⟩
            · exact upper.precedence_bounds.1
            · exact strict upper lower ⟨[], pending, rfl⟩
            · exact upper.precedence_bounds.1
          simp only [waiting, topPrecedence, openGroups, List.length_cons]
          omega

theorem waiting_map_operator (group : List Operator) :
    waiting (group.map .operator) = group ∧ openGroups (group.map .operator) = 0 := by
  have operators := waiting_operators_append group []
  have groups := openGroups_operators_append group []
  rw [List.append_nil] at operators groups
  exact ⟨operators.trans (List.append_nil group), groups⟩

namespace Stacks

theorem pending_of_failed_release {ready : Operator → Bool} {operands : List Float}
    {pending : List Pending} {failure : Failure}
    (failed : release ready operands pending = .error failure) :
    failure.left.pending <:+ pending := by
  rcases failure_of_release failed with ⟨taken, waiting, split, lain, _⟩
  have whole := Plan.released_append_kept ready pending
  rw [split, List.map_append, List.append_assoc] at whole
  rw [lain]
  exact ⟨_, whole⟩

inductive Call where
  | pushOperand (value : Float)
  | openGroup
  | closeGroup
  | pushOperator (power : Associativity) (incoming : Operator)
  deriving DecidableEq

def leftBy : Except Failure Stacks → Stacks
  | .ok reached => reached
  | .error failure => failure.left

def after (state : Stacks) : Call → Stacks
  | .pushOperand value => state.pushOperand value
  | .openGroup => state.openGroup
  | .closeGroup => leftBy state.closeGroup
  | .pushOperator power incoming => leftBy (state.pushOperator power incoming)

def afterAll (state : Stacks) (calls : List Call) : Stacks := calls.foldl after state

theorem closeGroup_leaves (state : Stacks) :
    (leftBy state.closeGroup).pending <:+ state.pending := by
  unfold closeGroup
  cases done : release (fun _ => true) state.operands state.pending with
  | error failure => exact pending_of_failed_release done
  | ok released =>
      have kept := pending_of_release done
      have below := Plan.kept_suffix (fun _ => true) state.pending
      rw [← kept] at below
      obtain ⟨operands, pending⟩ := released
      rcases pending with _ | ⟨operator | _, pending⟩
      · exact below
      · exact below
      · exact (List.suffix_cons _ _).trans below

theorem pushOperator_leaves (power : Associativity) (incoming : Operator) (state : Stacks) :
    (leftBy (state.pushOperator power incoming)).pending <:+ state.pending ∨
      ∃ below, (leftBy (state.pushOperator power incoming)).pending = .operator incoming :: below ∧
        below <:+ state.pending ∧
        ∀ top rest, below = .operator top :: rest → top.appliesBefore incoming power = false := by
  unfold pushOperator
  cases done : release (fun waiting => waiting.appliesBefore incoming power) state.operands
      state.pending with
  | error failure => exact Or.inl (pending_of_failed_release done)
  | ok released =>
      have kept := pending_of_release done
      refine Or.inr ⟨released.pending, rfl, ?_, ?_⟩
      · rw [kept]
        exact Plan.kept_suffix _ _
      · intro top rest stays
        rw [kept] at stays
        exact Plan.not_ready_of_kept stays

/-- One call keeps the layers, if an operator that it brings fits on whatever does not go before
it. -/
theorem layered_after {fits : Operator → Operator → Prop} {state : Stacks} (call : Call)
    (layered : Layered fits state.pending)
    (lies : ∀ power incoming, call = .pushOperator power incoming →
      ∀ waiting, waiting.appliesBefore incoming power = false → fits waiting incoming) :
    Layered fits (state.after call).pending := by
  cases call with
  | pushOperand value => exact layered
  | openGroup => exact layered.openParen
  | closeGroup => exact layered.of_infix (closeGroup_leaves state).isInfix
  | pushOperator power incoming =>
      rcases pushOperator_leaves power incoming state with less | ⟨below, lain, suffix, waits⟩
      · exact layered.of_infix less.isInfix
      · rw [after, lain]
        refine (layered.of_infix suffix.isInfix).operator ?_
        intro top rest stays
        exact lies power incoming rfl top (waits top rest stays)

theorem layered_afterAll {fits : Operator → Operator → Prop} {calls : List Call} {state : Stacks}
    (layered : Layered fits state.pending)
    (lies : ∀ power incoming, .pushOperator power incoming ∈ calls →
      ∀ waiting, waiting.appliesBefore incoming power = false → fits waiting incoming) :
    Layered fits (state.afterAll calls).pending := by
  induction calls generalizing state with
  | nil => exact layered
  | cons call calls ih =>
      refine ih (layered_after call layered ?_) ?_
      · intro power incoming same
        exact lies power incoming (by simp [same])
      · intro power incoming member
        exact lies power incoming (List.mem_cons_of_mem _ member)

theorem layered_of_calls {fits : Operator → Operator → Prop} {calls : List Call}
    (lies : ∀ power incoming, .pushOperator power incoming ∈ calls →
      ∀ waiting, waiting.appliesBefore incoming power = false → fits waiting incoming) :
    Layered fits (empty.afterAll calls).pending :=
  layered_afterAll (layered_nil fits) lies

/-- The order of the pending operators after any calls. It is their precedence; with powers that
group from the left it is strict, so that few operators wait; with powers that group from the right
only powers are equal neighbours. -/
theorem pending_is_layered (calls : List Call) :
    let pending := (empty.afterAll calls).pending
    Layered (fun lower upper => lower.precedence ≤ upper.precedence) pending ∧
    ((∀ power incoming, .pushOperator power incoming ∈ calls → power = .left) →
      Layered (fun lower upper => lower.precedence < upper.precedence) pending ∧
      (∀ group : List Operator, group.map .operator <:+: pending → group.length ≤ 3) ∧
      (waiting pending).length ≤ 3 * (openGroups pending + 1)) ∧
    ((∀ power incoming, .pushOperator power incoming ∈ calls → power = .right) →
      Layered (fun lower upper =>
        lower.precedence = upper.precedence → lower = .pow ∧ upper = .pow) pending) := by
  intro pending
  refine ⟨?_, ?_, ?_⟩
  · apply layered_of_calls
    intro power incoming _ waiting waits
    rcases Operator.appliesBefore_eq_false_iff.mp waits with looser | ⟨rfl, rfl, _⟩
    · exact Nat.le_of_lt looser
    · exact Nat.le_refl _
  · intro fromLeft
    have strict : Layered (fun lower upper => lower.precedence < upper.precedence) pending := by
      apply layered_of_calls
      intro power incoming member waiting waits
      rcases Operator.appliesBefore_eq_false_iff.mp waits with looser | ⟨_, _, right⟩
      · exact looser
      · rw [fromLeft power incoming member] at right
        cases right
    refine ⟨strict, ?_, ?_⟩
    · intro group within
      have few := waiting_le_of_strict (strict.of_infix within)
      have most := topPrecedence_le (group.map .operator)
      rw [(waiting_map_operator group).1, (waiting_map_operator group).2] at few
      omega
    · have few := waiting_le_of_strict strict
      have most := topPrecedence_le pending
      omega
  · intro fromRight
    apply layered_of_calls
    intro power incoming _ waiting waits same
    rcases Operator.appliesBefore_eq_false_iff.mp waits with looser | ⟨isPower, alsoPower, _⟩
    · exact absurd same (Nat.ne_of_lt looser)
    · exact ⟨isPower, alsoPower⟩

/-- Calls of which two fail, a parenthesis that closes nothing and a division by zero that leaves
the operators below it waiting; and a chain of powers that group from the right. -/
theorem pending_is_layered_behind_calls :
    let failing : List Call := [.closeGroup, .pushOperand 1.0, .pushOperator .left .add,
      .pushOperand 2.0, .pushOperator .left .mul, .openGroup, .pushOperand 1.0,
      .pushOperator .left .sub, .pushOperand 3.0, .pushOperator .left .div, .pushOperand 0.0]
    let calls := failing ++ [.closeGroup, .pushOperator .left .mul, .pushOperator .left .pow]
    let chain : List Call := [.pushOperand 2.0, .pushOperator .right .mul, .pushOperand 3.0,
      .pushOperator .right .pow, .pushOperand 2.0, .pushOperator .right .pow]
    (closeGroup (empty.afterAll failing)).mapError Failure.error = .error .divisionByZero ∧
      (empty.afterAll calls).pending = [.operator .pow, .operator .mul, .operator .sub, .openParen,
        .operator .mul, .operator .add] ∧
      (∀ power incoming, .pushOperator power incoming ∈ calls → power = .left) ∧
      (waiting (empty.afterAll calls).pending).length ≤
        3 * (openGroups (empty.afterAll calls).pending + 1) ∧
      (empty.afterAll chain).pending = [.operator .pow, .operator .pow, .operator .mul] ∧
      (∀ power incoming, .pushOperator power incoming ∈ chain → power = .right) ∧
      Layered (fun lower upper =>
        lower.precedence = upper.precedence → lower = .pow ∧ upper = .pow)
        (empty.afterAll chain).pending := by
  intro failing calls chain
  have failed : (closeGroup (empty.afterAll failing)).mapError Failure.error =
      .error .divisionByZero := by decide +kernel
  have reached : (empty.afterAll calls).pending = [.operator .pow, .operator .mul, .operator .sub,
      .openParen, .operator .mul, .operator .add] := by decide +kernel
  have powers : (empty.afterAll chain).pending =
      [.operator .pow, .operator .pow, .operator .mul] := by decide +kernel
  have fromLeft (power : Associativity) (incoming : Operator)
      (member : .pushOperator power incoming ∈ calls) : power = .left := by
    simp only [calls, failing, List.cons_append, List.nil_append, List.mem_cons,
      List.not_mem_nil, or_false, Call.pushOperator.injEq, reduceCtorEq, false_or] at member
    grind
  have fromRight (power : Associativity) (incoming : Operator)
      (member : .pushOperator power incoming ∈ chain) : power = .right := by
    simp only [chain, List.mem_cons, List.not_mem_nil, or_false, Call.pushOperator.injEq,
      reduceCtorEq, false_or] at member
    grind
  obtain ⟨_, left, _⟩ := pending_is_layered calls
  obtain ⟨_, _, right⟩ := pending_is_layered chain
  exact ⟨failed, reached, fromLeft, (left fromLeft).2.2, powers, fromRight, right fromRight⟩

end Stacks

end Calculator
