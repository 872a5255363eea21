import Calculator.Proofs.Schedule
import Mathlib.Data.List.Infix

/-!
Which texts pair their parentheses.

Nobody counts parentheses: one is missing where a group is closed and none is open, or where the
text ends and some group still is. But no operator that is released changes how many groups are
open, so a planning faults exactly where a single counter does, whatever else is in the text.
-/

set_option autoImplicit false

namespace Calculator

def openGroups : List Pending → Nat
  | [] => 0
  | .operator _ :: pending => openGroups pending
  | .openParen :: pending => openGroups pending + 1

/-- Parentheses that are paired, read inside of so many open groups. -/
def Closes : Nat → List Token → Prop
  | depth, [] => depth = 0
  | depth, .openParen :: tokens => Closes (depth + 1) tokens
  | 0, .closeParen :: _ => False
  | depth + 1, .closeParen :: tokens => Closes depth tokens
  | depth, _ :: tokens => Closes depth tokens

/-- Whether some part of a text, from its start, closes more groups than it opens. -/
def Overcloses (tokens : List Token) : Prop :=
  ∃ part, part <+: tokens ∧ part.count .openParen < part.count .closeParen

def Balanced (tokens : List Token) : Prop :=
  ¬Overcloses tokens ∧ tokens.count .openParen = tokens.count .closeParen

def nest : Nat → Token → Except CalculationError Nat
  | depth, .openParen => .ok (depth + 1)
  | 0, .closeParen => .error .mismatchedParentheses
  | depth + 1, .closeParen => .ok depth
  | depth, _ => .ok depth

/-- Counts the open groups, up to the first reading that is an error or closes one too many. -/
def nesting : Nat → List (Except CalculationError Token) → Except CalculationError Nat
  | depth, [] => .ok depth
  | depth, reading :: readings =>
      (reading.bind (nest depth)).bind fun inner => nesting inner readings

theorem nest_eq_error {depth : Nat} {token : Token} {fault : CalculationError}
    (stopped : nest depth token = .error fault) :
    depth = 0 ∧ token = .closeParen ∧ fault = .mismatchedParentheses := by
  cases token with
  | closeParen =>
      cases depth with
      | zero =>
          cases stopped
          exact ⟨rfl, rfl, rfl⟩
      | succ depth => cases stopped
  | _ => cases stopped

theorem nesting_cons_eq_ok {depth inner : Nat} {reading : Except CalculationError Token}
    {readings : List (Except CalculationError Token)}
    (nested : nesting depth (reading :: readings) = .ok inner) :
    ∃ token next, reading = .ok token ∧ nest depth token = .ok next ∧
      nesting next readings = .ok inner := by
  cases reading with
  | error error => cases nested
  | ok token =>
      cases step : nest depth token with
      | error fault => simp [nesting, Except.bind, step] at nested
      | ok next =>
          refine ⟨token, next, rfl, step, ?_⟩
          simpa [nesting, Except.bind, step] using nested

theorem nesting_append (depth : Nat) (readings later : List (Except CalculationError Token)) :
    nesting depth (readings ++ later) =
      (nesting depth readings).bind fun inner => nesting inner later := by
  induction readings generalizing depth with
  | nil => rfl
  | cons reading readings ih =>
      simp only [List.cons_append, nesting]
      cases reading.bind (nest depth) with
      | error fault => rfl
      | ok inner => exact ih inner

theorem clean_of_nesting {depth inner : Nat} {readings : List (Except CalculationError Token)}
    (nested : nesting depth readings = .ok inner) :
    ∃ tokens : List Token, readings = tokens.map .ok := by
  induction readings generalizing depth with
  | nil => exact ⟨[], rfl⟩
  | cons reading readings ih =>
      obtain ⟨token, next, rfl, _, later⟩ := nesting_cons_eq_ok nested
      obtain ⟨tokens, rfl⟩ := ih later
      exact ⟨token :: tokens, rfl⟩

theorem count_of_nest {depth inner : Nat} {token : Token} (nested : nest depth token = .ok inner)
    (tokens : List Token) :
    inner + (token :: tokens).count .closeParen + tokens.count .openParen =
      depth + (token :: tokens).count .openParen + tokens.count .closeParen := by
  cases token with
  | closeParen =>
      cases depth with
      | zero => cases nested
      | succ depth =>
          cases nested
          simp
          omega
  | _ =>
      cases nested
      simp
      omega

theorem count_of_nesting {depth inner : Nat} {tokens : List Token}
    (nested : nesting depth (tokens.map .ok) = .ok inner) :
    inner + tokens.count .closeParen = depth + tokens.count .openParen := by
  induction tokens generalizing depth with
  | nil =>
      cases nested
      rfl
  | cons token tokens ih =>
      obtain ⟨_, next, same, step, rest⟩ := nesting_cons_eq_ok nested
      cases same
      have first := count_of_nest step tokens
      have later := ih rest
      omega

theorem count_le_of_nesting {depth inner : Nat} {tokens part : List Token}
    (nested : nesting depth (tokens.map .ok) = .ok inner) (early : part <+: tokens) :
    part.count .closeParen ≤ depth + part.count .openParen := by
  obtain ⟨later, rfl⟩ := early
  rw [List.map_append, nesting_append] at nested
  cases reached : nesting depth (part.map .ok) with
  | error fault =>
      rw [reached] at nested
      cases nested
  | ok between =>
      have counted := count_of_nesting reached
      omega

theorem fault_of_nesting {depth : Nat} {readings : List (Except CalculationError Token)}
    {fault : CalculationError} (stopped : nesting depth readings = .error fault) :
    .error fault ∈ readings ∨ (fault = .mismatchedParentheses ∧
      ∃ part, part <+: leadingTokens readings ∧
        depth + part.count .openParen < part.count .closeParen) := by
  induction readings generalizing depth with
  | nil => cases stopped
  | cons reading readings ih =>
      cases reading with
      | error error =>
          cases stopped
          exact Or.inl List.mem_cons_self
      | ok token =>
          simp only [nesting, Except.bind] at stopped
          cases step : nest depth token with
          | error first =>
              simp only [step] at stopped
              cases stopped
              obtain ⟨rfl, rfl, rfl⟩ := nest_eq_error step
              exact Or.inr ⟨rfl, [.closeParen], by simp [leadingTokens], by decide⟩
          | ok next =>
              simp only [step] at stopped
              rcases ih stopped with unread | ⟨mismatch, part, early, more⟩
              · exact Or.inl (List.mem_cons_of_mem _ unread)
              · have first := count_of_nest step part
                exact Or.inr ⟨mismatch, token :: part, List.cons_prefix_cons.mpr ⟨rfl, early⟩,
                  by omega⟩

theorem closes_iff_nesting (depth : Nat) (tokens : List Token) :
    Closes depth tokens ↔ nesting depth (tokens.map .ok) = .ok 0 := by
  induction tokens generalizing depth with
  | nil => simp [Closes, nesting]
  | cons token tokens ih =>
      cases token with
      | number value => exact ih depth
      | operator operator => exact ih depth
      | openParen => exact ih (depth + 1)
      | closeParen =>
          cases depth with
          | zero => simp [Closes, nesting, nest, Except.bind]
          | succ depth => exact ih depth

theorem nesting_iff_balanced (tokens : List Token) :
    nesting 0 (tokens.map .ok) = .ok 0 ↔ Balanced tokens := by
  constructor
  · intro nested
    have total := count_of_nesting nested
    constructor
    · rintro ⟨part, early, more⟩
      have bound := count_le_of_nesting nested early
      omega
    · omega
  · rintro ⟨paired, total⟩
    cases nested : nesting 0 (tokens.map .ok) with
    | error fault =>
        rcases fault_of_nesting nested with unread | ⟨_, part, early, more⟩
        · simp at unread
        · rw [leadingTokens_map_ok] at early
          exact (paired ⟨part, early, by omega⟩).elim
    | ok inner =>
        have counted := count_of_nesting nested
        rw [show inner = 0 by omega]

theorem closes_iff_balanced (tokens : List Token) : Closes 0 tokens ↔ Balanced tokens :=
  (closes_iff_nesting 0 tokens).trans (nesting_iff_balanced tokens)

theorem Overcloses.of_part {tokens longer : List Token} (excess : Overcloses tokens)
    (early : tokens <+: longer) : Overcloses longer := by
  obtain ⟨part, first, more⟩ := excess
  exact ⟨part, first.trans early, more⟩

theorem openGroups_operators_append (operators : List Operator) (pending : List Pending) :
    openGroups (operators.map .operator ++ pending) = openGroups pending := by
  induction operators with
  | nil => rfl
  | cons operator operators ih => exact ih

theorem openGroups_kept (ready : Operator → Bool) (pending : List Pending) :
    openGroups (Plan.kept ready pending) = openGroups pending := by
  rw [← openGroups_operators_append (Plan.released ready pending), Plan.released_append_kept]

namespace Plan

theorem token_nests (power : Associativity) (pending : List Pending) (token : Token) :
    (ofToken power pending token).status.map openGroups = nest (openGroups pending) token := by
  cases token with
  | number value => rfl
  | openParen => rfl
  | operator incoming =>
      rw [ofToken_operator]
      simp only [Except.map, openGroups, openGroups_kept]
      rfl
  | closeParen =>
      have groups := openGroups_kept (fun _ => true) pending
      rw [ofToken]
      rcases closeGroup_cases pending with ⟨unopened, closes⟩ | ⟨outer, group, closes⟩
      · rw [unopened] at groups
        rw [closes, ← groups]
        rfl
      · rw [group] at groups
        rw [closes, ← groups]
        rfl

theorem fault_of_token {power : Associativity} {pending : List Pending} {token : Token}
    {fault : CalculationError} (stops : (ofToken power pending token).status = .error fault) :
    fault = .mismatchedParentheses := by
  have nested := token_nests power pending token
  rw [stops] at nested
  exact (nest_eq_error nested.symm).2.2

/-- As to faults, planning is counting. -/
theorem scan_nests (power : Associativity) (pending : List Pending)
    (readings : List (Except CalculationError Token)) :
    (scan power pending readings).status.map openGroups =
      nesting (openGroups pending) readings := by
  induction readings generalizing pending with
  | nil => rfl
  | cons reading readings ih =>
      have first : (ofReading power pending reading).status.map openGroups =
          reading.bind (nest (openGroups pending)) := by
        cases reading with
        | error error => rfl
        | ok token => exact token_nests power pending token
      simp only [scan, nesting]
      rw [← first]
      cases continues : (ofReading power pending reading).status with
      | error fault =>
          rw [andThen_of_error _ continues]
          rfl
      | ok next =>
          rw [andThen_of_ok _ continues]
          exact ih next

theorem status_ofReadings (power : Associativity)
    (readings : List (Except CalculationError Token)) :
    (ofReadings power readings).status = (nesting 0 readings).bind fun depth =>
      if depth = 0 then .ok [] else .error .mismatchedParentheses := by
  have counted : _ = nesting 0 readings := scan_nests power [] readings
  rw [← counted, ofReadings]
  cases reached : (scan power [] readings).status with
  | error fault =>
      rw [andThen_of_error _ reached]
      rfl
  | ok pending =>
      have groups := openGroups_kept (fun _ => true) pending
      rw [andThen_of_ok _ reached]
      rcases drain_cases pending with ⟨unopened, drains⟩ | ⟨outer, group, drains⟩
      · rw [unopened] at groups
        simp only [drains, Except.map, Except.bind, ← groups]
        rfl
      · rw [group] at groups
        simp only [drains, Except.map, Except.bind, ← groups]
        rfl

theorem status_eq_ok_iff (power : Associativity)
    (readings : List (Except CalculationError Token)) :
    (∃ pending, (ofReadings power readings).status = .ok pending) ↔
      (∀ error, .error error ∉ readings) ∧ Balanced (tokensOf readings) := by
  rw [status_ofReadings]
  constructor
  · rintro ⟨pending, status⟩
    cases nested : nesting 0 readings with
    | error fault =>
        rw [nested] at status
        cases status
    | ok inner =>
        obtain ⟨tokens, rfl⟩ := clean_of_nesting nested
        by_cases outside : inner = 0
        · rw [outside, nesting_iff_balanced] at nested
          rw [tokensOf_map_ok]
          exact ⟨by simp, nested⟩
        · simp [nested, Except.bind, outside] at status
  · rintro ⟨clean, balanced⟩
    rw [map_tokensOf_of_clean clean, (nesting_iff_balanced _).mpr balanced]
    exact ⟨[], rfl⟩

theorem fault_of_status {power : Associativity}
    {readings : List (Except CalculationError Token)} {fault : CalculationError}
    (stops : (ofReadings power readings).status = .error fault) :
    .error fault ∈ readings ∨ (fault = .mismatchedParentheses ∧
      (Overcloses (leadingTokens readings) ∨ ((∀ error, .error error ∉ readings) ∧
        (tokensOf readings).count .openParen ≠ (tokensOf readings).count .closeParen))) := by
  rw [status_ofReadings] at stops
  cases nested : nesting 0 readings with
  | error first =>
      rw [nested] at stops
      cases stops
      rcases fault_of_nesting nested with unread | ⟨mismatch, part, early, more⟩
      · exact Or.inl unread
      · exact Or.inr ⟨mismatch, Or.inl ⟨part, early, by omega⟩⟩
  | ok inner =>
      rw [nested] at stops
      obtain ⟨tokens, rfl⟩ := clean_of_nesting nested
      have counted := count_of_nesting nested
      by_cases outside : inner = 0
      · simp [Except.bind, outside] at stops
      · simp only [Except.bind, outside, if_false, Except.error.injEq] at stops
        refine Or.inr ⟨stops.symm, Or.inr ⟨by simp, ?_⟩⟩
        rw [tokensOf_map_ok]
        omega

theorem error_of_feedAll {evaluator : Evaluator} {state : Stacks} {lexemes : List Lexeme}
    {failure : Stacks.Failure} (clean : ∀ error, .error error ∉ lexemes.map Lexeme.token)
    (failed : evaluator.feedAll state lexemes = .error failure) :
    failure.error = .mismatchedParentheses ∨ failure.error.OfOperator := by
  have planned := feedAll_is_planned evaluator state lexemes
  rw [failed] at planned
  rcases on_eq_error planned.symm with ran | status
  · exact Or.inr (Postfix.error_of_run ran)
  · have counted := scan_nests evaluator.power state.pending (lexemes.map Lexeme.token)
    rw [status] at counted
    rcases fault_of_nesting counted.symm with unread | ⟨mismatch, _⟩
    · exact (clean _ unread).elim
    · exact Or.inl mismatch

theorem counted_of_evaluate {evaluator : Evaluator} {text : List Char} {count : Nat}
    (counted : evaluator.evaluate text = .error (.operandCount count)) :
    let plan := ofReadings evaluator.power (Lexeme.readings text)
    ∃ operands pending, Postfix.run plan.program [] = .ok operands ∧
      plan.status = .ok pending ∧ count = operands.length ∧ operands.length ≠ 1 := by
  intro plan
  have settles := plan.settles
  rw [← evaluate_settles_plan, counted] at settles
  cases settles with
  | failed ran => cases Postfix.error_of_run ran
  | stopped ran status =>
      rcases fault_of_status status with unread | ⟨kind, _⟩
      · cases Lexeme.error_of_mem_readings unread
      · cases kind
  | counted ran status notOne => exact ⟨_, _, ran, status, rfl, notOne⟩

theorem status_of_completed {evaluator : Evaluator} {text : List Char}
    (completed : (∃ value, evaluator.evaluate text = .ok value) ∨
      ∃ count, evaluator.evaluate text = .error (.operandCount count)) :
    ∃ pending, (ofReadings evaluator.power (Lexeme.readings text)).status = .ok pending := by
  rcases completed with ⟨value, accepted⟩ | ⟨count, counted⟩
  · rw [evaluate_settles_plan] at accepted
    exact (settle_eq_ok accepted).2
  · obtain ⟨_, pending, _, status, _⟩ := counted_of_evaluate counted
    exact ⟨pending, status⟩

theorem status_of_mismatched {evaluator : Evaluator} {text : List Char}
    (mismatched : evaluator.evaluate text = .error .mismatchedParentheses) :
    (ofReadings evaluator.power (Lexeme.readings text)).status =
      .error .mismatchedParentheses := by
  have settles := (ofReadings evaluator.power (Lexeme.readings text)).settles
  rw [← evaluate_settles_plan, mismatched] at settles
  cases settles with
  | failed ran => cases Postfix.error_of_run ran
  | stopped ran status => exact status

/-- The verdict on parentheses. It is given only where a part of the text before all errors closes
too much or the whole text is not balanced; a text that is not balanced has no other outcome than
this one and an operator that failed before. -/
theorem parentheses_are_judged (evaluator : Evaluator) (text : List Char) :
    let readings := Lexeme.readings text
    let tokens := tokensOf readings
    let program := (ofReadings evaluator.power readings).program
    let outcome := evaluator.evaluate text
    (outcome = .error .mismatchedParentheses →
      Overcloses (leadingTokens readings) ∨ ((∀ error, .error error ∉ readings) ∧
        tokens.count .openParen ≠ tokens.count .closeParen)) ∧
    ((∃ value, outcome = .ok value) ∨ (∃ count, outcome = .error (.operandCount count)) →
      (∀ error, .error error ∉ readings) ∧ Balanced tokens) ∧
    ((∀ error, .error error ∉ readings) → ¬Balanced tokens →
      (∃ operands, Postfix.run program [] = .ok operands ∧
        outcome = .error .mismatchedParentheses) ∨
      ∃ error, Postfix.run program [] = .error error ∧ outcome = .error error ∧
        error.OfOperator) ∧
    (Balanced tokens → outcome ≠ .error .mismatchedParentheses) := by
  intro readings tokens program outcome
  have verdict (mismatched : outcome = .error .mismatchedParentheses) :
      Overcloses (leadingTokens readings) ∨ ((∀ error, .error error ∉ readings) ∧
        tokens.count .openParen ≠ tokens.count .closeParen) := by
    rcases fault_of_status (status_of_mismatched mismatched) with unread | ⟨_, causes⟩
    · cases Lexeme.error_of_mem_readings unread
    · exact causes
  refine ⟨verdict, ?_, ?_, ?_⟩
  · intro completed
    exact (status_eq_ok_iff _ _).mp (status_of_completed completed)
  · intro clean unbalanced
    have settles := (ofReadings evaluator.power readings).settles
    rw [← evaluate_settles_plan] at settles
    change Settles _ outcome at settles
    generalize outcome = reached at settles ⊢
    cases settles with
    | failed ran => exact Or.inr ⟨_, ran, rfl, Postfix.error_of_run ran⟩
    | stopped ran status =>
        rcases fault_of_status status with unread | ⟨rfl, _⟩
        · exact (clean _ unread).elim
        · exact Or.inl ⟨_, ran, rfl⟩
    | valued ran status => exact (unbalanced ((status_eq_ok_iff _ _).mp ⟨_, status⟩).2).elim
    | counted ran status notOne =>
        exact (unbalanced ((status_eq_ok_iff _ _).mp ⟨_, status⟩).2).elim
  · intro balanced mismatched
    rcases verdict mismatched with excess | ⟨_, unequal⟩
    · exact balanced.1 (excess.of_part (leadingTokens_are_first readings))
    · exact unequal balanced.2

/-- A parenthesis that closes nothing, a group that is accepted, one that is never closed, and one
that is closed behind an error of the text. -/
theorem parentheses_are_judged_in_four_texts :
    let readings (text : List Char) := Lexeme.readings text
    let program (text : List Char) :=
      (ofReadings Evaluator.standard.power (Lexeme.readings text)).program
    (Evaluator.standard.evaluate "(1)+2)".toList = .error .mismatchedParentheses ∧
      (Overcloses (leadingTokens (readings "(1)+2)".toList)) ∨
        ((∀ error, .error error ∉ readings "(1)+2)".toList) ∧
          (tokensOf (readings "(1)+2)".toList)).count .openParen ≠
            (tokensOf (readings "(1)+2)".toList)).count .closeParen))) ∧
    (Evaluator.standard.evaluate "(1)".toList = .ok 1.0 ∧
      Balanced (tokensOf (readings "(1)".toList))) ∧
    ((∀ error, .error error ∉ readings "(1/0".toList) ∧
      ¬Balanced (tokensOf (readings "(1/0".toList)) ∧
      ((∃ operands, Postfix.run (program "(1/0".toList) [] = .ok operands ∧
          Evaluator.standard.evaluate "(1/0".toList = .error .mismatchedParentheses) ∨
        ∃ error, Postfix.run (program "(1/0".toList) [] = .error error ∧
          Evaluator.standard.evaluate "(1/0".toList = .error error ∧ error.OfOperator)) ∧
    (Balanced (tokensOf (readings "(1$)".toList)) ∧
      Evaluator.standard.evaluate "(1$)".toList ≠ .error .mismatchedParentheses) := by
  intro readings program
  have mismatched : Evaluator.standard.evaluate "(1)+2)".toList =
      .error .mismatchedParentheses := by decide +kernel
  have accepted : Evaluator.standard.evaluate "(1)".toList = .ok 1.0 := by decide +kernel
  have clean : ∀ error, .error error ∉ readings "(1/0".toList := by
    have tokens : readings "(1/0".toList = [.openParen, .number 1.0, .operator .div,
        .number 0.0].map .ok := by decide +kernel
    rw [tokens]
    simp
  have unbalanced : ¬Balanced (tokensOf (readings "(1/0".toList)) := by
    intro balanced
    exact absurd balanced.2 (by decide +kernel)
  have balanced : Balanced (tokensOf (readings "(1$)".toList)) :=
    (nesting_iff_balanced _).mp (by decide +kernel)
  obtain ⟨verdict, _⟩ := parentheses_are_judged Evaluator.standard "(1)+2)".toList
  obtain ⟨_, completed, _⟩ := parentheses_are_judged Evaluator.standard "(1)".toList
  obtain ⟨_, _, failed, _⟩ := parentheses_are_judged Evaluator.standard "(1/0".toList
  obtain ⟨_, _, _, never⟩ := parentheses_are_judged Evaluator.standard "(1$)".toList
  exact ⟨⟨mismatched, verdict mismatched⟩, ⟨accepted, (completed (Or.inl ⟨1.0, accepted⟩)).2⟩,
    ⟨clean, unbalanced, failed clean unbalanced⟩, balanced, never balanced⟩

end Plan

end Calculator
