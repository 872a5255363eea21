import Calculator.Proofs.Accounting

/-!
Powers that wait for powers.

Where powers group from the right, a power that comes behind a power leaves it pending. The pending
entries then are those of the other grouping with more powers on top of some power, and there is one
more operand for each of them. So when an operator needs its operands they are there, if they were
there for the other grouping: whatever goes through from the left goes through from the right, as
far as values have no say in it. The converse fails, since an operand may come in time for a power
that waits.
-/

set_option autoImplicit false

namespace Calculator

/-- The pending entries of a planning and those of one that has postponed so many powers. Each of
these stands right above a power. -/
inductive Postpones : Nat → List Pending → List Pending → Prop where
  | nil : Postpones 0 [] []
  | openParen {delay : Nat} {pending late : List Pending} (below : Postpones delay pending late) :
      Postpones delay (.openParen :: pending) (.openParen :: late)
  | operator {delay : Nat} {pending late : List Pending} (operator : Operator)
      (below : Postpones delay pending late) :
      Postpones delay (.operator operator :: pending) (.operator operator :: late)
  | power {delay : Nat} {pending late : List Pending}
      (below : Postpones delay (.operator .pow :: pending) late) :
      Postpones (delay + 1) (.operator .pow :: pending) (.operator .pow :: late)

theorem Postpones.merge {delay : Nat} {pending late : List Pending}
    (postpones : Postpones delay (.operator .pow :: .operator .pow :: pending) late) :
    Postpones (delay + 1) (.operator .pow :: pending) late := by
  induction late generalizing delay with
  | nil => cases postpones
  | cons top late ih =>
      cases postpones with
      | operator _ below => exact below.power
      | power below => exact (ih below).power

namespace Plan

open Postfix

theorem postpones_kept {ready : Operator → Bool}
    (only : ∀ operator, ready operator = true → operator = .pow) {delay : Nat}
    {pending late : List Pending} (postpones : Postpones delay (.operator .pow :: pending) late) :
    Postpones (delay + (released ready pending).length) (.operator .pow :: kept ready pending)
      late := by
  induction pending generalizing delay with
  | nil => exact postpones
  | cons top pending ih =>
      cases top with
      | openParen => exact postpones
      | operator operator =>
          cases goes : ready operator with
          | false => simpa [released, kept, goes] using postpones
          | true =>
              rw [only operator goes] at postpones
              have below := ih postpones.merge
              simp only [released, kept, goes, if_true, List.length_cons]
              rwa [Nat.add_right_comm, Nat.add_assoc] at below

/-- Two plans stop at the same fault, or go on with pending entries of which the later ones have
postponed so many powers. -/
inductive StatusFollows (delay : Nat) :
    Except CalculationError (List Pending) → Except CalculationError (List Pending) → Prop where
  | stops (fault : CalculationError) : StatusFollows delay (.error fault) (.error fault)
  | continues {pending late : List Pending} (postpones : Postpones delay pending late) :
      StatusFollows delay (.ok pending) (.ok late)

/-- Where the program of a plan has its operands, the later one has them too, and what it leaves
more is what it has postponed. -/
def Follows (count delay : Nat) (plan late : Plan) : Prop :=
  ∀ left, tally plan.program count = .ok left →
    ∃ more, tally late.program (count + delay) = .ok (left + more) ∧
      StatusFollows more plan.status late.status

theorem follows_of_postpones (count : Nat) {delay : Nat} {pending late : List Pending}
    (postpones : Postpones delay pending late) :
    Follows count delay ⟨[], .ok pending⟩ ⟨[], .ok late⟩ := by
  intro left enough
  cases enough
  exact ⟨delay, rfl, .continues postpones⟩

theorem follows_of_fault (count delay : Nat) (fault : CalculationError) :
    Follows count delay ⟨[], .error fault⟩ ⟨[], .error fault⟩ := by
  intro left enough
  cases enough
  exact ⟨delay, rfl, .stops fault⟩

theorem Follows.andThen {count delay : Nat} {plan late : Plan} {next lateNext : List Pending → Plan}
    (first : Follows count delay plan late)
    (second : ∀ reached more pending latePending, Postpones more pending latePending →
      Follows reached more (next pending) (lateNext latePending)) :
    Follows count delay (plan.andThen next) (late.andThen lateNext) := by
  intro left enough
  cases status : plan.status with
  | error fault =>
      rw [andThen_of_error _ status] at enough ⊢
      obtain ⟨more, counted, follows⟩ := first left enough
      rw [status] at follows
      generalize lateStatus : late.status = reached at follows
      cases follows with
      | stops =>
          rw [andThen_of_error _ lateStatus]
          exact ⟨more, counted, .stops fault⟩
  | ok pending =>
      rw [andThen_of_ok _ status] at enough ⊢
      rw [tally_append] at enough
      cases between : tally plan.program count with
      | error error => simp [between, Except.bind] at enough
      | ok reached =>
          rw [between] at enough
          obtain ⟨more, counted, follows⟩ := first reached between
          rw [status] at follows
          generalize lateStatus : late.status = outcome at follows
          cases follows with
          | @continues _ latePending postpones =>
              obtain ⟨further, ends, last⟩ :=
                second reached more pending latePending postpones left enough
              rw [andThen_of_ok _ lateStatus]
              refine ⟨further, ?_, last⟩
              rw [tally_append, counted]
              exact ends

theorem release_follows {ready : Operator → Bool} (goesPower : ready .pow = true) (count : Nat)
    {delay : Nat} {pending late : List Pending} (postpones : Postpones delay pending late) :
    Follows count delay (release ready pending) (release ready late) := by
  induction postpones generalizing count with
  | nil => exact follows_of_postpones count .nil
  | openParen below _ => exact follows_of_postpones count below.openParen
  | @operator delay pending late operator below ih =>
      cases goes : ready operator with
      | false =>
          rw [release_of_waiting goes, release_of_waiting goes]
          exact follows_of_postpones count (below.operator operator)
      | true =>
          rw [release_of_ready goes, release_of_ready goes]
          intro left enough
          obtain ⟨fewer, rfl, later⟩ := tally_apply_eq_ok enough
          obtain ⟨more, counted, follows⟩ := ih (fewer + 1) left later
          refine ⟨more, ?_, follows⟩
          rw [Nat.add_right_comm] at counted ⊢
          exact counted
  | @power delay pending late below ih =>
      intro left enough
      obtain ⟨more, counted, follows⟩ := ih count left enough
      -- The power below has two operands, and there is one more for the one above it.
      rw [release_of_ready goesPower] at enough
      obtain ⟨fewer, rfl, _⟩ := tally_apply_eq_ok enough
      rw [release_of_ready goesPower late]
      refine ⟨more, ?_, follows⟩
      rw [Nat.add_right_comm] at counted
      rw [← Nat.add_assoc, Nat.add_right_comm fewer 2 delay]
      exact counted

theorem closeGroup_follows (count : Nat) {delay : Nat} {pending late : List Pending}
    (postpones : Postpones delay pending late) :
    Follows count delay (closeGroup pending) (closeGroup late) := by
  apply (release_follows rfl count postpones).andThen
  intro reached more kept lateKept below
  cases below with
  | nil => exact follows_of_fault reached _ _
  | openParen below => exact follows_of_postpones reached below
  | operator operator below => exact follows_of_fault reached _ _
  | power below => exact follows_of_fault reached _ _

theorem drain_follows (count : Nat) {delay : Nat} {pending late : List Pending}
    (postpones : Postpones delay pending late) :
    Follows count delay (drain pending) (drain late) := by
  apply (release_follows rfl count postpones).andThen
  intro reached more kept lateKept below
  cases below with
  | nil => exact follows_of_postpones reached .nil
  | openParen below => exact follows_of_fault reached _ _
  | operator operator below => exact follows_of_fault reached _ _
  | power below => exact follows_of_fault reached _ _

/-- A power that comes releases the powers on top of the one plan and none of the other. -/
theorem power_follows (count : Nat) {delay : Nat} {pending late : List Pending}
    (postpones : Postpones delay pending late) :
    Follows count delay (ofToken .left pending (.operator .pow))
      (ofToken .right late (.operator .pow)) := by
  have onlyPowers (waiting : Operator) (goes : waiting.appliesBefore .pow .left = true) :
      waiting = .pow := by
    cases waiting <;> first
      | rfl
      | cases goes
  have stays : released (fun waiting => waiting.appliesBefore .pow .right) late = [] := by
    rcases late with _ | ⟨operator | _, late⟩
    · rfl
    · cases operator <;> rfl
    · rfl
  intro left enough
  rw [ofToken_operator] at enough ⊢
  rw [ofToken_operator, stays, kept_of_released_eq_nil stays]
  have counted := tally_map_apply enough
  refine ⟨delay + (released (fun waiting => waiting.appliesBefore .pow .left) pending).length,
    ?_, ?_⟩
  · simp only [List.map_nil, tally, Except.ok.injEq]
    omega
  · exact .continues (postpones_kept onlyPowers (postpones.operator .pow))

theorem token_follows (count : Nat) {delay : Nat} {pending late : List Pending}
    (postpones : Postpones delay pending late) (token : Token) :
    Follows count delay (ofToken .left pending token) (ofToken .right late token) := by
  cases token with
  | number value =>
      intro left enough
      cases enough
      exact ⟨delay, congrArg Except.ok (Nat.add_right_comm count delay 1), .continues postpones⟩
  | openParen => exact follows_of_postpones count postpones.openParen
  | closeParen => exact closeGroup_follows count postpones
  | operator incoming =>
      by_cases isPower : incoming = .pow
      · rw [isPower]
        exact power_follows count postpones
      · have goesPower : Operator.pow.appliesBefore incoming .left = true := by
          cases incoming <;> rfl
        simp only [ofToken, Operator.appliesBefore_congr isPower .right .left]
        apply (release_follows goesPower count postpones).andThen
        intro reached more kept lateKept below
        exact follows_of_postpones reached (below.operator incoming)

theorem scan_follows (count : Nat) {delay : Nat} {pending late : List Pending}
    (postpones : Postpones delay pending late)
    (readings : List (Except CalculationError Token)) :
    Follows count delay (scan .left pending readings) (scan .right late readings) := by
  induction readings generalizing count delay pending late with
  | nil => exact follows_of_postpones count postpones
  | cons reading readings ih =>
      have first : Follows count delay (ofReading .left pending reading)
          (ofReading .right late reading) := by
        cases reading with
        | error error => exact follows_of_fault count delay error
        | ok token => exact token_follows count postpones token
      apply first.andThen
      intro reached more next lateNext below
      exact ih reached below

theorem ofReadings_follows (readings : List (Except CalculationError Token)) :
    Follows 0 0 (ofReadings .left readings) (ofReadings .right readings) := by
  apply (scan_follows 0 .nil readings).andThen
  intro reached more pending late postpones
  exact drain_follows reached postpones

theorem settle_follows {plan late : Plan} {operands others : List Float} {more : Nat}
    (ran : run plan.program [] = .ok operands) (lateRan : run late.program [] = .ok others)
    (follows : StatusFollows more plan.status late.status)
    (same : ∀ pending, plan.status = .ok pending → others.length = operands.length) :
    (∃ value other, plan.settle = .ok value ∧ late.settle = .ok other) ∨
      ∃ error, plan.settle = .error error ∧ late.settle = .error error := by
  obtain ⟨program, status⟩ := plan
  obtain ⟨lateProgram, lateStatus⟩ := late
  cases follows with
  | stops fault => exact Or.inr ⟨fault, by simp [settle, ran], by simp [settle, lateRan]⟩
  | continues postpones =>
      rcases settle_of_lengths ran lateRan rfl rfl (same _ rfl) with valued | ⟨count, counted⟩
      · exact Or.inl valued
      · exact Or.inr ⟨.operandCount count, counted⟩

theorem run_of_evaluate {evaluator : Evaluator} {text : List Char}
    (noneMissing : ∀ operator, evaluator.evaluate text ≠ .error (.missingOperand operator))
    (noDivision : evaluator.evaluate text ≠ .error .divisionByZero) :
    ∃ operands, run (ofReadings evaluator.power (Lexeme.readings text)).program [] =
      .ok operands := by
  have settles := (ofReadings evaluator.power (Lexeme.readings text)).settles
  rw [← evaluate_settles_plan] at settles
  generalize evaluator.evaluate text = outcome at settles noneMissing noDivision
  cases settles with
  | failed ran =>
      cases error_of_run ran with
      | missing operator => exact (noneMissing operator rfl).elim
      | division => exact (noDivision rfl).elim
  | stopped ran status => exact ⟨_, ran⟩
  | valued ran status => exact ⟨_, ran⟩
  | counted ran status notOne => exact ⟨_, ran⟩

end Plan

namespace Evaluator

open Plan Postfix

/-- Powers that group from the right bring no failure but a zero divisor into a text that does not
fail at an operator where they group from the left: it has a value again, or the same error. -/
theorem right_grouping_keeps_verdict (text : List Char) :
    let left := Evaluator.evaluate ⟨.left⟩ text
    let right := Evaluator.evaluate ⟨.right⟩ text
    (∀ operator, left ≠ .error (.missingOperand operator)) → left ≠ .error .divisionByZero →
      right = .error .divisionByZero ∨
      (∃ value other, left = .ok value ∧ right = .ok other) ∨
      ∃ error, left = .error error ∧ right = .error error := by
  intro left right noneMissing noDivision
  have settled : left = (ofReadings .left (Lexeme.readings text)).settle :=
    evaluate_settles_plan ⟨.left⟩ text
  have lateSettled : right = (ofReadings .right (Lexeme.readings text)).settle :=
    evaluate_settles_plan ⟨.right⟩ text
  obtain ⟨operands, ran⟩ := run_of_evaluate noneMissing noDivision
  obtain ⟨more, lateCounted, follows⟩ := ofReadings_follows _ _ (tally_of_run ran)
  rw [settled, lateSettled]
  cases lateRan : run (ofReadings .right (Lexeme.readings text)).program [] with
  | error error =>
      cases error_of_run lateRan with
      | division => exact Or.inl (by rw [settle, lateRan])
      | missing operator =>
          have short := tally_of_missing lateRan
          cases short.symm.trans lateCounted
  | ok others =>
      refine Or.inr (settle_follows ran lateRan follows ?_)
      intro pending status
      generalize reached : (ofReadings .right (Lexeme.readings text)).status = lateStatus at follows
      rw [status] at follows
      cases follows with
      | continues postpones =>
          have leftBalance := operands_of_completed ran status
          have rightBalance := operands_of_completed lateRan reached
          omega

/-- A chain with a value, and a chain with another number beside it. -/
theorem right_grouping_keeps_verdict_in_two_texts :
    (Evaluator.evaluate ⟨.left⟩ "2^3^2".toList = .ok ((2.0 ^ 3.0) ^ 2.0) ∧
      (Evaluator.evaluate ⟨.right⟩ "2^3^2".toList = .error .divisionByZero ∨
        ∃ other, Evaluator.evaluate ⟨.right⟩ "2^3^2".toList = .ok other)) ∧
    (Evaluator.evaluate ⟨.left⟩ "(2^3^2)7".toList = .error (.operandCount 2) ∧
      (Evaluator.evaluate ⟨.right⟩ "(2^3^2)7".toList = .error .divisionByZero ∨
        Evaluator.evaluate ⟨.right⟩ "(2^3^2)7".toList = .error (.operandCount 2))) := by
  have reads : Lexeme.readings "2^3^2".toList = [.ok (.number 2.0), .ok (.operator .pow),
      .ok (.number 3.0), .ok (.operator .pow), .ok (.number 2.0)] := by decide +kernel
  have chain : Evaluator.evaluate ⟨.left⟩ "2^3^2".toList = .ok ((2.0 ^ 3.0) ^ 2.0) := by
    rw [Plan.evaluate_settles_plan, reads]
    rfl
  have pair : Evaluator.evaluate ⟨.left⟩ "(2^3^2)7".toList = .error (.operandCount 2) := by
    decide +kernel
  have valued := right_grouping_keeps_verdict "2^3^2".toList (by rw [chain]; simp)
    (by rw [chain]; simp)
  have counted := right_grouping_keeps_verdict "(2^3^2)7".toList (by rw [pair]; simp)
    (by rw [pair]; simp)
  rw [chain] at valued
  rw [pair] at counted
  refine ⟨⟨chain, ?_⟩, pair, ?_⟩
  · rcases valued with division | ⟨_, other, _, same⟩ | ⟨_, failed, _⟩
    · exact Or.inl division
    · exact Or.inr ⟨other, same⟩
    · cases failed
  · rcases counted with division | ⟨_, _, accepted, _⟩ | ⟨error, failed, same⟩
    · exact Or.inl division
    · cases accepted
    · cases failed
      exact Or.inr same

/-- Where the power vanishes, it divides. -/
example (vanishes : (0.5 : Float) ^ (20.0 ^ 3.0) = 0.0) :
    Evaluator.evaluate ⟨.right⟩ "1/0.5^20^3".toList = .error .divisionByZero := by
  have reads : Lexeme.readings "1/0.5^20^3".toList = [.ok (.number 1.0), .ok (.operator .div),
      .ok (.number 0.5), .ok (.operator .pow), .ok (.number 20.0), .ok (.operator .pow),
      .ok (.number 3.0)] := by decide +kernel
  have planned : ofReadings .right (Lexeme.readings "1/0.5^20^3".toList) =
      ⟨[.push 1.0, .push 0.5, .push 20.0, .push 3.0, .apply .pow, .apply .pow, .apply .div],
        .ok []⟩ := by
    rw [reads]
    rfl
  have zero : ((0.0 : Float) == 0.0) = true := by decide +kernel
  rw [evaluate_settles_plan, planned]
  simp only [settle, Postfix.run, Postfix.perform, Operator.apply, Except.bind, Except.map,
    vanishes, zero, if_true]

/-- A text that goes through from the right only. -/
example : Evaluator.evaluate ⟨.left⟩ "1^^2 3".toList = .error (.missingOperand .pow) ∧
    Evaluator.evaluate ⟨.right⟩ "1^^2 3".toList =
      .ok (1.0 ^ (2.0 ^ 3.0)) := by
  have reads : Lexeme.readings "1^^2 3".toList = [.ok (.number 1.0), .ok (.operator .pow),
      .ok (.operator .pow), .ok (.number 2.0), .ok (.number 3.0)] := by decide +kernel
  rw [Plan.evaluate_settles_plan, Plan.evaluate_settles_plan, reads]
  exact ⟨rfl, rfl⟩

end Evaluator

end Calculator
