import Calculator.Evaluator
import Calculator.Proofs.Postfix

/-!
One pass is two phases.

Planning reads tokens, orders the operators by what is pending and writes a postfix program. It
never looks at a number. The evaluation of a text is the run of its plan: the error of the first
instruction that fails, else the fault that stopped the planning, else what the run leaves.
-/

set_option autoImplicit false

namespace Calculator

def Lexeme.readings (text : List Char) : List (Except CalculationError Token) :=
  (Lexeme.scan text).map Lexeme.token

inductive CalculationError.OfText : CalculationError → Prop where
  | character (character : Char) (position : Nat) : OfText (.invalidCharacter character position)
  | number (literal : List Char) (position : Nat) : OfText (.invalidNumber literal position)

theorem CalculationError.OfOperator.not_ofText {error : CalculationError}
    (operator : error.OfOperator) : ¬error.OfText := by
  intro text
  cases operator <;> cases text

theorem Lexeme.error_of_token {lexeme : Lexeme} {error : CalculationError}
    (unread : lexeme.token = .error error) : error.OfText := by
  unfold token at unread
  split at unread
  · split at unread
    · cases unread
    · cases unread
      exact .number _ _
  · split at unread
    · cases unread
    · cases unread
      exact .character _ _

theorem Lexeme.error_of_mem_readings {text : List Char} {error : CalculationError}
    (unread : .error error ∈ readings text) : error.OfText := by
  obtain ⟨lexeme, _, token⟩ := List.mem_map.mp unread
  exact error_of_token token

def tokensOf (readings : List (Except CalculationError Token)) : List Token :=
  readings.filterMap Except.toOption

def leadingTokens : List (Except CalculationError Token) → List Token
  | .ok token :: readings => token :: leadingTokens readings
  | _ => []

theorem tokensOf_map_ok (tokens : List Token) : tokensOf (tokens.map .ok) = tokens := by
  induction tokens with
  | nil => rfl
  | cons token tokens ih => simpa [tokensOf, Except.toOption] using ih

theorem leadingTokens_map_ok (tokens : List Token) : leadingTokens (tokens.map .ok) = tokens := by
  induction tokens with
  | nil => rfl
  | cons token tokens ih => simp [leadingTokens, ih]

theorem leadingTokens_are_first (readings : List (Except CalculationError Token)) :
    leadingTokens readings <+: tokensOf readings := by
  induction readings with
  | nil => exact List.nil_prefix
  | cons reading readings ih =>
      cases reading with
      | error error => exact List.nil_prefix
      | ok token => exact List.cons_prefix_cons.mpr ⟨rfl, ih⟩

theorem leadingTokens_split (readings : List (Except CalculationError Token)) :
    readings = (leadingTokens readings).map .ok ∨
      ∃ error later, readings = (leadingTokens readings).map .ok ++ .error error :: later := by
  induction readings with
  | nil => exact Or.inl rfl
  | cons reading readings ih =>
      cases reading with
      | error error => exact Or.inr ⟨error, readings, rfl⟩
      | ok token =>
          rcases ih with clean | ⟨error, later, split⟩
          · exact Or.inl (congrArg (.ok token :: ·) clean)
          · exact Or.inr ⟨error, later, congrArg (.ok token :: ·) split⟩

theorem map_tokensOf_of_clean {readings : List (Except CalculationError Token)}
    (clean : ∀ error, .error error ∉ readings) : readings = (tokensOf readings).map .ok := by
  rcases leadingTokens_split readings with all | ⟨error, later, split⟩
  · generalize leadingTokens readings = tokens at all
    rw [all, tokensOf_map_ok]
  · exact (clean error (by rw [split]; simp)).elim

def numbersOf : List Token → List Float
  | [] => []
  | .number value :: tokens => value :: numbersOf tokens
  | _ :: tokens => numbersOf tokens

def operatorsOf : List Token → List Operator
  | [] => []
  | .operator operator :: tokens => operator :: operatorsOf tokens
  | _ :: tokens => operatorsOf tokens

theorem numbersOf_append (tokens later : List Token) :
    numbersOf (tokens ++ later) = numbersOf tokens ++ numbersOf later := by
  induction tokens with
  | nil => rfl
  | cons token tokens ih => cases token <;> simp [numbersOf, ih]

theorem operatorsOf_append (tokens later : List Token) :
    operatorsOf (tokens ++ later) = operatorsOf tokens ++ operatorsOf later := by
  induction tokens with
  | nil => rfl
  | cons token tokens ih => cases token <;> simp [operatorsOf, ih]

def Token.renumber (change : Float → Float) : Token → Token
  | .number value => .number (change value)
  | token => token

def Instruction.renumber (change : Float → Float) : Instruction → Instruction
  | .push value => .push (change value)
  | instruction => instruction

theorem Token.renumber_id : Token.renumber id = id := by
  funext token
  cases token <;> rfl

theorem Instruction.renumber_id : Instruction.renumber id = id := by
  funext instruction
  cases instruction <;> rfl

theorem Evaluator.feedAll_append (evaluator : Evaluator) (state : Stacks)
    (lexemes later : List Lexeme) :
    evaluator.feedAll state (lexemes ++ later) =
      (evaluator.feedAll state lexemes).bind fun reached => evaluator.feedAll reached later :=
  List.foldlM_append

structure Plan where
  program : List Instruction
  /-- What is pending behind the program, or the fault that stops the planning there. -/
  status : Except CalculationError (List Pending)

namespace Plan

def andThen (plan : Plan) (next : List Pending → Plan) : Plan :=
  match plan.status with
  | .ok pending => ⟨plan.program ++ (next pending).program, (next pending).status⟩
  | .error fault => ⟨plan.program, .error fault⟩

def released (ready : Operator → Bool) : List Pending → List Operator
  | .operator operator :: pending =>
      if ready operator then operator :: released ready pending else []
  | _ => []

def kept (ready : Operator → Bool) : List Pending → List Pending
  | .operator operator :: pending =>
      if ready operator then kept ready pending else .operator operator :: pending
  | pending => pending

def release (ready : Operator → Bool) (pending : List Pending) : Plan :=
  ⟨(released ready pending).map .apply, .ok (kept ready pending)⟩

/-- A closing parenthesis releases everything down to its partner, and faults without one. -/
def closeGroup (pending : List Pending) : Plan :=
  (release (fun _ => true) pending).andThen fun
    | .openParen :: outer => ⟨[], .ok outer⟩
    | _ => ⟨[], .error .mismatchedParentheses⟩

/-- The end of the input releases everything. A group that is still open is a fault. -/
def drain (pending : List Pending) : Plan :=
  (release (fun _ => true) pending).andThen fun
    | [] => ⟨[], .ok []⟩
    | _ => ⟨[], .error .mismatchedParentheses⟩

def ofToken (power : Associativity) (pending : List Pending) : Token → Plan
  | .number value => ⟨[.push value], .ok pending⟩
  | .operator incoming =>
      (release (fun waiting => waiting.appliesBefore incoming power) pending).andThen
        fun kept => ⟨[], .ok (.operator incoming :: kept)⟩
  | .openParen => ⟨[], .ok (.openParen :: pending)⟩
  | .closeParen => closeGroup pending

def ofReading (power : Associativity) (pending : List Pending) :
    Except CalculationError Token → Plan
  | .ok token => ofToken power pending token
  | .error error => ⟨[], .error error⟩

def scan (power : Associativity) (pending : List Pending) :
    List (Except CalculationError Token) → Plan
  | [] => ⟨[], .ok pending⟩
  | reading :: rest =>
      (ofReading power pending reading).andThen fun pending => scan power pending rest

/-- The first phase, from the first reading to the end of the input. -/
def ofReadings (power : Associativity) (readings : List (Except CalculationError Token)) : Plan :=
  (scan power [] readings).andThen drain

/-- The second phase: a run on no operands, whose first error goes before the fault of the plan. -/
def settle (plan : Plan) : Except CalculationError Float :=
  match Postfix.run plan.program [] with
  | .error error => .error error
  | .ok operands =>
      match plan.status with
      | .error fault => .error fault
      | .ok _ =>
          match operands with
          | [value] => .ok value
          | _ => .error (.operandCount operands.length)

def on (plan : Plan) (operands : List Float) : Except CalculationError Stacks :=
  match Postfix.run plan.program operands with
  | .error error => .error error
  | .ok reached => plan.status.map fun pending => ⟨reached, pending⟩

theorem on_eq_ok {plan : Plan} {operands : List Float} {state : Stacks}
    (reached : plan.on operands = .ok state) :
    Postfix.run plan.program operands = .ok state.operands ∧ plan.status = .ok state.pending := by
  obtain ⟨program, status⟩ := plan
  simp only [on] at reached ⊢
  cases ran : Postfix.run program operands with
  | error error => simp [ran] at reached
  | ok left =>
      cases status with
      | error fault => simp [ran, Except.map] at reached
      | ok pending =>
          simp only [ran, Except.map, Except.ok.injEq] at reached
          subst reached
          exact ⟨rfl, rfl⟩

theorem on_eq_error {plan : Plan} {operands : List Float} {error : CalculationError}
    (failed : plan.on operands = .error error) :
    Postfix.run plan.program operands = .error error ∨ plan.status = .error error := by
  obtain ⟨program, status⟩ := plan
  simp only [on] at failed ⊢
  cases ran : Postfix.run program operands with
  | error first =>
      simp only [ran] at failed
      cases failed
      exact Or.inl rfl
  | ok left =>
      cases status with
      | error fault =>
          simp only [ran, Except.map] at failed
          cases failed
          exact Or.inr rfl
      | ok pending => simp [ran, Except.map] at failed

theorem andThen_of_ok {plan : Plan} {pending : List Pending} (next : List Pending → Plan)
    (continues : plan.status = .ok pending) :
    plan.andThen next = ⟨plan.program ++ (next pending).program, (next pending).status⟩ := by
  simp only [andThen, continues]

theorem andThen_of_error {plan : Plan} {fault : CalculationError} (next : List Pending → Plan)
    (stops : plan.status = .error fault) : plan.andThen next = ⟨plan.program, .error fault⟩ := by
  simp only [andThen, stops]

theorem released_append_kept (ready : Operator → Bool) (pending : List Pending) :
    (released ready pending).map .operator ++ kept ready pending = pending := by
  induction pending with
  | nil => rfl
  | cons top pending ih =>
      cases top with
      | openParen => rfl
      | operator operator =>
          cases goes : ready operator with
          | false => simp [released, kept, goes]
          | true => simpa [released, kept, goes] using ih

theorem kept_of_released_eq_nil {ready : Operator → Bool} {pending : List Pending}
    (idle : released ready pending = []) : kept ready pending = pending := by
  have whole := released_append_kept ready pending
  rwa [idle] at whole

theorem release_of_ready {ready : Operator → Bool} {operator : Operator}
    (goes : ready operator = true) (pending : List Pending) :
    release ready (.operator operator :: pending) =
      ⟨.apply operator :: (release ready pending).program, (release ready pending).status⟩ := by
  simp [release, released, kept, goes]

theorem release_of_waiting {ready : Operator → Bool} {operator : Operator}
    (waits : ready operator = false) (pending : List Pending) :
    release ready (.operator operator :: pending) = ⟨[], .ok (.operator operator :: pending)⟩ := by
  simp [release, released, kept, waits]

theorem kept_all_cases (pending : List Pending) :
    kept (fun _ => true) pending = [] ∨
      ∃ outer, kept (fun _ => true) pending = .openParen :: outer := by
  induction pending with
  | nil => exact Or.inl rfl
  | cons top pending ih =>
      cases top with
      | openParen => exact Or.inr ⟨pending, rfl⟩
      | operator operator => simpa [kept] using ih

theorem closeGroup_cases (pending : List Pending) :
    (kept (fun _ => true) pending = [] ∧ closeGroup pending =
      ⟨(released (fun _ => true) pending).map .apply, .error .mismatchedParentheses⟩) ∨
    ∃ outer, kept (fun _ => true) pending = .openParen :: outer ∧ closeGroup pending =
      ⟨(released (fun _ => true) pending).map .apply, .ok outer⟩ := by
  rcases kept_all_cases pending with unopened | ⟨outer, group⟩
  · exact Or.inl ⟨unopened, by simp [closeGroup, release, andThen, unopened]⟩
  · exact Or.inr ⟨outer, group, by simp [closeGroup, release, andThen, group]⟩

theorem drain_cases (pending : List Pending) :
    (kept (fun _ => true) pending = [] ∧ drain pending =
      ⟨(released (fun _ => true) pending).map .apply, .ok []⟩) ∨
    ∃ outer, kept (fun _ => true) pending = .openParen :: outer ∧ drain pending =
      ⟨(released (fun _ => true) pending).map .apply, .error .mismatchedParentheses⟩ := by
  rcases kept_all_cases pending with unopened | ⟨outer, group⟩
  · exact Or.inl ⟨unopened, by simp [drain, release, andThen, unopened]⟩
  · exact Or.inr ⟨outer, group, by simp [drain, release, andThen, group]⟩

theorem ofToken_operator (power : Associativity) (pending : List Pending) (incoming : Operator) :
    ofToken power pending (.operator incoming) =
      ⟨(released (fun waiting => waiting.appliesBefore incoming power) pending).map .apply,
        .ok (.operator incoming ::
          kept (fun waiting => waiting.appliesBefore incoming power) pending)⟩ := by
  simp [ofToken, release, andThen]

theorem scan_append (power : Associativity) (pending : List Pending)
    (readings later : List (Except CalculationError Token)) :
    scan power pending (readings ++ later) =
      (scan power pending readings).andThen fun pending => scan power pending later := by
  induction readings generalizing pending with
  | nil => simp [scan, andThen]
  | cons reading readings ih =>
      simp only [List.cons_append, scan]
      cases first : (ofReading power pending reading).status with
      | error fault => simp [andThen, first]
      | ok next =>
          rw [andThen_of_ok _ first, andThen_of_ok _ first, ih next]
          cases second : (scan power next readings).status <;> simp [andThen, second]

theorem scan_append_of_ok {power : Associativity} {pending next : List Pending}
    {readings : List (Except CalculationError Token)} {program : List Instruction}
    (later : List (Except CalculationError Token))
    (first : scan power pending readings = ⟨program, .ok next⟩) :
    scan power pending (readings ++ later) =
      ⟨program ++ (scan power next later).program, (scan power next later).status⟩ := by
  rw [scan_append, first]
  rfl

theorem on_andThen (plan : Plan) (next : List Pending → Plan) (operands : List Float) :
    (plan.andThen next).on operands =
      (plan.on operands).bind fun state => (next state.pending).on state.operands := by
  obtain ⟨program, status⟩ := plan
  cases status with
  | error fault =>
      simp only [andThen, on]
      cases Postfix.run program operands <;> rfl
  | ok pending =>
      simp only [andThen, on, Postfix.run_append]
      cases Postfix.run program operands <;> rfl

theorem reduce_is_perform (operator : Operator) (operands : List Float) :
    (Stacks.reduce operator operands).mapError Prod.fst =
      Postfix.perform (.apply operator) operands := by
  match operands with
  | [] => rfl
  | [_] => rfl
  | right :: left :: rest =>
      simp only [Stacks.reduce, Postfix.perform]
      cases operator.apply left right <;> rfl

theorem release_is_planned (ready : Operator → Bool) (operands : List Float)
    (pending : List Pending) :
    (Stacks.release ready operands pending).mapError Stacks.Failure.error =
      (release ready pending).on operands := by
  induction pending generalizing operands with
  | nil => rfl
  | cons top pending ih =>
      cases top with
      | openParen => rfl
      | operator operator =>
          cases goes : ready operator with
          | false =>
              simp only [Stacks.release, release, released, kept, on, goes, Bool.false_eq_true,
                if_false]
              rfl
          | true =>
              have first := reduce_is_perform operator operands
              simp only [Stacks.release, release, released, kept, on, goes, if_true,
                List.map_cons, Postfix.run]
              rw [← first]
              cases reduced : Stacks.reduce operator operands with
              | error failed => rfl
              | ok next => exact ih next

theorem push_is_planned (evaluator : Evaluator) (state : Stacks) (token : Token) :
    (evaluator.push state token).mapError Stacks.Failure.error =
      (ofToken evaluator.power state.pending token).on state.operands := by
  cases token with
  | number value => rfl
  | openParen => rfl
  | operator incoming =>
      simp only [Evaluator.push, Stacks.pushOperator, ofToken]
      rw [on_andThen, ← release_is_planned]
      cases Stacks.release _ state.operands state.pending <;> rfl
  | closeParen =>
      simp only [Evaluator.push, Stacks.closeGroup, ofToken, closeGroup]
      rw [on_andThen, ← release_is_planned]
      rcases Stacks.release _ state.operands state.pending with failure | ⟨operands, pending⟩
      · rfl
      · rcases pending with _ | ⟨_ | _, pending⟩ <;> rfl

theorem feedAll_is_planned (evaluator : Evaluator) (state : Stacks) (lexemes : List Lexeme) :
    (evaluator.feedAll state lexemes).mapError Stacks.Failure.error =
      (scan evaluator.power state.pending (lexemes.map Lexeme.token)).on state.operands := by
  induction lexemes generalizing state with
  | nil => rfl
  | cons lexeme lexemes ih =>
      have first : (evaluator.feed state lexeme).mapError Stacks.Failure.error =
          (ofReading evaluator.power state.pending lexeme.token).on state.operands := by
        unfold Evaluator.feed
        cases lexeme.token with
        | error error => rfl
        | ok token => exact push_is_planned evaluator state token
      simp only [Evaluator.feedAll, List.foldlM_cons, List.map_cons, scan]
      rw [on_andThen, ← first]
      cases evaluator.feed state lexeme with
      | error failure => rfl
      | ok next => exact ih next

theorem finish_is_planned (state : Stacks) :
    state.finish = ((drain state.pending).on state.operands).bind fun reached =>
      match reached.operands with
      | [value] => .ok value
      | operands => .error (.operandCount operands.length) := by
  simp only [Stacks.finish, drain]
  rw [on_andThen, ← release_is_planned]
  rcases Stacks.release _ state.operands state.pending with failure | ⟨operands, pending⟩
  · rfl
  · rcases pending with _ | ⟨top, pending⟩ <;>
      rcases operands with _ | ⟨value, _ | ⟨other, operands⟩⟩ <;> rfl

theorem settle_eq_on (plan : Plan) :
    plan.settle = (plan.on []).bind fun reached =>
      match reached.operands with
      | [value] => .ok value
      | operands => .error (.operandCount operands.length) := by
  obtain ⟨program, status⟩ := plan
  simp only [settle, on]
  cases Postfix.run program [] with
  | error error => rfl
  | ok operands =>
      cases status with
      | error fault => rfl
      | ok pending => rcases operands with _ | ⟨value, _ | ⟨other, operands⟩⟩ <;> rfl

/-- How a plan can be settled: the program fails, or else the plan has a fault, or else the operands
that are left decide. -/
inductive Settles (plan : Plan) : Except CalculationError Float → Prop where
  | failed {error : CalculationError} (ran : Postfix.run plan.program [] = .error error) :
      Settles plan (.error error)
  | stopped {operands : List Float} {fault : CalculationError}
      (ran : Postfix.run plan.program [] = .ok operands) (status : plan.status = .error fault) :
      Settles plan (.error fault)
  | valued {value : Float} {pending : List Pending}
      (ran : Postfix.run plan.program [] = .ok [value]) (status : plan.status = .ok pending) :
      Settles plan (.ok value)
  | counted {operands : List Float} {pending : List Pending}
      (ran : Postfix.run plan.program [] = .ok operands) (status : plan.status = .ok pending)
      (notOne : operands.length ≠ 1) : Settles plan (.error (.operandCount operands.length))

theorem settles (plan : Plan) : plan.Settles plan.settle := by
  unfold settle
  cases ran : Postfix.run plan.program [] with
  | error error => exact .failed ran
  | ok operands =>
      cases status : plan.status with
      | error fault => exact .stopped ran status
      | ok pending =>
          rcases operands with _ | ⟨value, _ | ⟨other, operands⟩⟩
          · exact .counted ran status (by simp)
          · exact .valued ran status
          · exact .counted ran status (by simp)

theorem settle_eq_ok {plan : Plan} {value : Float} (settled : plan.settle = .ok value) :
    Postfix.run plan.program [] = .ok [value] ∧ ∃ pending, plan.status = .ok pending := by
  have settles := plan.settles
  rw [settled] at settles
  cases settles with
  | valued ran status => exact ⟨ran, _, status⟩

theorem settle_eq_error {plan : Plan} {error : CalculationError}
    (settled : plan.settle = .error error) :
    Postfix.run plan.program [] = .error error ∨
      ∃ operands, Postfix.run plan.program [] = .ok operands ∧
        (plan.status = .error error ∨ error = .operandCount operands.length) := by
  have settles := plan.settles
  rw [settled] at settles
  cases settles with
  | failed ran => exact Or.inl ran
  | stopped ran status => exact Or.inr ⟨_, ran, Or.inl status⟩
  | counted ran status notOne => exact Or.inr ⟨_, ran, Or.inr rfl⟩

theorem settle_of_count {plan : Plan} {operands : List Float} {pending : List Pending}
    (ran : Postfix.run plan.program [] = .ok operands) (status : plan.status = .ok pending)
    (notOne : operands.length ≠ 1) : plan.settle = .error (.operandCount operands.length) := by
  rcases operands with _ | ⟨value, _ | ⟨other, operands⟩⟩
  · simp [settle, ran, status]
  · exact (notOne rfl).elim
  · simp [settle, ran, status]

theorem settle_of_lengths {plan other : Plan} {operands others : List Float}
    {pending otherPending : List Pending} (ran : Postfix.run plan.program [] = .ok operands)
    (otherRan : Postfix.run other.program [] = .ok others) (status : plan.status = .ok pending)
    (otherStatus : other.status = .ok otherPending) (lengths : others.length = operands.length) :
    (∃ value another, plan.settle = .ok value ∧ other.settle = .ok another) ∨
      ∃ count, plan.settle = .error (.operandCount count) ∧
        other.settle = .error (.operandCount count) := by
  by_cases one : operands.length = 1
  · rcases List.length_eq_one_iff.mp one with ⟨value, rfl⟩
    rcases List.length_eq_one_iff.mp (lengths.trans one) with ⟨another, rfl⟩
    exact Or.inl ⟨value, another, by simp [settle, ran, status],
      by simp [settle, otherRan, otherStatus]⟩
  · have counted := settle_of_count otherRan otherStatus (by rwa [lengths])
    rw [lengths] at counted
    exact Or.inr ⟨operands.length, settle_of_count ran status one, counted⟩

theorem evaluate_settles_plan (evaluator : Evaluator) (text : List Char) :
    evaluator.evaluate text = (ofReadings evaluator.power (Lexeme.readings text)).settle := by
  have fed := feedAll_is_planned evaluator Stacks.empty (Lexeme.scan text)
  rw [settle_eq_on, ofReadings, on_andThen]
  change _ = ((on (scan _ Stacks.empty.pending _) Stacks.empty.operands).bind _).bind _
  rw [Lexeme.readings, ← fed, Evaluator.evaluate]
  cases evaluator.feedAll Stacks.empty (Lexeme.scan text) with
  | error failure => rfl
  | ok state => exact finish_is_planned state

end Plan

end Calculator
