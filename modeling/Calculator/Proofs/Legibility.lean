import Calculator.Proofs.Literals
import Calculator.Proofs.Nesting
import Calculator.Proofs.Pieces
import Mathlib.Tactic.IntervalCases

/-!
The first thing in a text that cannot be read.

A text is legible if it keeps to the alphabet and every run of literal characters in it is a number.
Where it is not, there is a first character or run that is to blame, and everything in front of it
is a legible text of its own. An evaluation reports this place and no other, unless what stands in
front of it fails already.
-/

set_option autoImplicit false

namespace Calculator

namespace Lexeme

/-- The characters of literals, of operators and parentheses, and the blanks. -/
def alphabet : List Char :=
  ['0', '1', '2', '3', '4', '5', '6', '7', '8', '9', '.', '+', '-', '*', '/', '^', '(', ')',
    ' ', '\t', '\r', '\n', '\x0c']

structure Legible (text : List Char) : Prop where
  characters : ∀ character ∈ text, character ∈ alphabet
  runs : ∀ front run back, MaximalRun text front run back → Decimal.IsNumeral run

/-- What cannot be read behind the first part of a text, and how it is reported. -/
inductive Fault (text before : List Char) : CalculationError → Prop where
  | character {character : Char} {after : List Char} (parts : text = before ++ character :: after)
      (foreign : character ∉ alphabet) :
      Fault text before (.invalidCharacter character (width before))
  | number {run after : List Char} (maximal : MaximalRun text before run after)
      (invalid : ¬Decimal.IsNumeral run) : Fault text before (.invalidNumber run (width before))

theorem mem_alphabet_of_literal {character : Char}
    (literal : Decimal.isLiteralCharacter character = true) : character ∈ alphabet := by
  rcases Decimal.isDigit_or_point literal with digit | rfl
  · obtain ⟨least, most⟩ := Decimal.digit_bounds digit
    rw [← Char.ofNat_toNat character]
    interval_cases character.toNat <;> decide
  · decide

theorem symbolToken?_cases {character : Char} {token : Token}
    (symbol : symbolToken? character = some token) :
    (character = '(' ∧ token = .openParen) ∨ (character = ')' ∧ token = .closeParen) ∨
      ∃ operator : Operator, character = operator.symbol ∧ token = .operator operator := by
  unfold symbolToken? at symbol
  split at symbol
  case isTrue same => exact Or.inl ⟨same, (Option.some.inj symbol).symm⟩
  case isFalse =>
    split at symbol
    case isTrue same => exact Or.inr (Or.inl ⟨same, (Option.some.inj symbol).symm⟩)
    case isFalse =>
      obtain ⟨operator, found, same⟩ := Option.map_eq_some_iff.mp symbol
      exact Or.inr (Or.inr ⟨operator, (Operator.symbol_of_ofSymbol? found).symm, same.symm⟩)

theorem mem_alphabet_of_symbol {character : Char} {token : Token}
    (symbol : symbolToken? character = some token) : character ∈ alphabet := by
  rcases symbolToken?_cases symbol with ⟨rfl, _⟩ | ⟨rfl, _⟩ | ⟨operator, rfl, _⟩
  · decide
  · decide
  · cases operator <;> decide

theorem mem_alphabet_iff (character : Char) :
    character ∈ alphabet ↔ Decimal.isLiteralCharacter character = true ∨
      isBlank character = true ∨ (symbolToken? character).isSome = true := by
  constructor
  · have all : alphabet.all (fun character => Decimal.isLiteralCharacter character ||
        (isBlank character || (symbolToken? character).isSome)) = true := by decide
    intro member
    simpa using List.all_eq_true.mp all character member
  · rintro (literal | blank | symbol)
    · exact mem_alphabet_of_literal literal
    · simp only [isBlank, List.contains_iff_mem, List.mem_cons, List.not_mem_nil, or_false] at blank
      rcases blank with rfl | rfl | rfl | rfl | rfl <;> decide
    · obtain ⟨token, symbol⟩ := Option.isSome_iff_exists.mp symbol
      exact mem_alphabet_of_symbol symbol

theorem ascii_of_mem_alphabet {character : Char} (member : character ∈ alphabet) :
    character.toNat < 128 ∧ character.utf8Size = 1 := by
  have all : alphabet.all (fun character =>
      decide (character.toNat < 128 ∧ character.utf8Size = 1)) = true := by decide
  exact of_decide_eq_true (List.all_eq_true.mp all character member)

theorem width_eq_length {text : List Char}
    (known : ∀ character ∈ text, character ∈ alphabet) : width text = text.length := by
  induction text with
  | nil => rfl
  | cons character text ih =>
      obtain ⟨here, later⟩ := List.forall_mem_cons.mp known
      rw [width, (ascii_of_mem_alphabet here).2, ih later, List.length_cons, Nat.add_comm]

theorem token_of_run {lexeme : Lexeme}
    (literal : ∀ character ∈ lexeme.text, Decimal.isLiteralCharacter character = true) :
    lexeme.token =
      (Decimal.ofLiteral? lexeme.text).elim (.error (.invalidNumber lexeme.text lexeme.start))
        fun decimal => .ok (.number decimal.toFloat) := by
  have unfound :
      (lexeme.text.find? fun character => !Decimal.isLiteralCharacter character) = none :=
    List.find?_eq_none.mpr fun character member => by simp [literal character member]
  simp only [token, unfound]
  cases Decimal.ofLiteral? lexeme.text <;> rfl

theorem token_of_single {start : Nat} {character : Char}
    (other : Decimal.isLiteralCharacter character = false) :
    token ⟨start, [character]⟩ =
      (symbolToken? character).elim (.error (.invalidCharacter character start)) .ok := by
  simp only [token, List.find?_cons, other, Bool.not_false]
  cases symbolToken? character <;> rfl

theorem literal_eq_error_iff {lexeme : Lexeme} {error : CalculationError}
    (literal : ∀ character ∈ lexeme.text, Decimal.isLiteralCharacter character = true) :
    lexeme.token = .error error ↔
      ¬Decimal.IsNumeral lexeme.text ∧ error = .invalidNumber lexeme.text lexeme.start := by
  rw [token_of_run literal, ← Decimal.ofLiteral?_isSome_iff literal]
  cases Decimal.ofLiteral? lexeme.text <;> simp [eq_comm]

theorem single_eq_error_iff {start : Nat} {character : Char} {error : CalculationError}
    (other : Decimal.isLiteralCharacter character = false) :
    token ⟨start, [character]⟩ = .error error ↔
      symbolToken? character = none ∧ error = .invalidCharacter character start := by
  rw [token_of_single other]
  cases symbolToken? character <;> simp [eq_comm]

theorem fault_of_lexeme {text : List Char} {before after : List Lexeme} {lexeme : Lexeme}
    {error : CalculationError} (split : scan text = before ++ lexeme :: after)
    (unread : lexeme.token = .error error) :
    ∃ front, scan front = before ∧ Fault text front error := by
  obtain ⟨front, back, cut, parts, lexemes, place, shown⟩ := scan_eq_append_cons split
  refine ⟨front, lexemes, ?_⟩
  obtain ⟨start, piece⟩ := lexeme
  simp only at cut parts place shown
  subst place
  have member : piece ∈ pieces text := by simp [cut]
  rcases piece_cases member with literal | ⟨character, rfl, other⟩
  · have maximal := maximalRun_of_piece cut literal
    rw [flatten_pieces] at maximal
    obtain ⟨invalid, rfl⟩ := (literal_eq_error_iff literal).mp unread
    exact .number maximal invalid
  · obtain ⟨symbol, rfl⟩ := (single_eq_error_iff other).mp unread
    have notBlank : isBlank character = false := by simpa using shown
    refine .character parts ?_
    rw [mem_alphabet_iff]
    simp [other, notBlank, symbol]

theorem scan_of_fault {text front : List Char} {error : CalculationError}
    (fault : Fault text front error) :
    ∃ lexeme later, scan text = scan front ++ lexeme :: later ∧ lexeme.token = .error error := by
  cases fault with
  | @character character after parts foreign =>
      rw [mem_alphabet_iff, not_or, not_or] at foreign
      obtain ⟨notLiteral, notBlank, notSymbol⟩ := foreign
      have other := Bool.eq_false_iff.mpr notLiteral
      obtain ⟨later, split⟩ := scan_of_piece (safeCut_before other front after)
        (safeCut_behind other after) rfl (by simp [notBlank])
      refine ⟨⟨width front, [character]⟩, later, ?_,
        (single_eq_error_iff other).mpr ⟨by simpa using notSymbol, rfl⟩⟩
      rw [parts]
      exact split
  | @number run after maximal invalid =>
      obtain ⟨later, split⟩ := scan_of_piece maximal.cut_before maximal.cut_behind
        (pieces_of_run maximal.nonempty maximal.literal)
        (not_blank_of_run maximal.nonempty maximal.literal)
      refine ⟨⟨width front, run⟩, later, ?_,
        (literal_eq_error_iff maximal.literal).mpr ⟨invalid, rfl⟩⟩
      rw [maximal.parts]
      exact split

theorem readings_of_fault {text front : List Char} {error : CalculationError}
    (fault : Fault text front error) :
    ∃ later, readings text = readings front ++ .error error :: later := by
  obtain ⟨lexeme, later, split, unread⟩ := scan_of_fault fault
  refine ⟨later.map token, ?_⟩
  rw [readings, readings, split, List.map_append, List.map_cons, unread]

theorem legible_iff (text : List Char) :
    Legible text ↔ ∀ error, .error error ∉ readings text := by
  constructor
  · intro legible error unread
    obtain ⟨lexeme, member, token⟩ := List.mem_map.mp unread
    obtain ⟨before, after, split⟩ := List.append_of_mem member
    obtain ⟨front, _, fault⟩ := fault_of_lexeme split token
    cases fault with
    | character parts foreign => exact foreign (legible.characters _ (by simp [parts]))
    | number maximal invalid => exact invalid (legible.runs _ _ _ maximal)
  · intro clean
    have unfaulted (front : List Char) (error : CalculationError) : ¬Fault text front error := by
      intro fault
      obtain ⟨later, split⟩ := readings_of_fault fault
      exact clean error (by simp [split])
    constructor
    · intro character member
      by_contra foreign
      obtain ⟨front, after, parts⟩ := List.append_of_mem member
      exact unfaulted front _ (.character parts foreign)
    · intro front run back maximal
      by_contra invalid
      exact unfaulted front _ (.number maximal invalid)

theorem first_fault {text : List Char} (illegible : ¬Legible text) :
    ∃ front lexeme after error, scan text = scan front ++ lexeme :: after ∧
      lexeme.token = .error error ∧ Legible front ∧ Fault text front error := by
  rw [legible_iff] at illegible
  rcases leadingTokens_split (readings text) with clean | ⟨error, later, split⟩
  · exact (illegible fun error => by rw [clean]; simp).elim
  · obtain ⟨before, rest, lexemes, tokens, errors⟩ := List.map_eq_append_iff.mp split
    obtain ⟨lexeme, after, rfl, unread, _⟩ := List.map_eq_cons_iff.mp errors
    obtain ⟨front, rfl, fault⟩ := fault_of_lexeme lexemes unread
    refine ⟨front, lexeme, after, error, lexemes, unread, ?_, fault⟩
    rw [legible_iff, readings, tokens]
    simp

end Lexeme

namespace Evaluator

open Lexeme

/-- The pass ends at the first lexeme that is an error, or before. -/
theorem evaluate_of_unread (evaluator : Evaluator) {text : List Char}
    {before after : List Lexeme} {lexeme : Lexeme} {error : CalculationError}
    (split : scan text = before ++ lexeme :: after) (unread : lexeme.token = .error error) :
    (∃ state, evaluator.feedAll Stacks.empty before = .ok state ∧
      evaluator.evaluate text = .error error) ∨
    ∃ failure, evaluator.feedAll Stacks.empty before = .error failure ∧
      evaluator.evaluate text = .error failure.error := by
  have fed : evaluator.feedAll Stacks.empty (scan text) =
      (evaluator.feedAll Stacks.empty before).bind fun state =>
        evaluator.feedAll state (lexeme :: after) := by
    rw [split, feedAll_append]
  rw [evaluate, fed]
  cases evaluator.feedAll Stacks.empty before with
  | error failure => exact Or.inr ⟨failure, rfl, rfl⟩
  | ok state =>
      refine Or.inl ⟨state, rfl, ?_⟩
      have stops : evaluator.feed state lexeme = .error ⟨error, state⟩ := by
        simp only [feed, unread]
      simp only [Except.bind, feedAll, List.foldlM_cons, stops, bind]

theorem evaluate_of_fault {evaluator : Evaluator} {text front : List Char}
    {error : CalculationError} {state : Stacks} (fault : Fault text front error)
    (fed : evaluator.feedAll Stacks.empty (scan front) = .ok state) :
    evaluator.evaluate text = .error error := by
  obtain ⟨lexeme, later, split, unread⟩ := scan_of_fault fault
  rcases evaluator.evaluate_of_unread split unread with ⟨_, _, reported⟩ | ⟨_, failed, _⟩
  · exact reported
  · rw [fed] at failed
    cases failed

theorem error_of_legible {evaluator : Evaluator} {text : List Char} {error : CalculationError}
    (legible : Legible text) (failed : evaluator.evaluate text = .error error) :
    ¬error.OfText := by
  intro lexical
  have clean := (legible_iff text).mp legible
  have settles := (Plan.ofReadings evaluator.power (readings text)).settles
  rw [← Plan.evaluate_settles_plan, failed] at settles
  cases settles with
  | failed ran => exact (Postfix.error_of_run ran).not_ofText lexical
  | stopped ran status =>
      rcases Plan.fault_of_status status with unread | ⟨rfl, _⟩
      · exact clean error unread
      · cases lexical
  | counted ran status notOne => cases lexical

theorem evaluate_of_illegible (evaluator : Evaluator) {text : List Char}
    (illegible : ¬Legible text) :
    ∃ before error, Fault text before error ∧ Legible before ∧
      ((∃ state, evaluator.feedAll Stacks.empty (scan before) = .ok state ∧
          evaluator.evaluate text = .error error) ∨
        ∃ failure, evaluator.feedAll Stacks.empty (scan before) = .error failure ∧
          evaluator.evaluate text = .error failure.error ∧
          (failure.error = .mismatchedParentheses ∨ failure.error.OfOperator)) := by
  obtain ⟨before, lexeme, after, error, split, unread, legible, fault⟩ := first_fault illegible
  refine ⟨before, error, fault, legible, ?_⟩
  rcases evaluator.evaluate_of_unread split unread with reported | ⟨failure, failed, reported⟩
  · exact Or.inl reported
  · exact Or.inr ⟨failure, failed, reported,
      Plan.error_of_feedAll ((legible_iff before).mp legible) failed⟩

theorem fault_of_evaluate {evaluator : Evaluator} {text : List Char} {error : CalculationError}
    (failed : evaluator.evaluate text = .error error) (lexical : error.OfText) :
    ∃ before, Fault text before error ∧ Legible before := by
  have illegible : ¬Legible text := fun legible => error_of_legible legible failed lexical
  obtain ⟨before, first, fault, legible, outcome⟩ := evaluator.evaluate_of_illegible illegible
  rcases outcome with ⟨_, _, reported⟩ | ⟨failure, _, reported, kind⟩
  · cases failed.symm.trans reported
    exact ⟨before, fault, legible⟩
  · cases failed.symm.trans reported
    rcases kind with mismatch | operator
    · rw [mismatch] at lexical
      cases lexical
    · exact (operator.not_ofText lexical).elim

/-- Errors of the text are told where they are: the part in front of the place is legible, so the
place is the first of its kind, and what stands there is what the error says. A text that is not
legible has no other outcome than this error and a failure of the part in front. -/
theorem lexical_errors_are_located (evaluator : Evaluator) (text : List Char) :
    let outcome := evaluator.evaluate text
    (∀ character position, outcome = .error (.invalidCharacter character position) →
      ∃ before after, text = before ++ character :: after ∧ position = width before ∧
        character ∉ alphabet ∧ Legible before ∧ position = before.length ∧
        ∀ earlier ∈ before, earlier.toNat < 128) ∧
    (∀ literal position, outcome = .error (.invalidNumber literal position) →
      ∃ before after, MaximalRun text before literal after ∧ position = width before ∧
        ¬Decimal.IsNumeral literal ∧ Legible before ∧ position = before.length ∧
        ∀ earlier ∈ before, earlier.toNat < 128) ∧
    ((∃ character ∈ text, character ∉ alphabet) ∨
        (∃ front run back, MaximalRun text front run back ∧ ¬Decimal.IsNumeral run) →
      (∀ value, outcome ≠ .ok value) ∧ (∀ count, outcome ≠ .error (.operandCount count)) ∧
      ∃ before error, Fault text before error ∧ Legible before ∧
        ((∃ state, evaluator.feedAll Stacks.empty (scan before) = .ok state ∧
            outcome = .error error) ∨
          ∃ failure, evaluator.feedAll Stacks.empty (scan before) = .error failure ∧
            outcome = .error failure.error ∧
            (failure.error = .mismatchedParentheses ∨ failure.error.OfOperator))) := by
  intro outcome
  have ascii {before : List Char} (legible : Legible before) :
      width before = before.length ∧ ∀ earlier ∈ before, earlier.toNat < 128 :=
    ⟨width_eq_length legible.characters, fun earlier member =>
      (ascii_of_mem_alphabet (legible.characters earlier member)).1⟩
  refine ⟨?_, ?_, ?_⟩
  · intro character position failed
    obtain ⟨before, fault, legible⟩ := fault_of_evaluate failed (.character character position)
    cases fault with
    | character parts foreign =>
        exact ⟨before, _, parts, rfl, foreign, legible, ascii legible⟩
  · intro literal position failed
    obtain ⟨before, fault, legible⟩ := fault_of_evaluate failed (.number literal position)
    cases fault with
    | number maximal invalid =>
        exact ⟨before, _, maximal, rfl, invalid, legible, ascii legible⟩
  · intro causes
    have illegible : ¬Legible text := by
      intro legible
      rcases causes with ⟨character, member, foreign⟩ | ⟨front, run, back, maximal, invalid⟩
      · exact foreign (legible.characters character member)
      · exact invalid (legible.runs front run back maximal)
    have unfinished (completed : (∃ value, outcome = .ok value) ∨
        ∃ count, outcome = .error (.operandCount count)) : False := by
      have status := Plan.status_of_completed completed
      exact illegible ((legible_iff text).mpr ((Plan.status_eq_ok_iff _ _).mp status).1)
    refine ⟨?_, ?_, evaluator.evaluate_of_illegible illegible⟩
    · intro value accepted
      exact unfinished (Or.inl ⟨value, accepted⟩)
    · intro count counted
      exact unfinished (Or.inr ⟨count, counted⟩)

/-- A foreign character of three bytes, a run with two points, and a foreign character that is not
reached. -/
theorem lexical_errors_are_located_in_three_texts :
    (Evaluator.standard.evaluate "1 +\t€2".toList = .error (.invalidCharacter '€' 4) ∧
      ∃ before after, "1 +\t€2".toList = before ++ '€' :: after ∧ 4 = width before ∧
        '€' ∉ alphabet ∧ Legible before ∧ 4 = before.length ∧
        ∀ earlier ∈ before, earlier.toNat < 128) ∧
    (Evaluator.standard.evaluate "2*1.2.3$".toList = .error (.invalidNumber "1.2.3".toList 2) ∧
      ∃ before after, MaximalRun "2*1.2.3$".toList before "1.2.3".toList after ∧ 2 = width before ∧
        ¬Decimal.IsNumeral "1.2.3".toList ∧ Legible before ∧ 2 = before.length ∧
        ∀ earlier ∈ before, earlier.toNat < 128) ∧
    ((∃ character ∈ "1)$".toList, character ∉ alphabet) ∧
      Evaluator.standard.evaluate "1)$".toList = .error .mismatchedParentheses ∧
      ∀ value, Evaluator.standard.evaluate "1)$".toList ≠ .ok value) := by
  have character : Evaluator.standard.evaluate "1 +\t€2".toList =
      .error (.invalidCharacter '€' 4) := by decide +kernel
  have number : Evaluator.standard.evaluate "2*1.2.3$".toList =
      .error (.invalidNumber "1.2.3".toList 2) := by decide +kernel
  have foreign : ∃ character ∈ "1)$".toList, character ∉ alphabet := ⟨'$', by decide, by decide⟩
  have mismatched : Evaluator.standard.evaluate "1)$".toList = .error .mismatchedParentheses := by
    decide +kernel
  obtain ⟨characters, _⟩ := lexical_errors_are_located Evaluator.standard "1 +\t€2".toList
  obtain ⟨_, numbers, _⟩ := lexical_errors_are_located Evaluator.standard "2*1.2.3$".toList
  obtain ⟨_, _, others⟩ := lexical_errors_are_located Evaluator.standard "1)$".toList
  exact ⟨⟨character, characters _ _ character⟩, ⟨number, numbers _ _ number⟩, foreign, mismatched,
    (others (Or.inl foreign)).1⟩

end Evaluator

end Calculator
