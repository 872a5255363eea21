import Calculator.Proofs.Nesting
import Calculator.Proofs.SafeCut

/-!
The first error is final.

A text that is cut in two is fed in two parts, and the later part meets the stacks that the earlier
one has left. So what follows an error is never looked at, and where there is none, the later part
is fed as it would be alone, only that its places are farther on. The stacks know no places:
whatever they complain about, they say the same wherever the text stands.
-/

set_option autoImplicit false

namespace Calculator

theorem CalculationError.shift_of_not_ofText {error : CalculationError} (other : ¬error.OfText)
    (offset : Nat) : error.shift offset = error := by
  cases error with
  | invalidCharacter character position => exact (other (.character character position)).elim
  | invalidNumber literal position => exact (other (.number literal position)).elim
  | _ => rfl

def Stacks.Failure.shift (offset : Nat) (failure : Failure) : Failure :=
  ⟨failure.error.shift offset, failure.left⟩

namespace Evaluator

open Lexeme

theorem error_of_push {evaluator : Evaluator} {state : Stacks} {token : Token}
    {failure : Stacks.Failure} (failed : evaluator.push state token = .error failure) :
    ¬failure.error.OfText := by
  have planned := Plan.push_is_planned evaluator state token
  rw [failed] at planned
  rcases Plan.on_eq_error planned.symm with ran | status
  · exact (Postfix.error_of_run ran).not_ofText
  · rw [Plan.fault_of_token status]
    intro lexical
    cases lexical

theorem feed_shift (evaluator : Evaluator) (state : Stacks) (offset : Nat) (lexeme : Lexeme) :
    evaluator.feed state (lexeme.shift offset) =
      (evaluator.feed state lexeme).mapError (Stacks.Failure.shift offset) := by
  simp only [feed, token_shift]
  cases lexeme.token with
  | error error => rfl
  | ok token =>
      simp only [Except.mapError]
      cases pushed : evaluator.push state token with
      | ok reached => rfl
      | error failure =>
          have same := CalculationError.shift_of_not_ofText (error_of_push pushed) offset
          simp only [Stacks.Failure.shift, same]

theorem feedAll_shift (evaluator : Evaluator) (state : Stacks) (offset : Nat)
    (lexemes : List Lexeme) :
    evaluator.feedAll state (lexemes.map (Lexeme.shift offset)) =
      (evaluator.feedAll state lexemes).mapError (Stacks.Failure.shift offset) := by
  induction lexemes generalizing state with
  | nil => rfl
  | cons lexeme lexemes ih =>
      simp only [feedAll, List.map_cons, List.foldlM_cons] at ih ⊢
      rw [feed_shift]
      cases evaluator.feed state lexeme with
      | error failure => rfl
      | ok next => exact ih next

/-- A text in two parts on any stacks: the later part is fed to what the earlier one leaves. -/
theorem feedAll_scan_append (evaluator : Evaluator) (state : Stacks) {first second : List Char}
    (cut : SafeCut first second) :
    evaluator.feedAll state (scan (first ++ second)) =
      (evaluator.feedAll state (scan first)).bind fun reached =>
        (evaluator.feedAll reached (scan second)).mapError
          (Stacks.Failure.shift (width first)) := by
  rw [scan_append first second cut, feedAll_append]
  simp only [feedAll_shift]

/-- A failure in the earlier part of a text is the outcome of that part and of the whole. Without
one, the later part decides on the stacks that it finds, with its places behind the earlier part. -/
theorem first_error_is_final (evaluator : Evaluator) (first second : List Char)
    (cut : SafeCut first second) :
    (∀ failure, evaluator.feedAll Stacks.empty (scan first) = .error failure →
      evaluator.evaluate first = .error failure.error ∧
        evaluator.evaluate (first ++ second) = .error failure.error) ∧
    (∀ state, evaluator.feedAll Stacks.empty (scan first) = .ok state →
      evaluator.evaluate (first ++ second) =
        match evaluator.feedAll state (scan second) with
        | .ok reached => reached.finish
        | .error failure => .error (failure.error.shift (width first))) := by
  have whole := evaluator.feedAll_scan_append Stacks.empty cut
  constructor
  · intro failure failed
    rw [failed] at whole
    constructor
    · rw [evaluate, failed]
    · rw [evaluate, whole]
      rfl
  · intro state fed
    rw [fed] at whole
    rw [evaluate, whole]
    simp only [Except.bind]
    cases evaluator.feedAll state (scan second) with
    | ok reached => rfl
    | error failure => rfl

/-- A division by zero in front of a foreign character, and an open group that the later part closes
before it ends in such a character. -/
theorem first_error_is_final_in_two_texts :
    (SafeCut "(1/0)".toList "€".toList ∧
      Evaluator.standard.evaluate "(1/0)".toList = .error .divisionByZero ∧
      Evaluator.standard.evaluate ("(1/0)".toList ++ "€".toList) = .error .divisionByZero) ∧
    (SafeCut "2*(3".toList " )^€".toList ∧
      Evaluator.standard.feedAll Stacks.empty (scan "2*(3".toList) =
        .ok ⟨[3.0, 2.0], [.openParen, .operator .mul]⟩ ∧
      Evaluator.standard.evaluate ("2*(3".toList ++ " )^€".toList) =
        .error ((CalculationError.invalidCharacter '€' 3).shift 4)) := by
  have early : SafeCut "(1/0)".toList "€".toList := by
    intro last final next _
    cases final
    exact Bool.false_and _
  have late : SafeCut "2*(3".toList " )^€".toList := by
    intro last _ next start
    cases start
    exact Bool.and_false _
  have failed : Evaluator.standard.feedAll Stacks.empty (scan "(1/0)".toList) =
      .error ⟨.divisionByZero, ⟨[], [.openParen]⟩⟩ := by decide +kernel
  have fed : Evaluator.standard.feedAll Stacks.empty (scan "2*(3".toList) =
      .ok ⟨[3.0, 2.0], [.openParen, .operator .mul]⟩ := by decide +kernel
  have stopped : Evaluator.standard.feedAll ⟨[3.0, 2.0], [.openParen, .operator .mul]⟩
      (scan " )^€".toList) =
        .error ⟨.invalidCharacter '€' 3, ⟨[3.0, 2.0], [.operator .pow, .operator .mul]⟩⟩ := by
    decide +kernel
  obtain ⟨final, _⟩ := first_error_is_final Evaluator.standard _ _ early
  obtain ⟨_, goesOn⟩ := first_error_is_final Evaluator.standard _ _ late
  obtain ⟨alone, whole⟩ := final _ failed
  have reported := goesOn _ fed
  rw [stopped] at reported
  exact ⟨⟨early, alone, whole⟩, late, fed, reported⟩

end Evaluator

end Calculator
