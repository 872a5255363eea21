import Calculator.CommandLine
import Calculator.Proofs.Spacing
import Calculator.Proofs.Transcript

/-!
An expression typed in and an expression handed over.

A console takes the white space out of a line before it evaluates it, and a call evaluates its
argument as it is. A text whose white space only separates is answered in the same way by both.
-/

set_option autoImplicit false

namespace Calculator

namespace Options

def flags : Associativity → List (List Char)
  | .left => []
  | .right => ["--right-assoc-pow".toList]

theorem read_flags (power : Associativity) : initial.read (flags power) = .ok ⟨none, power, 0⟩ := by
  cases power <;> rfl

theorem read_flags_expression (power : Associativity) (text : List Char) :
    initial.read (flags power ++ [['-', '-'], text]) = .ok ⟨some text, power, 0⟩ := by
  cases power <;> rfl

end Options

theorem CalculationError.message_relocate (place : Nat → Nat) (error : CalculationError) :
    (error.relocate place).message = error.message := by
  cases error <;> rfl

namespace Outcome

theorem ofCall_of_expression {arguments : List (List Char)} {text : List Char}
    {power : Associativity} {verbosity : Nat}
    (given : Options.initial.read arguments = .ok ⟨some text, power, verbosity⟩)
    (input : List UInt8) :
    ofCall arguments input = ofExpression ⟨power⟩ text := by
  simp only [ofCall, given]
  rfl

theorem ofCall_of_text {arguments : List (List Char)} {power : Associativity} {verbosity : Nat}
    (given : Options.initial.read arguments = .ok ⟨none, power, verbosity⟩) (text : List Char) :
    ofCall arguments (Utf8.encode text) =
      ⟨0, Utf8.encode (Console.transcript ⟨power⟩ text), []⟩ := by
  obtain ⟨ended, wrote⟩ := Console.run_over_text ⟨power⟩ text
  simp only [ofCall, given, ofConsole, ofRun, Options.evaluator, ended, wrote]

/-- The answer to an expression and the outcome of its evaluation are told apart by one word. -/
theorem answer_iff_outcome (evaluator : Evaluator) (text : List Char) :
    let outcome := ofExpression evaluator text
    (∀ shown, evaluator.answer text = "Result: ".toList ++ shown ↔
      outcome.code = 0 ∧ outcome.output = Utf8.encode (shown ++ ['\n'])) ∧
    ∀ told, evaluator.answer text = "Error: ".toList ++ told ↔
      outcome.code = 1 ∧ outcome.errors = Utf8.encode ("Error: ".toList ++ told ++ ['\n']) := by
  simp only [Evaluator.answer, ofExpression]
  cases evaluator.evaluate text with
  | ok value => simp [Console.lineOf, Utf8.encode_injective.eq_iff]
  | error error => simp [Console.lineOf, Utf8.encode_injective.eq_iff]

end Outcome

theorem Evaluator.answer_strip (evaluator : Evaluator) {text : List Char}
    (blank : WhiteSpace.IsBlank text) (together : WhiteSpace.KeepsNoneApart text) :
    evaluator.answer (WhiteSpace.strip text) = evaluator.answer text := by
  simp only [Evaluator.answer, evaluate_strip evaluator blank together]
  cases evaluator.evaluate text with
  | ok value => rfl
  | error error => simp only [Except.mapError, CalculationError.message_relocate]

/-- One line of text is answered in a conversation as the text is in a call with it as the
expression. Behind this, the text has one value with and without its white space, or one error,
whose place moves with the text. -/
theorem line_and_argument_agree (power : Associativity) {text : List Char} (oneLine : '\n' ∉ text)
    (blank : WhiteSpace.IsBlank text) (together : WhiteSpace.KeepsNoneApart text)
    (stays : ¬Console.AsksToLeave text) :
    let evaluator : Evaluator := ⟨power⟩
    (∃ talking calling, Options.initial.read talking = .ok ⟨none, power, 0⟩ ∧
      Options.initial.read calling = .ok ⟨some text, power, 0⟩) ∧
    (∃ answer,
      (∀ talking verbosity later,
        Options.initial.read talking = .ok ⟨none, power, verbosity⟩ →
        Outcome.ofCall talking (Utf8.encode (text ++ '\n' :: later)) =
          ⟨0, Utf8.encode (Console.banner ++ ['\n'] ++ Console.hint ++ ['\n'] ++
            Console.prompt ++ answer ++ ['\n'] ++
            Console.conversation evaluator (Console.linesOf later)), []⟩) ∧
      ∀ calling verbosity input,
        Options.initial.read calling = .ok ⟨some text, power, verbosity⟩ →
        let outcome := Outcome.ofCall calling input
        (∀ shown, answer = "Result: ".toList ++ shown ↔
          outcome.code = 0 ∧ outcome.output = Utf8.encode (shown ++ ['\n'])) ∧
        ∀ told, answer = "Error: ".toList ++ told ↔
          outcome.code = 1 ∧
            outcome.errors = Utf8.encode ("Error: ".toList ++ told ++ ['\n'])) ∧
    evaluator.evaluate (WhiteSpace.strip text) =
      (evaluator.evaluate text).mapError (CalculationError.relocate (WhiteSpace.packed text)) := by
  intro evaluator
  refine ⟨⟨_, _, Options.read_flags power, Options.read_flags_expression power text⟩, ?_,
    evaluate_strip evaluator blank together⟩
  refine ⟨evaluator.answer text, ?_, ?_⟩
  · intro talking verbosity later given
    have response : Console.response evaluator text = evaluator.answer text :=
      evaluator.answer_strip blank together
    rw [Outcome.ofCall_of_text given, Console.transcript, Console.linesOf_terminated later oneLine,
      Console.conversation_cons, if_neg stays, response]
    simp only [List.append_assoc, evaluator]
  · intro calling verbosity input given
    rw [Outcome.ofCall_of_expression given]
    exact Outcome.answer_iff_outcome evaluator text

/-- A difference and a text that cannot be read, with blanks of several kinds. -/
theorem line_and_argument_agree_on_two_texts :
    let difference := "8 -\t(3 * 2)".toList
    let unreadable := "8 /\t( 2 - x)".toList
    let flag := "--right-assoc-pow".toList
    let greeted := Console.banner ++ ['\n'] ++ Console.hint ++ ['\n']
    Outcome.ofCall [flag, difference] [] = ⟨0, Utf8.encode "2.0\n".toList, []⟩ ∧
    Outcome.ofCall [flag] (Utf8.encode (difference ++ ['\n'])) =
      ⟨0, Utf8.encode (greeted ++ Console.prompt ++ "Result: 2.0\n".toList ++
        Console.prompt ++ ['\n']), []⟩ ∧
    Outcome.ofCall [unreadable] [] =
      ⟨1, [], Utf8.encode "Error: Invalid character in expression: x\n".toList⟩ ∧
    Outcome.ofCall [] (Utf8.encode (unreadable ++ ['\n'])) =
      ⟨0, Utf8.encode (greeted ++ Console.prompt ++
        "Error: Invalid character in expression: x\n".toList ++ Console.prompt ++ ['\n']), []⟩ ∧
    Evaluator.standard.evaluate unreadable = .error (.invalidCharacter 'x' 10) ∧
    Evaluator.standard.evaluate (WhiteSpace.strip unreadable) =
      .error (.invalidCharacter 'x' 5) := by
  intro difference unreadable flag greeted
  have computed : Outcome.ofCall [flag, difference] [] =
      ⟨0, Utf8.encode "2.0\n".toList, []⟩ := by decide +kernel
  have failed : Outcome.ofCall [unreadable] [] =
      ⟨1, [], Utf8.encode "Error: Invalid character in expression: x\n".toList⟩ := by
    decide +kernel
  have place : Evaluator.standard.evaluate unreadable = .error (.invalidCharacter 'x' 10) := by
    decide +kernel
  have talkedOfDifference : Outcome.ofCall [flag] (Utf8.encode (difference ++ ['\n'])) =
      ⟨0, Utf8.encode (greeted ++ Console.prompt ++ "Result: 2.0\n".toList ++
        Console.prompt ++ ['\n']), []⟩ := by
    have oneLine : '\n' ∉ difference := by decide
    obtain ⟨-, ⟨answer, talk, call⟩, -⟩ :=
      line_and_argument_agree .right oneLine (by decide) (by decide) (by decide)
    have same : answer = "Result: ".toList ++ "2.0".toList :=
      ((call [flag, difference] 0 [] rfl).1 _).mpr (by rw [computed]; exact ⟨rfl, rfl⟩)
    subst same
    exact talk [flag] 0 [] rfl
  have oneLine : '\n' ∉ unreadable := by decide
  obtain ⟨-, ⟨answer, talk, call⟩, moved⟩ :=
    line_and_argument_agree .left oneLine (by decide) (by decide) (by decide)
  have same : answer = "Error: ".toList ++ "Invalid character in expression: x".toList :=
    ((call [unreadable] 0 [] rfl).2 _).mpr (by rw [failed]; exact ⟨rfl, rfl⟩)
  subst same
  have fifth : WhiteSpace.packed unreadable 10 = 5 := by decide
  change Evaluator.standard.evaluate _ =
    (Evaluator.standard.evaluate unreadable).mapError _ at moved
  rw [place] at moved
  simp only [Except.mapError, CalculationError.relocate, fifth] at moved
  exact ⟨computed, talkedOfDifference, failed, talk [] 0 [] rfl, place, moved⟩

end Calculator
