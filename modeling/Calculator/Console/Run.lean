import Calculator.Console.Reply
import Calculator.Console.Sink

/-!
Runs of a console over the lines of its input.

A run greets, then prompts and answers line by line. It ends at a line that asks to leave, at the
end of the input, at a line that is not text, or when the sink is full. A later run goes on behind
the last line that was read, with the same sink. A line is read only behind a whole prompt.
-/

set_option autoImplicit false

namespace Calculator

inductive StreamError where
  | unreadableInput
  | fullSink
  deriving DecidableEq, Repr

def StreamError.message : StreamError → List Char
  | unreadableInput => "stream did not contain valid UTF-8".toList
  | fullSink => "failed to write whole buffer".toList

structure Console where
  evaluator : Evaluator
  unread : List (List UInt8)
  sink : Sink

namespace Console

def ofInput (evaluator : Evaluator) (input : List UInt8) (sink : Sink) : Console :=
  ⟨evaluator, lines input, sink⟩

/-- What is written about a line behind the prompt, and the result if the line ends the run. -/
structure Turn where
  said : List UInt8
  result : Option (Except StreamError Unit)

def turn (evaluator : Evaluator) (line : List UInt8) : Turn :=
  match reply evaluator line with
  | .answer text => ⟨lineOf text, none⟩
  | .farewell => ⟨lineOf farewell, some (.ok ())⟩
  | .unreadable => ⟨[], some (.error .unreadableInput)⟩

structure Ending where
  result : Except StreamError Unit
  console : Console

def close (evaluator : Evaluator) (unread : List (List UInt8)) : Except Sink Sink → Ending
  | .ok sink => ⟨.ok (), ⟨evaluator, unread, sink⟩⟩
  | .error sink => ⟨.error .fullSink, ⟨evaluator, unread, sink⟩⟩

def converse (evaluator : Evaluator) (sink : Sink) : List (List UInt8) → Ending
  | [] =>
      match sink.write (Utf8.encode prompt) with
      | .error full => close evaluator [] (.error full)
      | .ok prompted => close evaluator [] (prompted.write (lineOf []))
  | line :: unread =>
      match sink.write (Utf8.encode prompt) with
      | .error full => close evaluator (line :: unread) (.error full)
      | .ok prompted =>
          match prompted.write (turn evaluator line).said with
          | .error full => close evaluator unread (.error full)
          | .ok answered =>
              match (turn evaluator line).result with
              | none => converse evaluator answered unread
              | some result => ⟨result, evaluator, unread, answered⟩

def run (console : Console) : Ending :=
  match console.sink.write greeting with
  | .error full => close console.evaluator console.unread (.error full)
  | .ok greeted => converse console.evaluator greeted console.unread

/-- The results of so many runs one after the other, and the console behind the last. -/
def runs : Nat → Console → List (Except StreamError Unit) × Console
  | 0, console => ([], console)
  | count + 1, console =>
      let ending := console.run
      let (results, last) := runs count ending.console
      (ending.result :: results, last)

end Console

end Calculator
