import Calculator.CommandLine

/-!
The program itself: it hands the arguments on, and holds the conversation with a terminal line by
line. A console takes the same turns with the lines of its whole input.
-/

set_option autoImplicit false

open Calculator

/-- The next line with its line feed, if it has one; nothing at the end of the input. -/
partial def readLine (input : IO.FS.Stream) (line : ByteArray) : IO ByteArray := do
  let byte ← input.read 1
  if byte.isEmpty then return line
  if byte.data.toList = [10] then return line ++ byte
  readLine input (line ++ byte)

def say (output : IO.FS.Stream) (bytes : List UInt8) : IO Unit := do
  output.write bytes.toByteArray
  output.flush

def leave (outcome : Outcome) : IO UInt32 := do
  say (← IO.getStdout) outcome.output
  say (← IO.getStderr) outcome.errors
  return UInt32.ofNat outcome.code

partial def talk (evaluator : Evaluator) : IO UInt32 := do
  let output ← IO.getStdout
  say output (Utf8.encode Console.prompt)
  let line ← readLine (← IO.getStdin) ByteArray.empty
  if line.isEmpty then leave (Outcome.ofRun (Console.lineOf []) (.ok ()))
  else
    let turn := Console.turn evaluator line.data.toList
    match turn.result with
    | some result => leave (Outcome.ofRun turn.said result)
    | none =>
        say output turn.said
        talk evaluator

def main (arguments : List String) : IO UInt32 := do
  let arguments := arguments.map String.toList
  match Options.initial.read arguments with
  | .ok ⟨none, power, _⟩ =>
      say (← IO.getStdout) Console.greeting
      talk ⟨power⟩
  | _ => leave (Outcome.ofCall arguments [])
