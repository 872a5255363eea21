import Calculator.Binary64.Text
import Calculator.Evaluator
import Calculator.Text.Utf8
import Calculator.Text.WhiteSpace

/-!
What a console says, and how it replies to one line.

White space is removed from a line before it is looked at, between digits too. A reply depends on
nothing but the line.
-/

set_option autoImplicit false

namespace Calculator

namespace Evaluator

/-- The text of a value or the message of an error, each with its label. -/
def answer (evaluator : Evaluator) (expression : List Char) : List Char :=
  match evaluator.evaluate expression with
  | .ok value => "Result: ".toList ++ Binary64.text value
  | .error error => "Error: ".toList ++ error.message

end Evaluator

namespace Console

def banner : List Char := "Console Calculator (supports +, -, *, /, ^, and parentheses)".toList

def hint : List Char := "Type 'exit' to quit.".toList

def prompt : List Char := "Enter an expression: ".toList

def farewell : List Char := "Exiting calculator...".toList

def lineOf (text : List Char) : List UInt8 := Utf8.encode (text ++ ['\n'])

def greeting : List UInt8 := lineOf banner ++ lineOf hint

/-- Cuts bytes behind every line feed. The last line may lack its own. -/
def lines (bytes : List UInt8) : List (List UInt8) := bytes.splitBy fun byte _ => byte != 10

inductive Reply where
  | answer (text : List Char)
  /-- The user wants to leave. -/
  | farewell
  /-- The line is not text. -/
  | unreadable
  deriving DecidableEq, Repr

/-- Whether an expression is the word that ends a run, in letters of either case. -/
def isExit (expression : List Char) : Bool := expression.map Char.toLower == "exit".toList

def reply (evaluator : Evaluator) (line : List UInt8) : Reply :=
  match Utf8.decode? line with
  | none => .unreadable
  | some text =>
      let expression := WhiteSpace.strip text
      if isExit expression then .farewell else .answer (evaluator.answer expression)

end Console

end Calculator
