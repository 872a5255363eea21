import Calculator.Lexeme
import Calculator.Stacks

/-!
The value of an expression, in one pass over its lexemes.

A number goes onto the operands; an operator first lets those go that bind at least as tightly; a
closing parenthesis takes its group back to one operand. The first lexeme that cannot be read or
fed ends the pass. There are no signs: a minus needs a left operand.
-/

set_option autoImplicit false

namespace Calculator

/-- The one thing to choose is how chains of powers are grouped. -/
structure Evaluator where
  power : Associativity
  deriving DecidableEq, Repr

namespace Evaluator

/-- Powers group from the left unless asked otherwise. -/
def standard : Evaluator := ⟨.left⟩

def push (evaluator : Evaluator) (state : Stacks) : Token → Except Stacks.Failure Stacks
  | .number value => .ok (state.pushOperand value)
  | .operator operator => state.pushOperator evaluator.power operator
  | .openParen => .ok state.openGroup
  | .closeParen => state.closeGroup

def feed (evaluator : Evaluator) (state : Stacks) (lexeme : Lexeme) :
    Except Stacks.Failure Stacks :=
  match lexeme.token with
  | .ok token => evaluator.push state token
  | .error error => .error ⟨error, state⟩

def feedAll (evaluator : Evaluator) (state : Stacks) (lexemes : List Lexeme) :
    Except Stacks.Failure Stacks :=
  lexemes.foldlM evaluator.feed state

def evaluate (evaluator : Evaluator) (text : List Char) : Except CalculationError Float :=
  match evaluator.feedAll Stacks.empty (Lexeme.scan text) with
  | .ok state => state.finish
  | .error failure => .error failure.error

end Evaluator

end Calculator
