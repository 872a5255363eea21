import Calculator.Operator

/-!
Why a text has no value, and how the user is told.

Positions are byte offsets in the encoded text.
-/

set_option autoImplicit false

namespace Calculator

inductive CalculationError where
  | invalidCharacter (character : Char) (position : Nat)
  | invalidNumber (literal : List Char) (position : Nat)
  | mismatchedParentheses
  /-- The operator was applied with fewer than two operands at hand. -/
  | missingOperand (operator : Operator)
  /-- This many operands were left at the end, and not one. -/
  | operandCount (count : Nat)
  | divisionByZero
  deriving DecidableEq, Repr

namespace CalculationError

def message : CalculationError → List Char
  | invalidCharacter character _ => "Invalid character in expression: ".toList ++ [character]
  | invalidNumber literal _ => "Invalid number: ".toList ++ literal
  | mismatchedParentheses => "Mismatched parentheses".toList
  | missingOperand _ => "Invalid expression".toList
  | operandCount _ => "Invalid expression format".toList
  | divisionByZero => "Cannot divide by zero".toList

end CalculationError

end Calculator
