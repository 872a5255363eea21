import Calculator.Decimal

/-!
Number literals: digits with at most one point among them, before them or behind them.
-/

set_option autoImplicit false

namespace Calculator.Decimal

def isLiteralCharacter (character : Char) : Bool := character.isDigit || character == '.'

/-- The decimal of whole digits and of digits behind the point, if there is a digit at all. -/
def ofDigits? (whole fraction : List Char) : Option Decimal :=
  if whole ++ fraction = [] then none
  else some ⟨Nat.ofDigitChars 10 (whole ++ fraction) 0, -fraction.length⟩

def ofLiteral? (literal : List Char) : Option Decimal :=
  let whole := literal.takeWhile Char.isDigit
  match literal.dropWhile Char.isDigit with
  | [] => ofDigits? whole []
  | point :: fraction =>
      if point = '.' ∧ fraction.all Char.isDigit then ofDigits? whole fraction else none

end Calculator.Decimal
