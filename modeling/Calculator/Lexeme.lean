import Calculator.CalculationError
import Calculator.Decimal.Literal
import Calculator.Text.Utf8

/-!
The pieces of an expression.

A text is cut between two characters unless both belong to a literal, so a literal is a maximal
run and every other piece is one character. Each piece knows the byte at which it starts. Blanks
are dropped; what is left is a token or an error.
-/

set_option autoImplicit false

namespace Calculator

inductive Token where
  | number (value : Float)
  | operator (operator : Operator)
  | openParen
  | closeParen
  deriving DecidableEq

structure Lexeme where
  start : Nat
  text : List Char
  deriving DecidableEq, Repr

namespace Lexeme

/-- The characters that separate tokens and mean nothing. -/
def isBlank (character : Char) : Bool := [' ', '\t', '\r', '\n', '\x0c'].contains character

/-- The bytes that a text takes when it is encoded. -/
def width : List Char → Nat
  | [] => 0
  | character :: rest => character.utf8Size + width rest

theorem length_encode (text : List Char) : (Utf8.encode text).length = width text := by
  induction text with
  | nil => rfl
  | cons character rest ih =>
      rw [Utf8.encode, List.flatMap_cons, List.length_append, String.length_utf8EncodeChar, width,
        ← ih, Utf8.encode]

def pieces (text : List Char) : List (List Char) :=
  text.splitBy fun left right =>
    Decimal.isLiteralCharacter left && Decimal.isLiteralCharacter right

def located (start : Nat) : List (List Char) → List Lexeme
  | [] => []
  | piece :: rest => ⟨start, piece⟩ :: located (start + width piece) rest

def scan (text : List Char) : List Lexeme :=
  (located 0 (pieces text)).filter fun lexeme => !lexeme.text.all isBlank

def stop (lexeme : Lexeme) : Nat := lexeme.start + width lexeme.text

def symbolToken? (character : Char) : Option Token :=
  if character = '(' then some .openParen
  else if character = ')' then some .closeParen
  else (Operator.ofSymbol? character).map .operator

/-- What a lexeme means: a literal where all its characters belong to one, else a symbol. -/
def token (lexeme : Lexeme) : Except CalculationError Token :=
  match lexeme.text.find? fun character => !Decimal.isLiteralCharacter character with
  | none =>
      match Decimal.ofLiteral? lexeme.text with
      | some decimal => .ok (.number decimal.toFloat)
      | none => .error (.invalidNumber lexeme.text lexeme.start)
  | some character =>
      match symbolToken? character with
      | some token => .ok token
      | none => .error (.invalidCharacter character lexeme.start)

end Lexeme

end Calculator
