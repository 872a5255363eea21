/-!
The binary operators, how tightly they bind, and which of two goes first.
-/

set_option autoImplicit false

namespace Calculator

inductive Operator where
  | add
  | sub
  | mul
  | div
  | pow
  deriving DecidableEq, Repr

/-- How a chain of powers is grouped. The other operators always group from the left. -/
inductive Associativity where
  | left
  | right
  deriving DecidableEq, Repr

namespace Operator

def all : List Operator := [add, sub, mul, div, pow]

def precedence : Operator → Nat
  | add => 1
  | sub => 1
  | mul => 2
  | div => 2
  | pow => 3

def symbol : Operator → Char
  | add => '+'
  | sub => '-'
  | mul => '*'
  | div => '/'
  | pow => '^'

def ofSymbol? (character : Char) : Option Operator := all.find? (·.symbol = character)

/-- Whether an operator that waits is applied before a later one is put on top of it. One that
binds as tightly goes first, except for a power before a power that groups from the right. -/
def appliesBefore (waiting incoming : Operator) (power : Associativity) : Bool :=
  !(waiting = pow && incoming = pow && power = .right)
    && decide (incoming.precedence ≤ waiting.precedence)

theorem precedence_bounds (operator : Operator) :
    1 ≤ operator.precedence ∧ operator.precedence ≤ 3 := by
  cases operator <;> decide

theorem appliesBefore_eq_false_iff {waiting incoming : Operator} {power : Associativity} :
    waiting.appliesBefore incoming power = false ↔
      waiting.precedence < incoming.precedence ∨
        (waiting = pow ∧ incoming = pow ∧ power = .right) := by
  cases waiting <;> cases incoming <;> cases power <;> decide

/-- Only an incoming power asks how powers group. -/
theorem appliesBefore_congr {incoming : Operator} (different : incoming ≠ pow)
    (power other : Associativity) :
    (fun waiting : Operator => waiting.appliesBefore incoming power) =
      fun waiting => waiting.appliesBefore incoming other := by
  funext waiting
  simp [appliesBefore, different]

theorem symbol_of_ofSymbol? {character : Char} {operator : Operator}
    (found : ofSymbol? character = some operator) : operator.symbol = character := by
  unfold ofSymbol? at found
  have hit := List.find?_some found
  exact of_decide_eq_true hit

end Operator

end Calculator
