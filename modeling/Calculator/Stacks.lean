import Calculator.Operator.Arithmetic

/-!
The two stacks of an evaluation: the operands, and what is pending on them.

Both have their top first. Every operation that applies operators does it by `release`, which
works down the pending stack while the operators are ready and stops at an open parenthesis. An
operation that fails leaves the stacks as far as it got.
-/

set_option autoImplicit false

namespace Calculator

/-- What waits for a right operand, or for its closing partner. -/
inductive Pending where
  | operator (operator : Operator)
  | openParen
  deriving DecidableEq, Repr

structure Stacks where
  operands : List Float
  pending : List Pending
  deriving DecidableEq

namespace Stacks

def empty : Stacks := ⟨[], []⟩

structure Failure where
  error : CalculationError
  left : Stacks
  deriving DecidableEq

/-- Applies an operator to the top two operands. It takes what it can get before it fails, and
with the error comes what it left. -/
def reduce (operator : Operator) :
    List Float → Except (CalculationError × List Float) (List Float)
  | right :: left :: operands =>
      match operator.apply left right with
      | .ok value => .ok (value :: operands)
      | .error error => .error (error, operands)
  | _ => .error (.missingOperand operator, [])

/-- Applies pending operators from the top down, as long as they are ready. -/
def release (ready : Operator → Bool) (operands : List Float) :
    List Pending → Except Failure Stacks
  | .operator operator :: pending =>
      if ready operator then
        match reduce operator operands with
        | .ok reduced => release ready reduced pending
        | .error (error, left) => .error ⟨error, ⟨left, pending⟩⟩
      else .ok ⟨operands, .operator operator :: pending⟩
  | pending => .ok ⟨operands, pending⟩

def pushOperand (value : Float) (state : Stacks) : Stacks :=
  ⟨value :: state.operands, state.pending⟩

def openGroup (state : Stacks) : Stacks := ⟨state.operands, .openParen :: state.pending⟩

def pushOperator (power : Associativity) (incoming : Operator) (state : Stacks) :
    Except Failure Stacks :=
  match release (fun waiting => waiting.appliesBefore incoming power) state.operands
      state.pending with
  | .ok released => .ok ⟨released.operands, .operator incoming :: released.pending⟩
  | .error failure => .error failure

def closeGroup (state : Stacks) : Except Failure Stacks :=
  match release (fun _ => true) state.operands state.pending with
  | .ok ⟨operands, .openParen :: pending⟩ => .ok ⟨operands, pending⟩
  | .ok released => .error ⟨.mismatchedParentheses, released⟩
  | .error failure => .error failure

/-- Applies every operator. No group may be open any more, and one operand be left. -/
def finish (state : Stacks) : Except CalculationError Float :=
  match release (fun _ => true) state.operands state.pending with
  | .ok ⟨[value], []⟩ => .ok value
  | .ok ⟨operands, []⟩ => .error (.operandCount operands.length)
  | .ok _ => .error .mismatchedParentheses
  | .error failure => .error failure.error

end Stacks

end Calculator
