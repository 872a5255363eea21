import Calculator.Lexeme
import Calculator.Proofs.Postfix

/-!
The grammar of infix expressions, and the trees of its sentences.

A phrase of level one is a sum, of level two a product, of level three a power; level four is an
atom, which is a number or a sum in parentheses, and above it there are no phrases. A chain joins
phrases of the next level by the operators of its own level. The grammar names these operators; that
they bind as tightly as their level says is proved of them. How a chain is grouped is no part of
the grammar: the tree of a phrase depends on it.
-/

set_option autoImplicit false

namespace Calculator

namespace Operator

/-- The operators that join phrases into sums, into products and into powers. -/
def joining : Nat → List Operator
  | 1 => [add, sub]
  | 2 => [mul, div]
  | 3 => [pow]
  | _ => []

theorem mem_joining_iff {operator : Operator} {level : Nat} :
    operator ∈ joining level ↔ operator.precedence = level := by
  match level with
  | 0 | 1 | 2 | 3 => cases operator <;> decide
  | level + 4 => cases operator <;> simp [joining, precedence]

def groupsRight (operator : Operator) (power : Associativity) : Bool :=
  operator = pow && power = .right

end Operator

inductive Tree where
  | number (value : Float)
  | node (operator : Operator) (left right : Tree)
  deriving DecidableEq

namespace Tree

def value : Tree → Except CalculationError Float
  | .number value => .ok value
  | .node operator left right => do
      let leftValue ← left.value
      let rightValue ← right.value
      operator.apply leftValue rightValue

def DividesByZero : Tree → Prop
  | .number _ => False
  | .node operator left right =>
      left.DividesByZero ∨ right.DividesByZero ∨
        (operator = .div ∧ ∃ divisor, right.value = .ok divisor ∧ (divisor == 0.0) = true)

def postorder : Tree → List Instruction
  | .number value => [.push value]
  | .node operator left right => left.postorder ++ right.postorder ++ [.apply operator]

theorem run_postorder (tree : Tree) (later : List Instruction) (operands : List Float) :
    Postfix.run (tree.postorder ++ later) operands =
      tree.value.bind fun value => Postfix.run later (value :: operands) := by
  induction tree generalizing later operands with
  | number value => rfl
  | node operator left right leftRuns rightRuns =>
      simp only [postorder, List.append_assoc, leftRuns, rightRuns, value]
      cases left.value with
      | error error => rfl
      | ok leftValue =>
          cases right.value with
          | error error => rfl
          | ok rightValue =>
              change (Postfix.perform _ _).bind _ = (operator.apply leftValue rightValue).bind _
              simp only [Postfix.perform]
              cases operator.apply leftValue rightValue <;> rfl

theorem value_cases (tree : Tree) :
    (¬tree.DividesByZero ∧ ∃ result, tree.value = .ok result) ∨
      (tree.DividesByZero ∧ tree.value = .error .divisionByZero) := by
  induction tree with
  | number result => exact Or.inl ⟨not_false, result, rfl⟩
  | node operator left right leftCases rightCases =>
      simp only [value, DividesByZero]
      rcases leftCases with ⟨leftFine, leftResult, leftValue⟩ | ⟨leftZero, leftValue⟩
      · rcases rightCases with ⟨rightFine, rightResult, rightValue⟩ | ⟨rightZero, rightValue⟩
        · simp only [leftValue, rightValue, bind, Except.bind]
          rcases operator.apply_cases leftResult rightResult with
            ⟨fine, result, computed⟩ | ⟨⟨division, zero⟩, computed⟩
          · refine Or.inl ⟨?_, result, computed⟩
            rintro (zero | zero | ⟨division, divisor, same, zero⟩)
            · exact leftFine zero
            · exact rightFine zero
            · cases same
              exact fine ⟨division, zero⟩
          · exact Or.inr ⟨Or.inr (Or.inr ⟨division, rightResult, rfl, zero⟩), computed⟩
        · simp only [leftValue, rightValue, bind, Except.bind]
          exact Or.inr ⟨Or.inr (Or.inl rightZero), trivial⟩
      · simp only [leftValue, bind, Except.bind]
        exact Or.inr ⟨Or.inl leftZero, trivial⟩

end Tree

mutual

inductive Phrase : Nat → Type where
  | number (value : Float) : Phrase 4
  | group (body : Phrase 1) : Phrase 4
  | chain {level : Nat} (first : Phrase (level + 1)) (links : Links level) : Phrase level

inductive Links : Nat → Type where
  | done {level : Nat} : Links level
  | link {level : Nat} (operator : Operator) (joins : operator ∈ Operator.joining level)
      (next : Phrase (level + 1)) (links : Links level) : Links level

end

mutual

def Phrase.tokens {level : Nat} : Phrase level → List Token
  | .number value => [.number value]
  | .group body => .openParen :: (body.tokens ++ [.closeParen])
  | .chain first links => first.tokens ++ links.tokens

def Links.tokens {level : Nat} : Links level → List Token
  | .done => []
  | .link operator _ next links => .operator operator :: (next.tokens ++ links.tokens)

end

mutual

def Phrase.tree (power : Associativity) {level : Nat} : Phrase level → Tree
  | .number value => .number value
  | .group body => body.tree power
  | .chain first links => links.fold power (first.tree power)

/-- Folds a chain onto its first tree. From the left, the tree so far becomes the left side of the
next operator; from the right, everything that follows becomes the right side. -/
def Links.fold (power : Associativity) {level : Nat} (first : Tree) : Links level → Tree
  | .done => first
  | .link operator _ next links =>
      if operator.groupsRight power then
        .node operator first (links.fold power (next.tree power))
      else
        links.fold power (.node operator first (next.tree power))

end

end Calculator
