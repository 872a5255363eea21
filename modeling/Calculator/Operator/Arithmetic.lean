import Calculator.CalculationError

/-!
What an operator computes from two values.

Everything follows the rules of binary64, in which overflow and undefined results are values,
except that a divisor equal to zero, of either sign, is an error. A power is what the mathematical
library of the platform makes of it. How that rounds is left open, so no proof looks inside, and
whatever is proved here holds for any function of two values in its place.
-/

set_option autoImplicit false

namespace Calculator.Operator

def apply (operator : Operator) (left right : Float) : Except CalculationError Float :=
  match operator with
  | add => .ok (left + right)
  | sub => .ok (left - right)
  | mul => .ok (left * right)
  | div => if right == 0.0 then .error .divisionByZero else .ok (left / right)
  | pow => .ok (left ^ right)

theorem error_of_apply_eq_error {operator : Operator} {left right : Float}
    {error : CalculationError} (failed : operator.apply left right = .error error) :
    error = .divisionByZero := by
  cases operator <;> simp only [apply] at failed <;> try contradiction
  split at failed
  · exact (Except.error.inj failed).symm
  · contradiction

theorem apply_eq_error_iff {operator : Operator} {left right : Float}
    {error : CalculationError} :
    operator.apply left right = .error error ↔
      operator = div ∧ (right == 0.0) = true ∧ error = .divisionByZero := by
  constructor
  · intro failed
    have zero := error_of_apply_eq_error failed
    cases operator <;> simp_all [apply]
  · rintro ⟨rfl, zero, rfl⟩
    simp only [apply, zero, if_true]

theorem apply_cases (operator : Operator) (left right : Float) :
    (¬(operator = div ∧ (right == 0.0) = true) ∧
        ∃ result, operator.apply left right = .ok result) ∨
      ((operator = div ∧ (right == 0.0) = true) ∧
        operator.apply left right = .error .divisionByZero) := by
  by_cases zero : operator = div ∧ (right == 0.0) = true
  · exact Or.inr ⟨zero, apply_eq_error_iff.mpr ⟨zero.1, zero.2, rfl⟩⟩
  · cases computed : operator.apply left right with
    | ok result => exact Or.inl ⟨zero, result, rfl⟩
    | error error =>
        obtain ⟨division, divisor, _⟩ := apply_eq_error_iff.mp computed
        exact (zero ⟨division, divisor⟩).elim

end Calculator.Operator
