import Calculator.Binary64.Rounding

/-!
Decimal numbers: a whole number of digits and a power of ten.

They stand between the values and their texts. A literal is read into a decimal, which is
rounded once; a result is turned into a decimal, which is laid out. A number has many
decimals (a trailing zero can move into the exponent), so equality of decimals is not
equality of numbers: that is equality of `toRat`.
-/

set_option autoImplicit false

namespace Calculator

/-- The number `digits * 10 ^ exponent`. -/
structure Decimal where
  digits : Nat
  exponent : Int
  deriving DecidableEq, Repr

namespace Decimal

attribute [local instance (high)] instPowNat

def numerator (decimal : Decimal) : Nat := decimal.digits * 10 ^ decimal.exponent.toNat

def denominator (decimal : Decimal) : Nat := 10 ^ (-decimal.exponent).toNat

def toRat (decimal : Decimal) : Rat := (decimal.numerator : Rat) / (decimal.denominator : Rat)

def rank (decimal : Decimal) : Nat :=
  Binary64.nearestRank decimal.numerator decimal.denominator

def toFloat (decimal : Decimal) : Float := Binary64.ofRank false decimal.rank

theorem denominator_pos (decimal : Decimal) : 0 < decimal.denominator :=
  Nat.pow_pos (by decide)

/-- Rounding sees the number and not the way it is written. -/
theorem rank_congr {left right : Decimal} (same : left.toRat = right.toRat) :
    left.rank = right.rank := by
  apply Binary64.nearestRank_congr left.denominator_pos right.denominator_pos
  have nonzero (decimal : Decimal) : (decimal.denominator : Rat) ≠ 0 := by
    exact_mod_cast Nat.ne_of_gt decimal.denominator_pos
  simp only [toRat, Rat.div_def] at same
  have scaled : (left.numerator : Rat) * right.denominator
      = right.numerator * left.denominator := by
    have := congrArg (· * ((left.denominator : Rat) * right.denominator)) same
    grind [Rat.mul_inv_cancel, Rat.inv_mul_cancel]
  exact_mod_cast scaled

end Decimal

end Calculator
