import Calculator.Binary64.Rank

/-!
Rounding a quotient to the nearest binary64 value.

The quotient is measured in quanta. From its size follows the step between the values around
it, and the nearest of them, the even one at an equal distance, has a rank that is linear in
the step count. A quotient that is itself a value is found again, and only the value of
the quotient matters, not how it is written.
-/

set_option autoImplicit false

namespace Calculator.Binary64

attribute [local instance (high)] instPowNat

/-- The nearest whole number to a quotient, the even one of two at the same distance. -/
def roundDiv (num den : Nat) : Nat :=
  let whole := num / den
  let twice := 2 * (num % den)
  if den < twice ∨ (twice = den ∧ whole % 2 = 1) then whole + 1 else whole

/-- The rank of the value nearest to the quotient of two natural numbers. A quotient that rounds
up to the next block gives the first rank of that block by itself, and past the last finite value
comes infinity. -/
def nearestRank (num den : Nat) : Nat :=
  let scaled := num * quantaPerUnit
  let coarse := (scaled / den).log2 - fractionBits
  min (coarse * blockSize + roundDiv scaled (den * 2 ^ coarse)) infinityRank

theorem roundDiv_mul_right (num den factor : Nat) (positive : 0 < factor) :
    roundDiv (num * factor) (den * factor) = roundDiv num den := by
  have rest : num * factor % (den * factor) = num % den * factor := Nat.mul_mod_mul_right ..
  have whole : num * factor / (den * factor) = num / den := Nat.mul_div_mul_right _ _ positive
  have twice : 2 * (num % den * factor) = 2 * (num % den) * factor := (Nat.mul_assoc ..).symm
  simp only [roundDiv, rest, whole, twice, Nat.mul_lt_mul_right positive,
    Nat.mul_left_inj (Nat.ne_of_gt positive)]

theorem nearestRank_mul_right (num den factor : Nat) (positive : 0 < factor) :
    nearestRank (num * factor) (den * factor) = nearestRank num den := by
  have left : num * factor * quantaPerUnit = num * quantaPerUnit * factor := Nat.mul_right_comm ..
  have right (power : Nat) : den * factor * power = den * power * factor := Nat.mul_right_comm ..
  simp only [nearestRank, left, right, Nat.mul_div_mul_right _ _ positive,
    roundDiv_mul_right _ _ _ positive]

theorem nearestRank_congr {num den num' den' : Nat} (positive : 0 < den) (positive' : 0 < den')
    (same : num * den' = num' * den) : nearestRank num den = nearestRank num' den' := by
  rw [← nearestRank_mul_right num den den' positive', same, Nat.mul_comm den den',
    nearestRank_mul_right num' den' den positive]

theorem roundDiv_mul_self (whole den : Nat) (positive : 0 < den) :
    roundDiv (whole * den) den = whole := by
  simp [roundDiv, Nat.mul_div_cancel _ positive]
  omega

theorem log2_quanta_of_lt {rank : Nat} (small : rank < blockSize) :
    (quanta rank).log2 - fractionBits = 0 := by
  rw [quanta, if_pos small]
  by_cases none : rank = 0
  · simp [none]
  · have := (Nat.log2_lt none).mpr (blockSize_eq ▸ small)
    omega

theorem log2_quanta_of_le {rank : Nat} (large : blockSize ≤ rank) :
    (quanta rank).log2 = fractionBits + (rank / blockSize - 1) := by
  have fraction := Nat.mod_lt rank (show 0 < blockSize by decide)
  have power := Nat.two_pow_pos (rank / blockSize - 1)
  rw [quanta, if_neg (Nat.not_lt.mpr large)]
  rw [Nat.log2_eq_iff (Nat.mul_ne_zero (by omega) (Nat.ne_of_gt power))]
  constructor
  · rw [Nat.pow_add, ← blockSize_eq]
    exact Nat.mul_le_mul_right _ (by omega)
  · rw [Nat.add_right_comm, Nat.pow_add, Nat.pow_add, ← blockSize_eq]
    exact Nat.mul_lt_mul_of_pos_right (by omega) power

theorem nearestRank_quanta {rank : Nat} (finite : rank < infinityRank) :
    nearestRank (quanta rank) quantaPerUnit = rank := by
  simp only [nearestRank, Nat.mul_div_cancel _ quantaPerUnit_pos]
  rw [Nat.mul_comm quantaPerUnit, roundDiv_mul_right _ _ _ quantaPerUnit_pos]
  by_cases small : rank < blockSize
  · have whole := roundDiv_mul_self rank 1 Nat.one_pos
    rw [log2_quanta_of_lt small, quanta, if_pos small]
    simp only [Nat.mul_one, Nat.pow_zero, Nat.zero_mul, Nat.zero_add] at whole ⊢
    rw [whole]
    exact Nat.min_eq_left (Nat.le_of_lt finite)
  · rw [log2_quanta_of_le (Nat.not_lt.mp small), Nat.add_sub_cancel_left, quanta, if_neg small,
      roundDiv_mul_self _ _ (Nat.two_pow_pos _)]
    unfold infinityRank blockSize at *
    omega

end Calculator.Binary64
