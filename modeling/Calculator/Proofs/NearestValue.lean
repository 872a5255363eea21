import Calculator.Decimal
import Mathlib.Algebra.Order.Field.Rat
import Mathlib.Algebra.Order.AbsoluteValue.Basic
import Mathlib.Order.Monotone.Basic
import Mathlib.Order.Nat
import Mathlib.Tactic.FieldSimp
import Mathlib.Tactic.Linarith
import Mathlib.Tactic.Positivity
import Mathlib.Tactic.Ring

/-!
The value nearest to a number.

Each rank stands for a number, and the numbers grow with the ranks. A quotient lies between two of
them that follow each other, and rounding takes the one on the near side of their middle. No other
value is as near, so what a number rounds to does not depend on how it was reached, and a larger
number does not round to a smaller value. Infinity takes part as the power of two behind the last
finite value: this puts the bound from which a number is too large where the format has it.
-/

set_option autoImplicit false

namespace Calculator.Binary64

attribute [local instance (high)] instPowNat

/-- The number of a rank. That of infinity is the power of two behind the last finite value. -/
def magnitude (rank : Nat) : ℚ := quanta rank / quantaPerUnit

/-- The rank of the value nearest to a number, of two at the same distance the even one. -/
structure Nearest (number : ℚ) (place : Nat) : Prop where
  bounded : place ≤ infinityRank
  closest : ∀ other ≤ infinityRank, |magnitude place - number| ≤ |magnitude other - number|
  even : ∀ other ≤ infinityRank, other ≠ place →
    |magnitude place - number| = |magnitude other - number| → place % 2 = 0

/-- Within one step size the quanta are linear in the steps, up to the first value of the next
step size. -/
theorem quanta_steps {coarse steps : Nat} (fine : coarse = 0 ∨ blockSize ≤ steps)
    (few : steps ≤ 2 * blockSize) :
    quanta (coarse * blockSize + steps) = steps * 2 ^ coarse := by
  unfold quanta
  rcases Nat.lt_or_ge steps blockSize with small | large
  · have finest : coarse = 0 := by omega
    subst finest
    simp [small]
  · have beyond : ¬coarse * blockSize + steps < blockSize := by
      have := Nat.le_add_left steps (coarse * blockSize)
      omega
    rw [if_neg beyond]
    rcases Nat.eq_or_lt_of_le few with full | part
    · have block : (coarse * blockSize + steps) / blockSize = coarse + 2 := by
        rw [full, ← Nat.add_mul, Nat.mul_div_cancel _ (by decide)]
      have rest : (coarse * blockSize + steps) % blockSize = 0 := by
        rw [full, ← Nat.add_mul, Nat.mul_mod_left]
      rw [block, rest, full, Nat.add_zero, show coarse + 2 - 1 = coarse + 1 by omega,
        Nat.pow_succ', ← Nat.mul_assoc, Nat.mul_comm blockSize]
    · obtain ⟨behind, rfl⟩ := Nat.exists_eq_add_of_le large
      have short : behind < blockSize := by omega
      have split : coarse * blockSize + (blockSize + behind) =
          (coarse + 1) * blockSize + behind := by
        rw [Nat.add_mul, Nat.one_mul, Nat.add_assoc]
      have block : (coarse * blockSize + (blockSize + behind)) / blockSize = coarse + 1 := by
        rw [split, Nat.add_comm, Nat.add_mul_div_right _ _ (by decide), Nat.div_eq_of_lt short,
          Nat.zero_add]
      have rest : (coarse * blockSize + (blockSize + behind)) % blockSize = behind := by
        rw [split, Nat.mul_add_mod', Nat.mod_eq_of_lt short]
      rw [block, rest, Nat.add_sub_cancel]

theorem exists_steps (rank : Nat) :
    ∃ coarse steps, rank = coarse * blockSize + steps ∧ (coarse = 0 ∨ blockSize ≤ steps) ∧
      steps < 2 * blockSize := by
  have fraction := Nat.mod_lt rank (show 0 < blockSize by decide)
  have whole := Nat.div_add_mod' rank blockSize
  rcases Nat.eq_zero_or_pos (rank / blockSize) with finest | coarser
  · rw [finest, Nat.zero_mul, Nat.zero_add] at whole
    exact ⟨0, rank, by rw [Nat.zero_mul, Nat.zero_add], Or.inl rfl, by omega⟩
  · refine ⟨rank / blockSize - 1, blockSize + rank % blockSize, ?_, Or.inr (Nat.le_add_right ..),
      by omega⟩
    obtain ⟨block, same⟩ := Nat.exists_eq_add_of_le' coarser
    rw [same] at whole ⊢
    rw [Nat.add_sub_cancel, ← Nat.add_assoc, ← Nat.succ_mul, whole]

theorem quanta_succ (rank : Nat) :
    ∃ coarse steps, steps < 2 * blockSize ∧ (coarse = 0 ∨ blockSize ≤ steps) ∧
      quanta rank = steps * 2 ^ coarse ∧ quanta (rank + 1) = (steps + 1) * 2 ^ coarse := by
  obtain ⟨coarse, steps, rfl, fine, few⟩ := exists_steps rank
  refine ⟨coarse, steps, few, fine, quanta_steps fine (Nat.le_of_lt few), ?_⟩
  rw [Nat.add_assoc]
  exact quanta_steps (fine.imp id Nat.le_succ_of_le) few

theorem quanta_strictMono : StrictMono quanta := by
  apply strictMono_nat_of_lt_succ
  intro rank
  obtain ⟨coarse, steps, _, _, here, next⟩ := quanta_succ rank
  rw [here, next]
  exact Nat.mul_lt_mul_of_pos_right (Nat.lt_succ_self steps) (Nat.two_pow_pos coarse)

theorem quantaPerUnit_cast_pos : (0 : ℚ) < quantaPerUnit := by
  exact_mod_cast quantaPerUnit_pos

theorem magnitude_strictMono : StrictMono magnitude := by
  intro left right less
  apply div_lt_div_of_pos_right _ quantaPerUnit_cast_pos
  exact_mod_cast quanta_strictMono less

theorem quanta_le_gaps {low high : Nat} (less : low < high) :
    quanta high + 2 * blockSize * quanta low ≤ 2 * blockSize * quanta high := by
  obtain ⟨before, rfl⟩ := Nat.exists_eq_add_of_le' (Nat.zero_lt_of_lt less)
  obtain ⟨coarse, steps, few, _, here, next⟩ := quanta_succ before
  have atMost := quanta_strictMono.monotone (Nat.le_of_lt_succ less)
  rw [here] at atMost
  rw [next]
  calc (steps + 1) * 2 ^ coarse + 2 * blockSize * quanta low
      ≤ 2 * blockSize * 2 ^ coarse + 2 * blockSize * (steps * 2 ^ coarse) :=
        Nat.add_le_add (Nat.mul_le_mul_right _ few) (Nat.mul_le_mul_left _ atMost)
    _ = 2 * blockSize * ((steps + 1) * 2 ^ coarse) := by
        rw [← Nat.mul_add, Nat.add_one_mul steps, Nat.add_comm]

/-- From a value to any other the way is no shorter than the value over two to the power 53. -/
theorem magnitude_le_gap {rank other : Nat} (different : other ≠ rank) :
    magnitude rank ≤ 2 ^ 53 * |magnitude other - magnitude rank| := by
  have gap {low high : Nat} (less : low < high) :
      magnitude high ≤ 2 ^ 53 * (magnitude high - magnitude low) := by
    have count : ((2 * blockSize : Nat) : ℚ) = 2 ^ 53 := by norm_num [blockSize]
    have cast : (quanta high : ℚ) + 2 ^ 53 * quanta low ≤ 2 ^ 53 * quanta high := by
      rw [← count]
      exact_mod_cast quanta_le_gaps less
    rw [magnitude, magnitude, ← sub_div, ← mul_div_assoc]
    apply div_le_div_of_nonneg_right _ quantaPerUnit_cast_pos.le
    linarith
  rcases Nat.lt_or_gt_of_ne different with less | more
  · rw [abs_sub_comm, abs_of_pos (sub_pos.mpr (magnitude_strictMono less))]
    exact gap less
  · rw [abs_of_pos (sub_pos.mpr (magnitude_strictMono more))]
    exact (magnitude_strictMono more).le.trans (gap more)

theorem steps_of_quotient (quotient : Nat) :
    let coarse := quotient.log2 - fractionBits
    (coarse = 0 ∨ blockSize ≤ quotient / 2 ^ coarse) ∧ quotient / 2 ^ coarse < 2 * blockSize := by
  intro coarse
  have power := Nat.two_pow_pos coarse
  have high := Nat.lt_log2_self (n := quotient)
  rcases Nat.le_total quotient.log2 fractionBits with few | many
  · have small : coarse = 0 := Nat.sub_eq_zero_of_le few
    refine ⟨Or.inl small, ?_⟩
    rw [small, Nat.pow_zero, Nat.div_one, blockSize_eq, ← Nat.pow_succ']
    exact Nat.lt_of_lt_of_le high (Nat.pow_le_pow_right (by decide) (Nat.succ_le_succ few))
  · have bits : quotient.log2 = fractionBits + coarse := (Nat.add_sub_of_le many).symm
    have nonzero : quotient ≠ 0 := by
      rintro rfl
      exact absurd many (by decide)
    have low := Nat.log2_self_le nonzero
    rw [bits, Nat.pow_add, ← blockSize_eq] at low
    rw [bits, Nat.add_right_comm, Nat.pow_add, Nat.pow_succ', ← blockSize_eq] at high
    exact ⟨Or.inr ((Nat.le_div_iff_mul_le power).mpr low),
      (Nat.div_lt_iff_lt_mul power).mpr high⟩

theorem quotient_lt_quotient_iff (num num' : Nat) {den den' : Nat} (positive : 0 < den)
    (positive' : 0 < den') :
    (num : ℚ) / den < (num' : ℚ) / den' ↔ num * den' < num' * den := by
  rw [div_lt_div_iff₀ (by exact_mod_cast positive) (by exact_mod_cast positive')]
  exact_mod_cast Iff.rfl

theorem quotient_eq_quotient_iff (num num' : Nat) {den den' : Nat} (positive : 0 < den)
    (positive' : 0 < den') :
    (num : ℚ) / den = (num' : ℚ) / den' ↔ num * den' = num' * den := by
  rw [div_eq_div_iff (by exact_mod_cast Nat.ne_of_gt positive)
    (by exact_mod_cast Nat.ne_of_gt positive')]
  exact_mod_cast Iff.rfl

theorem magnitude_middle {coarse steps : Nat} (fine : coarse = 0 ∨ blockSize ≤ steps)
    (few : steps < 2 * blockSize) :
    magnitude (coarse * blockSize + steps) + magnitude (coarse * blockSize + steps + 1) =
      ((2 * steps + 1) * 2 ^ coarse : Nat) / quantaPerUnit := by
  have here := quanta_steps fine (Nat.le_of_lt few)
  have next := quanta_steps (fine.imp id Nat.le_succ_of_le) (Nat.succ_le_of_lt few)
  rw [magnitude, magnitude, here, Nat.add_assoc, next, ← add_div]
  push_cast
  ring

theorem steps_mod_two (coarse steps : Nat) : (coarse * blockSize + steps) % 2 = steps % 2 := by
  rw [Nat.add_mod, Nat.mul_mod, show blockSize % 2 = 0 by decide]
  simp

/-- Where the quotient lies between two values next to each other, and which of them it rounds to:
the nearer, the even one from the middle. -/
theorem nearestRank_between (num : Nat) {den : Nat} (positive : 0 < den) :
    ∃ place, magnitude place ≤ (num : ℚ) / den ∧ (num : ℚ) / den < magnitude (place + 1) ∧
      nearestRank num den = min
        (if magnitude place + magnitude (place + 1) < 2 * ((num : ℚ) / den) ∨
            (magnitude place + magnitude (place + 1) = 2 * ((num : ℚ) / den) ∧ place % 2 = 1)
          then place + 1 else place) infinityRank := by
  let scaled := num * quantaPerUnit
  let coarse := (scaled / den).log2 - fractionBits
  let step := den * 2 ^ coarse
  let whole := scaled / step
  have stepPositive : 0 < step := Nat.mul_pos positive (Nat.two_pow_pos coarse)
  have sizes := steps_of_quotient (scaled / den)
  simp only [Nat.div_div_eq_div_mul] at sizes
  obtain ⟨fine, few⟩ : (coarse = 0 ∨ blockSize ≤ whole) ∧ whole < 2 * blockSize := sizes
  have parts : scaled = step * whole + scaled % step := (Nat.div_add_mod scaled step).symm
  have rest : scaled % step < step := Nat.mod_lt scaled stepPositive
  have steps (count : Nat) : count * 2 ^ coarse * den = step * count := by
    simp only [step]
    ac_rfl
  refine ⟨coarse * blockSize + whole, ?_, ?_, ?_⟩
  · have here := quanta_steps fine (Nat.le_of_lt few)
    rw [magnitude, here, ← not_lt, quotient_lt_quotient_iff _ _ positive quantaPerUnit_pos, steps]
    change ¬scaled < step * whole
    omega
  · have next := quanta_steps (fine.imp id Nat.le_succ_of_le) (Nat.succ_le_of_lt few)
    rw [magnitude, Nat.add_assoc, next, quotient_lt_quotient_iff _ _ positive quantaPerUnit_pos,
      steps, Nat.mul_succ]
    change scaled < step * whole + step
    omega
  -- Both sides of the middle are decided by twice the rest, as the reader decides them.
  · have middle := magnitude_middle fine few
    have double : 2 * ((num : ℚ) / den) = (2 * num : Nat) / den := by
      push_cast
      ring
    have twice : 2 * num * quantaPerUnit = step * (2 * whole) + 2 * (scaled % step) := by
      rw [Nat.mul_left_comm, ← Nat.mul_add, ← parts, Nat.mul_assoc]
    have up : magnitude (coarse * blockSize + whole) + magnitude (coarse * blockSize + whole + 1)
        < 2 * ((num : ℚ) / den) ↔ step < 2 * (scaled % step) := by
      rw [middle, double, quotient_lt_quotient_iff _ _ quantaPerUnit_pos positive, steps, twice,
        Nat.mul_succ, Nat.add_lt_add_iff_left]
    have even : magnitude (coarse * blockSize + whole) + magnitude (coarse * blockSize + whole + 1)
        = 2 * ((num : ℚ) / den) ↔ 2 * (scaled % step) = step := by
      rw [middle, double, quotient_eq_quotient_iff _ _ quantaPerUnit_pos positive, steps, twice,
        Nat.mul_succ, Nat.add_left_cancel_iff, eq_comm]
    have rounded : roundDiv scaled step =
        if step < 2 * (scaled % step) ∨ (2 * (scaled % step) = step ∧ whole % 2 = 1)
          then whole + 1 else whole := rfl
    have unfolded : nearestRank num den =
        min (coarse * blockSize + roundDiv scaled step) infinityRank := rfl
    simp only [up, even, steps_mod_two, unfolded, rounded]
    split
    case isTrue => rw [Nat.add_assoc]
    case isFalse => rfl

section Middles

variable {low high number : ℚ}

theorem high_nearer_iff (apart : low < high) :
    |high - number| ≤ |low - number| ↔ low + high ≤ 2 * number := by
  rw [← sq_le_sq]
  constructor <;> intro <;> nlinarith

theorem low_nearer_iff (apart : low < high) :
    |low - number| ≤ |high - number| ↔ 2 * number ≤ low + high := by
  rw [← sq_le_sq]
  constructor <;> intro <;> nlinarith

theorem middle_of_equidistant (apart : low < high) (equal : |low - number| = |high - number|) :
    low + high = 2 * number :=
  le_antisymm ((high_nearer_iff apart).mp equal.ge) ((low_nearer_iff apart).mp equal.le)

end Middles

variable {number : ℚ} {place : Nat}

/-- A value is the nearest if no middle between it and another lies on the wrong side. -/
theorem nearest_of_middles (bounded : place ≤ infinityRank)
    (low : ∀ other < place, magnitude other + magnitude place ≤ 2 * number ∧
      (magnitude other + magnitude place = 2 * number → place % 2 = 0))
    (high : ∀ other, place < other → other ≤ infinityRank →
      2 * number ≤ magnitude place + magnitude other ∧
        (magnitude place + magnitude other = 2 * number → place % 2 = 0)) :
    Nearest number place := by
  refine ⟨bounded, ?_, ?_⟩
  · intro other finite
    rcases Nat.lt_trichotomy other place with less | rfl | more
    · exact (high_nearer_iff (magnitude_strictMono less)).mpr (low other less).1
    · exact le_rfl
    · exact (low_nearer_iff (magnitude_strictMono more)).mpr (high other more finite).1
  · intro other finite different equal
    rcases Nat.lt_or_gt_of_ne different with less | more
    · exact (low other less).2 (middle_of_equidistant (magnitude_strictMono less) equal.symm)
    · exact (high other more finite).2 (middle_of_equidistant (magnitude_strictMono more) equal)

theorem nearest_of_lower (finite : place < infinityRank) (below : magnitude place ≤ number)
    (down : 2 * number ≤ magnitude place + magnitude (place + 1))
    (tie : magnitude place + magnitude (place + 1) = 2 * number → place % 2 = 0) :
    Nearest number place := by
  apply nearest_of_middles finite.le
  · intro other before
    have step := magnitude_strictMono before
    exact ⟨by linarith, fun middle => by linarith⟩
  · intro other behind _
    rcases Nat.eq_or_lt_of_le behind with rfl | further
    · exact ⟨down, tie⟩
    · have step := magnitude_strictMono further
      exact ⟨by linarith, fun middle => by linarith⟩

theorem nearest_of_upper (finite : place < infinityRank) (above : number < magnitude (place + 1))
    (up : magnitude place + magnitude (place + 1) ≤ 2 * number)
    (tie : magnitude place + magnitude (place + 1) = 2 * number → place % 2 = 1) :
    Nearest number (place + 1) := by
  apply nearest_of_middles finite
  · intro other before
    rcases Nat.eq_or_lt_of_le (Nat.le_of_lt_succ before) with rfl | further
    · refine ⟨up, fun middle => ?_⟩
      have odd := tie middle
      omega
    · have step := magnitude_strictMono further
      exact ⟨by linarith, fun middle => by linarith⟩
  · intro other behind _
    have step := magnitude_strictMono behind
    exact ⟨by linarith, fun middle => by linarith⟩

theorem nearest_infinity (large : magnitude infinityRank ≤ number) :
    Nearest number infinityRank := by
  apply nearest_of_middles le_rfl
  · intro other before
    have step := magnitude_strictMono before
    exact ⟨by linarith, fun middle => by linarith⟩
  · intro other behind finite
    omega

/-- Of the values around a number one is the nearest of all: the nearer, from the middle the even
one, and behind the last finite value infinity. -/
theorem nearest_of_between (below : magnitude place ≤ number)
    (above : number < magnitude (place + 1)) :
    Nearest number (min
      (if magnitude place + magnitude (place + 1) < 2 * number ∨
          (magnitude place + magnitude (place + 1) = 2 * number ∧ place % 2 = 1)
        then place + 1 else place) infinityRank) := by
  rcases Nat.lt_or_ge place infinityRank with finite | beyond
  · split
    case isTrue up =>
      rw [Nat.min_eq_left finite]
      refine nearest_of_upper finite above ?_ fun middle => ?_
      · exact up.elim le_of_lt fun tie => tie.1.le
      · exact up.elim (fun past => (past.ne middle).elim) And.right
    case isFalse down =>
      rw [Nat.min_eq_left finite.le]
      rw [not_or, not_lt] at down
      refine nearest_of_lower finite below down.1 fun middle => ?_
      have even := mt (And.intro middle) down.2
      omega
  · have last : min (if magnitude place + magnitude (place + 1) < 2 * number ∨
        (magnitude place + magnitude (place + 1) = 2 * number ∧ place % 2 = 1)
          then place + 1 else place) infinityRank = infinityRank := by
      split <;> omega
    rw [last]
    exact nearest_infinity ((magnitude_strictMono.monotone beyond).trans below)

theorem nearest_magnitude (bounded : place ≤ infinityRank) : Nearest (magnitude place) place := by
  rcases Nat.eq_or_lt_of_le bounded with rfl | finite
  · exact nearest_infinity le_rfl
  · have step := magnitude_strictMono (Nat.lt_succ_self place)
    exact nearest_of_lower finite le_rfl (by linarith) fun middle => by linarith

theorem nearestRank_nearest (num : Nat) {den : Nat} (positive : 0 < den) :
    Nearest ((num : ℚ) / den) (nearestRank num den) := by
  rcases nearestRank_between num positive with ⟨place, below, above, same⟩
  rw [same]
  exact nearest_of_between below above

namespace Nearest

variable {number' : ℚ} {other : Nat}

/-- Two values at the same distance stand next to each other, so only one of them is even. -/
theorem unique (nearest : Nearest number place) (nearest' : Nearest number other) :
    place = other := by
  have equal : |magnitude place - number| = |magnitude other - number| :=
    le_antisymm (nearest.closest other nearest'.bounded) (nearest'.closest place nearest.bounded)
  wlog less : place < other generalizing place other
  · rcases Nat.eq_or_lt_of_le (Nat.not_lt.mp less) with same | more
    · exact same.symm
    · exact (this nearest' nearest equal.symm more).symm
  have middle := middle_of_equidistant (magnitude_strictMono less) equal
  have even := nearest.even other nearest'.bounded less.ne' equal
  have even' := nearest'.even place nearest.bounded less.ne equal.symm
  have further : place + 1 < other := by omega
  have step := magnitude_strictMono (Nat.lt_succ_self place)
  have step' := magnitude_strictMono further
  have nearer := nearest.closest (place + 1) (further.le.trans nearest'.bounded)
  have past := (low_nearer_iff step).mp nearer
  linarith

theorem monotone (nearest : Nearest number place) (nearest' : Nearest number' other)
    (less : number ≤ number') : place ≤ other := by
  by_contra more
  have apart := magnitude_strictMono (Nat.not_le.mp more)
  have past := (high_nearer_iff apart).mp (nearest.closest other nearest'.bounded)
  have short := (low_nearer_iff apart).mp (nearest'.closest place nearest.bounded)
  have same : number = number' := by linarith
  subst same
  exact more (nearest.unique nearest').le

theorem le_iff {rank : Nat} (nearest : Nearest number place)
    (finite : rank < infinityRank) :
    place ≤ rank ↔ 2 * number < magnitude rank + magnitude (rank + 1) ∨
      (2 * number = magnitude rank + magnitude (rank + 1) ∧ rank % 2 = 0) := by
  constructor
  · intro low
    have apart := magnitude_strictMono (Nat.lt_succ_of_le low)
    have closest := nearest.closest (rank + 1) finite
    have short := (low_nearer_iff apart).mp closest
    rcases Nat.eq_or_lt_of_le low with rfl | less
    · rcases short.eq_or_lt with middle | below
      · have equal : |magnitude place - number| = |magnitude (place + 1) - number| :=
          le_antisymm closest ((high_nearer_iff apart).mpr middle.ge)
        exact Or.inr ⟨middle, nearest.even _ finite (Nat.succ_ne_self place) equal⟩
      · exact Or.inl below
    · have step := magnitude_strictMono less
      exact Or.inl (by linarith)
  · intro short
    by_contra high
    have apart := magnitude_strictMono (Nat.not_le.mp high)
    have closest := nearest.closest rank finite.le
    have past := (high_nearer_iff apart).mp closest
    have more := magnitude_strictMono.monotone (Nat.succ_le_of_lt (Nat.not_le.mp high))
    rcases short with below | ⟨middle, even⟩
    · linarith
    · have same : rank + 1 = place := by
        apply magnitude_strictMono.injective
        linarith
      subst same
      have equal : |magnitude (rank + 1) - number| = |magnitude rank - number| :=
        le_antisymm closest ((low_nearer_iff apart).mpr middle.le)
      have odd := nearest.even rank finite.le (Nat.succ_ne_self rank).symm equal
      omega

end Nearest

theorem magnitude_steps {coarse steps : Nat} (fine : coarse = 0 ∨ blockSize ≤ steps)
    (few : steps ≤ 2 * blockSize) :
    magnitude (coarse * blockSize + steps) = steps * 2 ^ coarse / 2 ^ quantumPlaces := by
  rw [magnitude, quanta_steps fine few, quantaPerUnit]
  push_cast
  rfl

theorem magnitude_zero : magnitude 0 = 0 := by
  have noSteps := magnitude_steps (Or.inl rfl) (Nat.zero_le (2 * blockSize))
  simpa using noSteps

theorem magnitude_one : magnitude 1 = 1 / 2 ^ 1074 := by
  have first := magnitude_steps (Or.inl rfl) (show 1 ≤ 2 * blockSize by decide)
  simpa [quantumPlaces] using first

theorem magnitude_least_normal : magnitude blockSize = 1 / 2 ^ 1022 := by
  have first := magnitude_steps (Or.inl rfl) (show blockSize ≤ 2 * blockSize by decide)
  rw [Nat.zero_mul, Nat.zero_add, blockSize_eq] at first
  rw [blockSize_eq, first, div_eq_div_iff (by positivity) (by positivity)]
  push_cast
  rw [pow_zero, mul_one, one_mul, ← pow_add]
  rfl

theorem magnitude_infinity : magnitude infinityRank = 2 ^ 1024 := by
  have last : magnitude (2046 * blockSize + blockSize) = _ :=
    magnitude_steps (Or.inr le_rfl) (show blockSize ≤ 2 * blockSize by decide)
  have place : 2046 * blockSize + blockSize = infinityRank := by decide
  rw [place] at last
  rw [last, div_eq_iff (by positivity), blockSize_eq]
  push_cast
  rw [← pow_add, ← pow_add]
  rfl

theorem magnitude_greatest_subnormal : magnitude (blockSize - 1) = 1 / 2 ^ 1022 - 1 / 2 ^ 1074 := by
  have last := magnitude_steps (Or.inl rfl) (show blockSize - 1 ≤ 2 * blockSize by decide)
  have count : ((blockSize - 1 : Nat) : ℚ) = 2 ^ 52 - 1 := by
    norm_num [blockSize]
  rw [Nat.zero_mul, Nat.zero_add, count] at last
  rw [last, div_sub_div _ _ (by positivity) (by positivity),
    div_eq_div_iff (by positivity) (by positivity)]
  have split : (2 : ℚ) ^ 1074 = 2 ^ 52 * 2 ^ 1022 := by rw [← pow_add]
  simp only [quantumPlaces, pow_zero, mul_one, one_mul]
  rw [split]
  generalize (2 : ℚ) ^ 1022 = normal
  ring

theorem magnitude_greatest_finite : magnitude (infinityRank - 1) = 2 ^ 1024 - 2 ^ 971 := by
  have last : magnitude (2045 * blockSize + (2 * blockSize - 1)) = _ :=
    magnitude_steps (Or.inr (show blockSize ≤ 2 * blockSize - 1 by decide))
      (show 2 * blockSize - 1 ≤ 2 * blockSize by decide)
  have place : 2045 * blockSize + (2 * blockSize - 1) = infinityRank - 1 := by decide
  have count : ((2 * blockSize - 1 : Nat) : ℚ) = 2 ^ 53 - 1 := by
    norm_num [blockSize]
  have split : (2 : ℚ) ^ 2045 = 2 ^ 971 * 2 ^ 1074 := by rw [← pow_add]
  have split' : (2 : ℚ) ^ 1024 = 2 ^ 53 * 2 ^ 971 := by rw [← pow_add]
  rw [place, count] at last
  rw [last, div_eq_iff (by positivity), quantumPlaces, split, split']
  generalize (2 : ℚ) ^ 971 = step
  generalize (2 : ℚ) ^ 1074 = unit
  ring

end Calculator.Binary64

namespace Calculator.Decimal

open Binary64

theorem nearest_rank (decimal : Decimal) : Nearest decimal.toRat decimal.rank :=
  nearestRank_nearest decimal.numerator decimal.denominator_pos

theorem rank_eq_iff {decimal : Decimal} {place : Nat} :
    decimal.rank = place ↔ Nearest decimal.toRat place :=
  ⟨fun same => same ▸ decimal.nearest_rank, fun nearest => decimal.nearest_rank.unique nearest⟩

theorem rank_mono {left right : Decimal} (less : left.toRat ≤ right.toRat) :
    left.rank ≤ right.rank :=
  left.nearest_rank.monotone right.nearest_rank less

end Calculator.Decimal
