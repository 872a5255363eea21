import Calculator.Decimal

/-!
The shortest decimal of a value.

A decimal stands for a value if reading it gives the value back. The search goes through the
grids of ever finer powers of ten; on each it looks at the two points around the value, the
nearer first. If any point of a grid reads back, so does one of these two, so the first hit has
the fewest digits and is the nearest of those. Main statement: the result reads back.
-/

set_option autoImplicit false

namespace Calculator.Decimal

attribute [local instance (high)] instPowNat

def belowPowerOfTen (count : Nat) (power : Int) : Bool :=
  decide (count * 10 ^ (-power).toNat < Binary64.quantaPerUnit * 10 ^ power.toNat)

/-- The least power of ten above a number of quanta. The logarithm to base two gives it up to two
places. -/
def leadingPlace (count : Nat) : Int :=
  let guess := ((count.log2 : Int) - Binary64.quantumPlaces) * 30103 / 100000
  if belowPowerOfTen count guess then guess
  else if belowPowerOfTen count (guess + 1) then guess + 1
  else guess + 2

/-- Moves one zero from the end of the digits into the exponent. -/
def tidy (decimal : Decimal) : Decimal :=
  if decimal.digits % 10 = 0 then ⟨decimal.digits / 10, decimal.exponent + 1⟩ else decimal

/-- A point of the grid of `10 ^ exponent` that reads back as the value of the rank: the nearer
of the two around it if that one does, and of two at the same distance the larger. -/
def onGrid? (rank : Nat) (exponent : Int) : Option Decimal :=
  let num := Binary64.quanta rank * 10 ^ (-exponent).toNat
  let den := Binary64.quantaPerUnit * 10 ^ exponent.toNat
  let below : Decimal := ⟨num / den, exponent⟩
  let above : Decimal := ⟨num / den + 1, exponent⟩
  let nearestFirst := if 2 * (num % den) < den then [below, above] else [above, below]
  nearestFirst.find? fun point => decide (point.rank = rank)

/-- All digits of the value of a finite rank: half of a decimal has one more place. -/
def exactly (rank : Nat) : Decimal :=
  ⟨Binary64.quanta rank * 5 ^ Binary64.quantumPlaces, -Binary64.quantumPlaces⟩

/-- The first hit on the grids with one digit, with two, and so on to seventeen. -/
def onCoarsestGrid? (rank : Nat) : Option Decimal :=
  let place := leadingPlace (Binary64.quanta rank)
  (List.range 17).findSome? fun others : Nat => onGrid? rank (place - 1 - others)

/-- The decimal with the fewest digits that reads back as the value of a finite rank. Seventeen
digits always suffice. A nine that was rounded up is a power of ten with a zero too many. -/
def shortest (rank : Nat) : Decimal :=
  if rank = 0 then ⟨0, 0⟩ else ((onCoarsestGrid? rank).map tidy).getD (exactly rank)

theorem rank_eq_of_onGrid? {place : Nat} {exponent : Int} {decimal : Decimal}
    (found : onGrid? place exponent = some decimal) : decimal.rank = place := by
  unfold onGrid? at found
  have hit := List.find?_some found
  exact of_decide_eq_true hit

theorem rank_eq_of_onCoarsestGrid? {place : Nat} {decimal : Decimal}
    (found : onCoarsestGrid? place = some decimal) : decimal.rank = place := by
  unfold onCoarsestGrid? at found
  obtain ⟨others, _, hit⟩ := List.exists_of_findSome?_eq_some found
  exact rank_eq_of_onGrid? hit

theorem rank_zero : rank ⟨0, 0⟩ = 0 := by
  simp [rank, numerator, Binary64.nearestRank, Binary64.roundDiv]

theorem rank_exactly {place : Nat} (finite : place < Binary64.infinityRank) :
    (exactly place).rank = place := by
  have unit : Binary64.quantaPerUnit * 5 ^ Binary64.quantumPlaces
      = 10 ^ Binary64.quantumPlaces := by
    rw [Binary64.quantaPerUnit, ← Nat.mul_pow]
  have whole : (exactly place).numerator
      = Binary64.quanta place * 5 ^ Binary64.quantumPlaces := by
    simp [exactly, numerator]
  have parts : (exactly place).denominator = 10 ^ Binary64.quantumPlaces := by
    simp [exactly, denominator]
  rw [rank, whole, parts, ← unit, Binary64.nearestRank_mul_right _ _ _ (Nat.pow_pos (by decide)),
    Binary64.nearestRank_quanta finite]

theorem rank_tidy (decimal : Decimal) : decimal.tidy.rank = decimal.rank := by
  unfold tidy
  split
  case isFalse => rfl
  case isTrue divisible =>
    apply Binary64.nearestRank_congr (denominator_pos _) (denominator_pos _)
    have ten : decimal.digits = decimal.digits / 10 * 10 := by omega
    simp only [numerator, denominator]
    by_cases negative : decimal.exponent < 0
    · have up : (decimal.exponent + 1).toNat = 0 := by omega
      have down : (-decimal.exponent).toNat = (-(decimal.exponent + 1)).toNat + 1 := by omega
      have flat : decimal.exponent.toNat = 0 := by omega
      rw [up, down, flat, Nat.pow_succ]
      calc decimal.digits / 10 * 10 ^ 0 * (10 ^ (-(decimal.exponent + 1)).toNat * 10)
          = decimal.digits / 10 * 10 * 10 ^ 0 * 10 ^ (-(decimal.exponent + 1)).toNat := by
            simp only [Nat.pow_zero, Nat.mul_one]; ac_rfl
        _ = _ := by rw [← ten]
    · have up : (decimal.exponent + 1).toNat = decimal.exponent.toNat + 1 := by omega
      have down : (-decimal.exponent).toNat = 0 := by omega
      have flat : (-(decimal.exponent + 1)).toNat = 0 := by omega
      rw [up, down, flat, Nat.pow_succ]
      calc decimal.digits / 10 * (10 ^ decimal.exponent.toNat * 10) * 10 ^ 0
          = decimal.digits / 10 * 10 * 10 ^ decimal.exponent.toNat * 10 ^ 0 := by ac_rfl
        _ = _ := by rw [← ten]

theorem rank_shortest {place : Nat} (finite : place < Binary64.infinityRank) :
    (shortest place).rank = place := by
  unfold shortest
  split
  case isTrue isZero => rw [isZero, rank_zero]
  case isFalse =>
    cases found : onCoarsestGrid? place with
    | none => rw [Option.map_none, Option.getD_none, rank_exactly finite]
    | some decimal =>
        rw [Option.map_some, Option.getD_some, rank_tidy, rank_eq_of_onCoarsestGrid? found]

end Calculator.Decimal
