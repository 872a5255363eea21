import Calculator.Decimal.Shortest
import Calculator.Proofs.NearestValue
import Mathlib.Algebra.Order.Field.Power
import Mathlib.Tactic.NormNum

/-!
The shortest decimal has the fewest digits.

The values that read back as one value lie around it without a gap. So a decimal that reads back
can be moved towards the value, onto a grid with no more digits than it has, and there onto one of
the two points next to the value: these are the points the search looks at. Main statement: no
decimal that reads back has fewer digits than the result, and none with as many is nearer.
-/

set_option autoImplicit false

namespace Calculator.Decimal

open Binary64

attribute [local instance (high)] instPowNat

theorem ten_zpow_pos (exponent : Int) : (0 : ℚ) < 10 ^ exponent := zpow_pos (by norm_num) exponent

theorem ten_zpow_eq (exponent : Int) :
    (10 : ℚ) ^ exponent = (10 ^ exponent.toNat : Nat) / (10 ^ (-exponent).toNat : Nat) := by
  rw [eq_div_iff (by positivity)]
  push_cast
  rw [← zpow_natCast, ← zpow_natCast, ← zpow_add₀ (by norm_num)]
  congr 1
  omega

theorem toRat_eq (decimal : Decimal) :
    decimal.toRat = decimal.digits * 10 ^ decimal.exponent := by
  rw [ten_zpow_eq, toRat, numerator, denominator]
  push_cast
  ring

theorem toRat_tidy (decimal : Decimal) : decimal.tidy.toRat = decimal.toRat := by
  unfold tidy
  split
  case isFalse => rfl
  case isTrue divisible =>
    have ten : decimal.digits / 10 * 10 = decimal.digits := by omega
    rw [toRat_eq, toRat_eq, zpow_add_one₀ (by norm_num), ← ten, Nat.mul_div_cancel _ (by decide)]
    push_cast
    ring

def digitCount (decimal : Decimal) : Nat := (Nat.toDigits 10 decimal.digits).length

theorem digitCount_pos (decimal : Decimal) : 0 < decimal.digitCount := Nat.length_toDigits_pos

theorem digitCount_le_iff (decimal : Decimal) {count : Nat} (positive : 0 < count) :
    decimal.digitCount ≤ count ↔ decimal.digits < 10 ^ count :=
  Nat.length_toDigits_le_iff (by decide) positive

theorem toRat_lt_iff {decimal : Decimal} {count : Nat} :
    decimal.toRat < 10 ^ (count + decimal.exponent : Int) ↔ decimal.digits < 10 ^ count := by
  rw [toRat_eq, zpow_add₀ (by norm_num), zpow_natCast, mul_lt_mul_iff_left₀ (ten_zpow_pos _)]
  exact_mod_cast Iff.rfl

theorem belowPowerOfTen_iff (count : Nat) (power : Int) :
    belowPowerOfTen count power = true ↔ (count : ℚ) / quantaPerUnit < 10 ^ power := by
  rw [belowPowerOfTen, decide_eq_true_eq, ten_zpow_eq, quotient_lt_quotient_iff _ _
    quantaPerUnit_pos (Nat.pow_pos (by decide)), Nat.mul_comm quantaPerUnit]

/-- A power of ten below a power of two. For large numbers this rests on `10 ^ 59 ≤ 2 ^ 196`, for
small ones on `2 ^ 93 ≤ 10 ^ 28`. -/
theorem ten_zpow_le_two_zpow {place bits : Int} (large : 196 * place ≤ 59 * bits)
    (small : 93 * place ≤ 28 * bits) : (10 : ℚ) ^ place ≤ 2 ^ bits := by
  have ten := (ten_zpow_pos place).le
  have two : (0 : ℚ) ≤ 2 ^ bits := (zpow_pos (by norm_num) bits).le
  rcases Int.le_total 0 bits with up | down
  · rw [← zpow_le_zpow_iff_left₀ ten two (show (0 : Int) < 196 by decide)]
    calc ((10 : ℚ) ^ place) ^ (196 : Int) = 10 ^ (196 * place) := by rw [mul_comm, zpow_mul]
      _ ≤ 10 ^ (59 * bits) := zpow_le_zpow_right₀ (by norm_num) large
      _ = (10 ^ (59 : Int)) ^ bits := by rw [zpow_mul]
      _ ≤ (2 ^ (196 : Int)) ^ bits := zpow_le_zpow_left₀ up (by norm_num) (by norm_num)
      _ = (2 ^ bits) ^ (196 : Int) := by rw [← zpow_mul, ← zpow_mul, mul_comm]
  · rw [← zpow_le_zpow_iff_left₀ ten two (show (0 : Int) < 93 by decide)]
    have reversed : (10 : ℚ) ^ (28 : Int) ≥ 2 ^ (93 : Int) := by norm_num
    calc ((10 : ℚ) ^ place) ^ (93 : Int) = 10 ^ (93 * place) := by rw [mul_comm, zpow_mul]
      _ ≤ 10 ^ (28 * bits) := zpow_le_zpow_right₀ (by norm_num) small
      _ = ((10 ^ (28 : Int)) ^ (-bits))⁻¹ := by rw [zpow_neg, inv_inv, zpow_mul]
      _ ≤ ((2 ^ (93 : Int)) ^ (-bits))⁻¹ :=
          inv_anti₀ (zpow_pos (by norm_num) _)
            (zpow_le_zpow_left₀ (Int.neg_nonneg.mpr down) (by norm_num) reversed)
      _ = (2 ^ bits) ^ (93 : Int) := by rw [zpow_neg, inv_inv, ← zpow_mul, ← zpow_mul, mul_comm]

theorem two_zpow_le_ten_zpow {place bits : Int} (large : 59 * bits ≤ 196 * place)
    (small : 28 * bits ≤ 93 * place) : (2 : ℚ) ^ bits ≤ 10 ^ place := by
  have inverse : (10 : ℚ) ^ (-place) ≤ 2 ^ (-bits) :=
    ten_zpow_le_two_zpow (by omega) (by omega)
  rw [zpow_neg, zpow_neg] at inverse
  exact (inv_le_inv₀ (ten_zpow_pos place) (zpow_pos (by norm_num) bits)).mp inverse

theorem magnitude_bits {rank : Nat} (nonzero : rank ≠ 0) :
    (2 : ℚ) ^ ((quanta rank).log2 - quantumPlaces : Int) ≤ magnitude rank ∧
      magnitude rank < 2 ^ ((quanta rank).log2 - quantumPlaces + 1 : Int) := by
  have least : quanta 0 < quanta rank := quanta_strictMono (Nat.pos_of_ne_zero nonzero)
  have low := Nat.log2_self_le (Nat.ne_of_gt (Nat.zero_lt_of_lt least))
  have high := Nat.lt_log2_self (n := quanta rank)
  have unit : (quantaPerUnit : ℚ) = 2 ^ (quantumPlaces : Int) := by
    rw [quantaPerUnit, zpow_natCast]
    push_cast
    rfl
  have positive := quantaPerUnit_cast_pos
  rw [sub_add_eq_add_sub, zpow_sub₀ (by norm_num), zpow_sub₀ (by norm_num), ← unit, magnitude]
  constructor
  · apply div_le_div_of_nonneg_right _ positive.le
    rw [zpow_natCast]
    exact_mod_cast low
  · apply div_lt_div_of_pos_right _ positive
    rw [← Nat.cast_succ, zpow_natCast]
    exact_mod_cast high

theorem leadingPlace_bounds {rank : Nat} (nonzero : rank ≠ 0) (finite : rank < infinityRank) :
    (10 : ℚ) ^ (leadingPlace (quanta rank) - 1) ≤ magnitude rank ∧
      magnitude rank < 10 ^ leadingPlace (quanta rank) := by
  obtain ⟨low, high⟩ := magnitude_bits nonzero
  have top : (quanta rank).log2 < 2098 := by
    have last := (magnitude_strictMono finite).trans_eq magnitude_infinity
    have exponents : (2 : ℚ) ^ ((quanta rank).log2 - quantumPlaces : Int) < 2 ^ (1024 : Int) :=
      low.trans_lt last
    have := (zpow_lt_zpow_iff_right₀ (by norm_num)).mp exponents
    unfold quantumPlaces at this
    omega
  let guess := ((quanta rank).log2 - quantumPlaces : Int) * 30103 / 100000
  have above : (10 : ℚ) ^ (guess - 1) ≤ magnitude rank := by
    refine (ten_zpow_le_two_zpow ?_ ?_).trans low <;> unfold guess quantumPlaces <;> omega
  have below : magnitude rank < 10 ^ (guess + 2) := by
    refine high.trans_le (two_zpow_le_ten_zpow ?_ ?_) <;> unfold guess quantumPlaces <;> omega
  have place : leadingPlace (quanta rank) =
      if belowPowerOfTen (quanta rank) guess then guess
      else if belowPowerOfTen (quanta rank) (guess + 1) then guess + 1
      else guess + 2 := rfl
  rw [place]
  split
  case isTrue here => exact ⟨above, (belowPowerOfTen_iff _ _).mp here⟩
  case isFalse notHere =>
    have past := not_lt.mp (mt (belowPowerOfTen_iff _ _).mpr notHere)
    split
    case isTrue next =>
      rw [add_sub_cancel_right]
      exact ⟨past, (belowPowerOfTen_iff _ _).mp next⟩
    case isFalse notNext =>
      have further := not_lt.mp (mt (belowPowerOfTen_iff _ _).mpr notNext)
      rw [show guess + 2 - 1 = guess + 1 by omega]
      exact ⟨further, below⟩

variable {place : Nat}

/-- Let a decimal read back as some value. Every point between the two reads back as that value as
well, and is no farther from it than the decimal. -/
theorem reads_back_between {decimal point : Decimal} (finite : place < infinityRank)
    (reads : decimal.rank = place)
    (inside : (decimal.toRat ≤ point.toRat ∧ point.toRat ≤ magnitude place) ∨
      (magnitude place ≤ point.toRat ∧ point.toRat ≤ decimal.toRat)) :
    point.rank = place ∧
      |point.toRat - magnitude place| ≤ |decimal.toRat - magnitude place| := by
  have self := nearest_magnitude finite.le
  rcases inside with ⟨low, high⟩ | ⟨low, high⟩
  · have least := rank_mono low
    have most := point.nearest_rank.monotone self high
    refine ⟨by omega, ?_⟩
    rw [abs_of_nonpos (by linarith), abs_of_nonpos (by linarith)]
    linarith
  · have most := rank_mono high
    have least := self.monotone point.nearest_rank low
    refine ⟨by omega, ?_⟩
    rw [abs_of_nonneg (by linarith), abs_of_nonneg (by linarith)]
    linarith

def gridFloor (place : Nat) (exponent : Int) : Nat :=
  quanta place * 10 ^ (-exponent).toNat / (quantaPerUnit * 10 ^ exponent.toNat)

theorem gridFloor_add_rest (place : Nat) (exponent : Int) :
    gridFloor place exponent * (quantaPerUnit * 10 ^ exponent.toNat) +
      quanta place * 10 ^ (-exponent).toNat % (quantaPerUnit * 10 ^ exponent.toNat) =
        quanta place * 10 ^ (-exponent).toNat :=
  Nat.div_add_mod' ..

/-- The point in front of a value and the point behind it. -/
def gridBelow (place : Nat) (exponent : Int) : Decimal := ⟨gridFloor place exponent, exponent⟩

def gridAbove (place : Nat) (exponent : Int) : Decimal := ⟨gridFloor place exponent + 1, exponent⟩

theorem grid_between (place : Nat) (exponent : Int) :
    (gridBelow place exponent).toRat ≤ magnitude place ∧
      magnitude place < (gridAbove place exponent).toRat := by
  have unit : 0 < quantaPerUnit * 10 ^ exponent.toNat :=
    Nat.mul_pos quantaPerUnit_pos (Nat.pow_pos (by decide))
  have parts := gridFloor_add_rest place exponent
  have rest := Nat.mod_lt (quanta place * 10 ^ (-exponent).toNat) unit
  have steps (count : Nat) : count * 10 ^ exponent.toNat * quantaPerUnit =
      count * (quantaPerUnit * 10 ^ exponent.toNat) := by
    rw [Nat.mul_assoc, Nat.mul_comm quantaPerUnit]
  constructor
  · simp only [gridBelow, toRat, magnitude, numerator, denominator]
    rw [← not_lt, quotient_lt_quotient_iff _ _ quantaPerUnit_pos (Nat.pow_pos (by decide)), steps]
    omega
  · simp only [gridAbove, toRat, magnitude, numerator, denominator]
    rw [quotient_lt_quotient_iff _ _ quantaPerUnit_pos (Nat.pow_pos (by decide)), steps,
      Nat.succ_mul]
    omega

theorem grid_middle_iff (place : Nat) (exponent : Int) :
    2 * magnitude place < (gridBelow place exponent).toRat + (gridAbove place exponent).toRat ↔
      2 * (quanta place * 10 ^ (-exponent).toNat % (quantaPerUnit * 10 ^ exponent.toNat)) <
        quantaPerUnit * 10 ^ exponent.toNat := by
  have sum : (gridBelow place exponent).toRat + (gridAbove place exponent).toRat =
      ((2 * gridFloor place exponent + 1) * 10 ^ exponent.toNat : Nat) /
        (10 ^ (-exponent).toNat : Nat) := by
    simp only [toRat, numerator, denominator, gridBelow, gridAbove]
    rw [← add_div]
    push_cast
    ring
  have double : 2 * magnitude place = (2 * quanta place : Nat) / quantaPerUnit := by
    rw [magnitude]
    push_cast
    ring
  have parts := gridFloor_add_rest place exponent
  have twice := congrArg (2 * ·) parts
  simp only [Nat.mul_add] at twice
  rw [sum, double, quotient_lt_quotient_iff _ _ quantaPerUnit_pos (Nat.pow_pos (by decide)),
    Nat.mul_assoc 2, ← twice, Nat.mul_assoc _ _ quantaPerUnit, Nat.mul_comm _ quantaPerUnit,
    Nat.add_mul, Nat.one_mul, Nat.mul_assoc 2, Nat.add_lt_add_iff_left]

/-- What a search of one grid comes to: nothing there reads back, or it is a point next to the
value, and no nearer point reads back. -/
inductive Picks (place : Nat) (exponent : Int) : Option Decimal → Prop where
  | nothing (silent : ∀ digits, (⟨digits, exponent⟩ : Decimal).rank ≠ place) :
      Picks place exponent none
  | point {decimal : Decimal}
      (beside : decimal = gridBelow place exponent ∨ decimal = gridAbove place exponent)
      (nearest : ∀ digits, (⟨digits, exponent⟩ : Decimal).rank = place →
        |decimal.toRat - magnitude place| ≤
          |(⟨digits, exponent⟩ : Decimal).toRat - magnitude place|) :
      Picks place exponent (some decimal)

/-- For a point that reads back, the point next to the value on its side reads back too. -/
theorem beside_reads_back {exponent : Int} {digits : Nat} (finite : place < infinityRank)
    (reads : (⟨digits, exponent⟩ : Decimal).rank = place) :
    ∃ point, (point = gridBelow place exponent ∨ point = gridAbove place exponent) ∧
      point.rank = place ∧
      |point.toRat - magnitude place| ≤
        |(⟨digits, exponent⟩ : Decimal).toRat - magnitude place| := by
  obtain ⟨below, above⟩ := grid_between place exponent
  have grows {one other : Nat} (less : one ≤ other) :
      (⟨one, exponent⟩ : Decimal).toRat ≤ (⟨other, exponent⟩ : Decimal).toRat := by
    rw [toRat_eq, toRat_eq]
    have step := (ten_zpow_pos exponent).le
    exact mul_le_mul_of_nonneg_right (by exact_mod_cast less) step
  rcases Nat.lt_or_ge (gridFloor place exponent) digits with behind | before
  · exact ⟨_, Or.inr rfl, reads_back_between finite reads (Or.inr ⟨above.le, grows behind⟩)⟩
  · exact ⟨_, Or.inl rfl, reads_back_between finite reads (Or.inl ⟨grows before, below⟩)⟩

/-- Of two candidates the nearer comes first, so the other counts only where the nearer does not
read back. -/
theorem picks_of_nearer {exponent : Int} {first second : Decimal} (finite : place < infinityRank)
    (order : (first = gridBelow place exponent ∧ second = gridAbove place exponent) ∨
      (first = gridAbove place exponent ∧ second = gridBelow place exponent))
    (nearer : |first.toRat - magnitude place| ≤ |second.toRat - magnitude place|) :
    Picks place exponent ([first, second].find? fun point => decide (point.rank = place)) := by
  have beside : (first = gridBelow place exponent ∨ first = gridAbove place exponent) ∧
      (second = gridBelow place exponent ∨ second = gridAbove place exponent) := by
    rcases order with ⟨first, second⟩ | ⟨first, second⟩
    · exact ⟨Or.inl first, Or.inr second⟩
    · exact ⟨Or.inr first, Or.inl second⟩
  have candidate {digits : Nat} (reads : (⟨digits, exponent⟩ : Decimal).rank = place) :
      ∃ point, (point = first ∨ point = second) ∧ point.rank = place ∧
        |point.toRat - magnitude place| ≤
          |(⟨digits, exponent⟩ : Decimal).toRat - magnitude place| := by
    obtain ⟨point, around, readsBack, closer⟩ := beside_reads_back finite reads
    refine ⟨point, ?_, readsBack, closer⟩
    rcases order with ⟨first, second⟩ | ⟨first, second⟩
    · rwa [first, second]
    · rw [first, second]
      exact around.symm
  by_cases firstReads : first.rank = place
  · rw [List.find?_cons_of_pos (by simpa using firstReads)]
    refine .point beside.1 ?_
    intro digits reads
    obtain ⟨point, same | same, _, closer⟩ := candidate reads
    · exact same ▸ closer
    · exact nearer.trans (same ▸ closer)
  · rw [List.find?_cons_of_neg (by simpa using firstReads)]
    by_cases secondReads : second.rank = place
    · rw [List.find?_cons_of_pos (by simpa using secondReads)]
      refine .point beside.2 ?_
      intro digits reads
      obtain ⟨point, same | same, readsBack, closer⟩ := candidate reads
      · exact (firstReads (same ▸ readsBack)).elim
      · exact same ▸ closer
    · rw [List.find?_cons_of_neg (by simpa using secondReads), List.find?_nil]
      refine .nothing ?_
      intro digits reads
      obtain ⟨point, same | same, readsBack, _⟩ := candidate reads
      · exact firstReads (same ▸ readsBack)
      · exact secondReads (same ▸ readsBack)

theorem onGrid?_picks (exponent : Int) (finite : place < infinityRank) :
    Picks place exponent (onGrid? place exponent) := by
  obtain ⟨low, high⟩ := grid_between place exponent
  have apart : (gridBelow place exponent).toRat < (gridAbove place exponent).toRat :=
    low.trans_lt high
  have middle := grid_middle_iff place exponent
  have search : onGrid? place exponent =
      (if 2 * (quanta place * 10 ^ (-exponent).toNat % (quantaPerUnit * 10 ^ exponent.toNat)) <
          quantaPerUnit * 10 ^ exponent.toNat
        then [gridBelow place exponent, gridAbove place exponent]
        else [gridAbove place exponent, gridBelow place exponent]).find?
        fun point => decide (point.rank = place) := by
    simp only [onGrid?, gridBelow, gridAbove, gridFloor]
  rw [search]
  split
  case isTrue near =>
    exact picks_of_nearer finite (Or.inl ⟨rfl, rfl⟩)
      ((low_nearer_iff apart).mpr (middle.mpr near).le)
  case isFalse far =>
    exact picks_of_nearer finite (Or.inr ⟨rfl, rfl⟩)
      ((high_nearer_iff apart).mpr (not_lt.mp (mt middle.mp far)))

theorem hit_on_coarsest {decimal : Decimal} (found : onCoarsestGrid? place = some decimal) :
    ∃ others, onGrid? place (leadingPlace (quanta place) - 1 - (others : Nat)) = some decimal ∧
      others < 17 ∧
      ∀ fewer < others, onGrid? place (leadingPlace (quanta place) - 1 - (fewer : Nat)) = none := by
  obtain ⟨front, others, back, parts, hit, silent⟩ := List.findSome?_eq_some_iff.mp found
  have sorted := List.pairwise_lt_range (n := 17)
  have inside : others ∈ List.range 17 := by simp [parts]
  refine ⟨others, hit, List.mem_range.mp inside, ?_⟩
  intro fewer less
  have member : fewer ∈ List.range 17 :=
    List.mem_range.mpr (less.trans (List.mem_range.mp inside))
  rw [parts] at sorted member
  rcases List.mem_append.mp member with before | behind
  · exact silent fewer before
  · have later := (List.pairwise_append.mp sorted).2.1
    rcases List.mem_cons.mp behind with rfl | further
    · exact (Nat.lt_irrefl _ less).elim
    · have more := (List.pairwise_cons.mp later).1 fewer further
      omega

/-- A decimal that reads back is no nearer than a point that does on a grid of its size: it is on
such a grid, or a power of ten lies between it and the value. -/
theorem grid_of_reads {decimal : Decimal} (nonzero : place ≠ 0) (finite : place < infinityRank)
    (reads : decimal.rank = place) :
    ∃ others digits, others < decimal.digitCount ∧
      (⟨digits, leadingPlace (quanta place) - 1 - (others : Nat)⟩ : Decimal).rank = place ∧
      |(⟨digits, leadingPlace (quanta place) - 1 - (others : Nat)⟩ : Decimal).toRat -
        magnitude place| ≤ |decimal.toRat - magnitude place| := by
  obtain ⟨low, high⟩ := leadingPlace_bounds nonzero finite
  have count := decimal.digitCount_pos
  -- Outside the powers of ten around the value, the power in between is a point with one digit.
  rcases le_or_gt ((10 : ℚ) ^ leadingPlace (quanta place)) decimal.toRat with above | inside
  · refine ⟨0, 10, count, reads_back_between finite reads (Or.inr ?_)⟩
    have point : (⟨10, leadingPlace (quanta place) - 1 - (0 : Nat)⟩ : Decimal).toRat =
        10 ^ leadingPlace (quanta place) := by
      rw [toRat_eq, Nat.cast_zero, Int.sub_zero, zpow_sub_one₀ (by norm_num)]
      push_cast
      field_simp
    rw [point]
    exact ⟨high.le, above⟩
  · rcases lt_or_ge decimal.toRat (10 ^ (leadingPlace (quanta place) - 1)) with below | inside'
    · refine ⟨0, 1, count, reads_back_between finite reads (Or.inl ?_)⟩
      have point : (⟨1, leadingPlace (quanta place) - 1 - (0 : Nat)⟩ : Decimal).toRat =
          10 ^ (leadingPlace (quanta place) - 1) := by
        rw [toRat_eq, Nat.cast_zero, Int.sub_zero, Nat.cast_one, one_mul]
      rw [point]
      exact ⟨below.le, low⟩
    · have few := (decimal.digitCount_le_iff count).mp le_rfl
      have size := toRat_lt_iff.mpr few
      have fits := (zpow_lt_zpow_iff_right₀ (by norm_num)).mp (inside'.trans_lt size)
      obtain ⟨finer, exponent⟩ := Int.eq_ofNat_of_zero_le
        (show 0 ≤ decimal.exponent - (leadingPlace (quanta place) - decimal.digitCount) by omega)
      have grid : leadingPlace (quanta place) - 1 - (decimal.digitCount - 1 : Nat) =
          decimal.exponent - finer := by omega
      have same : (⟨decimal.digits * 10 ^ finer,
          leadingPlace (quanta place) - 1 - (decimal.digitCount - 1 : Nat)⟩ : Decimal).toRat =
          decimal.toRat := by
        rw [grid, toRat_eq, toRat_eq, zpow_sub₀ (by norm_num), zpow_natCast]
        push_cast
        field_simp
      refine ⟨decimal.digitCount - 1, decimal.digits * 10 ^ finer, by omega, ?_, ?_⟩
      · rw [rank_congr same, reads]
      · rw [same]

theorem exists_near_point (place : Nat) (exponent : Int) :
    ∃ digits, 2 * |(⟨digits, exponent⟩ : Decimal).toRat - magnitude place| ≤ 10 ^ exponent := by
  obtain ⟨below, above⟩ := grid_between place exponent
  have width : (gridAbove place exponent).toRat =
      (gridBelow place exponent).toRat + 10 ^ exponent := by
    rw [toRat_eq, toRat_eq, gridAbove, gridBelow]
    push_cast
    ring
  rcases le_total (2 * magnitude place)
    ((gridBelow place exponent).toRat + (gridAbove place exponent).toRat) with front | back
  · refine ⟨gridFloor place exponent, ?_⟩
    change 2 * |(gridBelow place exponent).toRat - magnitude place| ≤ _
    rw [abs_of_nonpos (by linarith)]
    linarith
  · refine ⟨gridFloor place exponent + 1, ?_⟩
    change 2 * |(gridAbove place exponent).toRat - magnitude place| ≤ _
    rw [abs_of_nonneg (by linarith)]
    linarith

/-- Seventeen digits tell a value from all others: half a step of that grid is less than half the
distance to the values next to it. -/
theorem seventeen_digits_suffice (nonzero : place ≠ 0) (finite : place < infinityRank) :
    ∃ digits, (⟨digits, leadingPlace (quanta place) - 1 - (16 : Nat)⟩ : Decimal).rank = place := by
  obtain ⟨low, _⟩ := leadingPlace_bounds nonzero finite
  let exponent := leadingPlace (quanta place) - 1 - (16 : Nat)
  have step : (10 : ℚ) ^ 16 * 10 ^ exponent ≤ magnitude place := by
    rw [← zpow_natCast, ← zpow_add₀ (by norm_num)]
    convert low using 2
    omega
  obtain ⟨digits, close⟩ := exists_near_point place exponent
  refine ⟨digits, rank_eq_iff.mpr ?_⟩
  have strictly (other : Nat) (different : other ≠ place) :
      |magnitude place - (⟨digits, exponent⟩ : Decimal).toRat| <
        |magnitude other - (⟨digits, exponent⟩ : Decimal).toRat| := by
    have gap := magnitude_le_gap different
    have triangle := abs_sub_le (magnitude other) (⟨digits, exponent⟩ : Decimal).toRat
      (magnitude place)
    rw [abs_sub_comm (magnitude place)]
    norm_num at gap step
    linarith [ten_zpow_pos exponent]
  refine ⟨finite.le, ?_, ?_⟩
  · intro other _
    rcases eq_or_ne other place with rfl | different
    · exact le_rfl
    · exact (strictly other different).le
  · intro other _ different equal
    exact ((strictly other different).ne equal).elim

/-- The points next to a value have few digits, or are the power of ten after them. -/
theorem beside_digits_le {decimal : Decimal} {others : Nat} (nonzero : place ≠ 0)
    (finite : place < infinityRank)
    (beside : decimal = gridBelow place (leadingPlace (quanta place) - 1 - (others : Nat)) ∨
      decimal = gridAbove place (leadingPlace (quanta place) - 1 - (others : Nat))) :
    decimal.digits ≤ 10 ^ (others + 1) := by
  obtain ⟨_, high⟩ := leadingPlace_bounds nonzero finite
  obtain ⟨below, _⟩ := grid_between place (leadingPlace (quanta place) - 1 - (others : Nat))
  have floor : gridFloor place (leadingPlace (quanta place) - 1 - (others : Nat)) <
      10 ^ (others + 1) := by
    have places : leadingPlace (quanta place) =
        (others + 1 : Nat) + (leadingPlace (quanta place) - 1 - (others : Nat)) := by omega
    exact toRat_lt_iff.mp (below.trans_lt (high.trans_eq (congrArg (10 ^ ·) places)))
  rcases beside with rfl | rfl
  · exact floor.le
  · exact floor

theorem digitCount_tidy_le {decimal : Decimal} {others : Nat}
    (few : decimal.digits ≤ 10 ^ (others + 1)) : decimal.tidy.digitCount ≤ others + 1 := by
  rw [digitCount_le_iff _ (Nat.succ_pos others), tidy]
  split
  case isTrue divisible =>
    have power := Nat.pow_pos (n := others + 1) (show 0 < 10 by decide)
    change decimal.digits / 10 < _
    omega
  case isFalse odd =>
    refine Nat.lt_of_le_of_ne few ?_
    intro power
    rw [power, Nat.pow_succ, Nat.mul_mod_left] at odd
    exact odd rfl

/-- The shortest decimal of a value was found on some grid, on every coarser one no point reads
back, and it has no more digits than the points of that grid in front of the value. -/
theorem shortest_on_grid (nonzero : place ≠ 0) (finite : place < infinityRank) :
    ∃ others : Nat, (shortest place).digitCount ≤ others + 1 ∧
      (∀ fewer < others, ∀ digits : Nat,
        (⟨digits, leadingPlace (quanta place) - 1 - (fewer : Nat)⟩ : Decimal).rank ≠ place) ∧
      ∀ digits : Nat,
        (⟨digits, leadingPlace (quanta place) - 1 - (others : Nat)⟩ : Decimal).rank = place →
        |(shortest place).toRat - magnitude place| ≤
          |(⟨digits, leadingPlace (quanta place) - 1 - (others : Nat)⟩ : Decimal).toRat -
            magnitude place| := by
  have silent {exponent : Int} (missed : onGrid? place exponent = none) (digits : Nat) :
      (⟨digits, exponent⟩ : Decimal).rank ≠ place := by
    have picks := onGrid?_picks exponent finite
    rw [missed] at picks
    cases picks with
    | nothing silent => exact silent digits
  cases found : onCoarsestGrid? place with
  | none =>
      have missed := List.findSome?_eq_none_iff.mp found 16 (List.mem_range.mpr (by decide))
      obtain ⟨digits, reads⟩ := seventeen_digits_suffice nonzero finite
      exact (silent missed digits reads).elim
  | some decimal =>
      obtain ⟨others, hit, _, missed⟩ := hit_on_coarsest found
      have tidied : shortest place = decimal.tidy := by
        rw [shortest, if_neg nonzero, found, Option.map_some, Option.getD_some]
      have picks := onGrid?_picks (leadingPlace (quanta place) - 1 - (others : Nat)) finite
      rw [hit] at picks
      cases picks with
      | point beside nearest =>
          refine ⟨others, ?_, fun fewer less => silent (missed fewer less), ?_⟩
          · rw [tidied]
            exact digitCount_tidy_le (beside_digits_le nonzero finite beside)
          · rw [tidied, toRat_tidy]
            exact nearest

/-- A decimal that reads back as the value of a rank, with the fewest digits of those that do, and
the nearest to the value of those with that few. -/
structure IsShortest (decimal : Decimal) (place : Nat) : Prop where
  readsBack : decimal.rank = place
  fewest : ∀ other : Decimal, other.rank = place → decimal.digitCount ≤ other.digitCount
  nearest : ∀ other : Decimal, other.rank = place → other.digitCount = decimal.digitCount →
    |decimal.toRat - magnitude place| ≤ |other.toRat - magnitude place|

theorem isShortest_shortest (finite : place < infinityRank) :
    IsShortest (shortest place) place := by
  rcases Nat.eq_zero_or_pos place with rfl | positive
  · have zero : shortest 0 = ⟨0, 0⟩ := by rw [shortest, if_pos rfl]
    have exact : (⟨0, 0⟩ : Decimal).toRat = magnitude 0 := by
      rw [toRat_eq, Nat.cast_zero, zero_mul, magnitude_zero]
    refine ⟨rank_shortest finite, ?_, ?_⟩
    · intro other _
      rw [zero]
      exact other.digitCount_pos
    · intro other _ _
      rw [zero, exact, sub_self, abs_zero]
      exact abs_nonneg _
  · have nonzero := Nat.ne_of_gt positive
    obtain ⟨others, few, missed, nearest⟩ := shortest_on_grid nonzero finite
    have coarsest {grid digits : Nat}
        (readsBack : (⟨digits, leadingPlace (quanta place) - 1 - (grid : Nat)⟩ : Decimal).rank =
          place) : others ≤ grid :=
      Nat.not_lt.mp fun less => missed grid less digits readsBack
    refine ⟨rank_shortest finite, ?_, ?_⟩
    · intro other reads
      obtain ⟨grid, digits, fits, readsBack, _⟩ := grid_of_reads nonzero finite reads
      have := coarsest readsBack
      omega
    · intro other reads same
      obtain ⟨grid, digits, fits, readsBack, closer⟩ := grid_of_reads nonzero finite reads
      have := coarsest readsBack
      obtain rfl : grid = others := by omega
      exact (nearest digits readsBack).trans closer

end Calculator.Decimal
