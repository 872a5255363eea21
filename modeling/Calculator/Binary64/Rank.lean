/-!
Binary64 values by their place in the order.

Lay the nonnegative values out from zero to infinity and number them: the number of a
value is its rank, and it is also the low 63 bits of its word. Next to the sign, the rank is
therefore all there is to a value. What a rank measures is a whole number of quanta of
`2 ^ -1074`, so every question about a finite value is a question about natural numbers.

Powers of natural numbers are those of core, here and wherever ranks are computed with, whatever
else is imported.
-/

set_option autoImplicit false

namespace Calculator.Binary64

attribute [local instance (high)] instPowNat

/-- How many ranks share one step: two to the power `fractionBits`. -/
def blockSize : Nat := 0x10000000000000

def fractionBits : Nat := 52

/-- What the sign bit adds to a word: two to the power 63. -/
def signWeight : Nat := 0x8000000000000000

/-- The rank of infinity. Below it are the finite values, above it the words that are not a
number. -/
def infinityRank : Nat := 2047 * blockSize

/-- A quantum is one half this many times over. -/
def quantumPlaces : Nat := 1074

def quantaPerUnit : Nat := 2 ^ quantumPlaces

theorem quantaPerUnit_pos : 0 < quantaPerUnit := Nat.two_pow_pos quantumPlaces

theorem blockSize_eq : blockSize = 2 ^ fractionBits := by decide

/-- The quanta that a finite rank stands for. The ranks of the first block count single quanta;
block `b` after it begins at `blockSize` steps of `2 ^ (b - 1)` quanta. -/
def quanta (rank : Nat) : Nat :=
  if rank < blockSize then rank
  else (blockSize + rank % blockSize) * 2 ^ (rank / blockSize - 1)

def isNegative (value : Float) : Bool := decide (signWeight ≤ value.toBits.toNat)

/-- The place of the magnitude of a value in the order. -/
def rank (value : Float) : Nat := value.toBits.toNat % signWeight

def isInfinite (value : Float) : Bool := decide (rank value = infinityRank)

def isNaN (value : Float) : Bool := decide (infinityRank < rank value)

/-- The word of a sign and a rank. Ranks beyond infinity are cut down to it. -/
def word (negative : Bool) (rank : Nat) : UInt64 :=
  UInt64.ofNat (min rank infinityRank + if negative then signWeight else 0)

theorem word_toNat (negative : Bool) (rank : Nat) :
    (word negative rank).toNat = min rank infinityRank + if negative then signWeight else 0 := by
  have bound : min rank infinityRank ≤ infinityRank := Nat.min_le_right ..
  rw [word, UInt64.toNat_ofNat']
  cases negative <;> simp only [Bool.false_eq_true, if_true, if_false, signWeight, infinityRank,
    blockSize] at bound ⊢ <;> omega

/-- A word whose low bits do not pass infinity is a datum of the format: with all exponent bits
set there is no room for a fraction. -/
theorem valid_of_low_bits_le (word : UInt64) (low : word.toNat % signWeight ≤ infinityRank) :
    Float.Model.Format.binary64.Valid word.toBitVec := by
  refine ⟨fun exponent mantissa => (mantissa ?_).elim⟩
  have exponent := congrArg BitVec.toNat exponent
  apply BitVec.eq_of_toNat_eq
  simp only [Float.Model.UnpackedFloat.unpackExponent, Float.Model.UnpackedFloat.unpackMantissa,
    BitVec.toNat_cast, BitVec.extractLsb_toNat] at exponent ⊢
  simp [Nat.shiftRight_eq_div_pow] at exponent ⊢
  unfold infinityRank signWeight blockSize at low
  omega

theorem word_valid (negative : Bool) (rank : Nat) :
    Float.Model.Format.binary64.Valid (word negative rank).toBitVec := by
  apply valid_of_low_bits_le
  have bound : min rank infinityRank ≤ infinityRank := Nat.min_le_right ..
  rw [word_toNat]
  cases negative <;> simp only [Bool.false_eq_true, if_true, if_false, signWeight, infinityRank,
    blockSize] at bound ⊢ <;> omega

def ofRank (negative : Bool) (rank : Nat) : Float := .ofModel ⟨word negative rank, word_valid ..⟩

def infinity (negative : Bool) : Float := ofRank negative infinityRank

def zero (negative : Bool) : Float := ofRank negative 0

def nan : Float := .ofBits 0x7FF8000000000000

theorem toBits_ofRank (negative : Bool) (rank : Nat) :
    (ofRank negative rank).toBits = word negative rank := rfl

theorem rank_ofRank (negative : Bool) (place : Nat) :
    rank (ofRank negative place) = min place infinityRank := by
  have bound : min place infinityRank ≤ infinityRank := Nat.min_le_right ..
  rw [rank, toBits_ofRank, word_toNat]
  cases negative <;> simp only [Bool.false_eq_true, if_true, if_false, signWeight, infinityRank,
    blockSize] at bound ⊢ <;> omega

theorem isNegative_ofRank (negative : Bool) (place : Nat) :
    isNegative (ofRank negative place) = negative := by
  have bound : min place infinityRank ≤ infinityRank := Nat.min_le_right ..
  rw [isNegative, toBits_ofRank, word_toNat]
  cases negative <;> simp only [Bool.false_eq_true, if_true, if_false, decide_eq_true_eq,
    decide_eq_false_iff_not, signWeight, infinityRank, blockSize] at bound ⊢ <;> omega

theorem eq_of_toBits_eq {left right : Float} (same : left.toBits = right.toBits) :
    left = right := by
  obtain ⟨⟨left, _⟩⟩ := left
  obtain ⟨⟨right, _⟩⟩ := right
  have : left = right := same
  subst this
  rfl

theorem ofRank_rank {value : Float} (number : isNaN value = false) :
    ofRank (isNegative value) (rank value) = value := by
  apply eq_of_toBits_eq
  rw [toBits_ofRank]
  apply UInt64.toNat_inj.mp
  rw [word_toNat]
  have width := value.toBits.toNat_lt
  have number : rank value ≤ infinityRank := Nat.not_lt.mp (of_decide_eq_false number)
  rw [Nat.min_eq_left number]
  simp only [isNegative, rank]
  by_cases sign : signWeight ≤ value.toBits.toNat <;> simp only [sign, decide_true, decide_false,
    Bool.false_eq_true, if_true, if_false] <;> unfold signWeight at sign ⊢ <;> omega

end Calculator.Binary64
