/-!
# Words of packed bits

A word holds the bits of sixty-four consecutive positions, the lowest position in the least
significant bit. Every function here takes a position of the whole sequence and uses its place
inside the word, `position % 64`.
-/

namespace PackedStore

/-- Sixty-four consecutive bits, the lowest position in the least significant bit. -/
abbrev Word := UInt64

namespace Word

/-- The number of bits in one word. -/
def width : Nat := 64

/-- The number of words that hold `length` bits. -/
def needed (length : Nat) : Nat :=
  (length + (width - 1)) / width

/-- The word that holds a one at every place. -/
def full : Word := ~~~0

/-- The word whose only one is at the place of `position`. -/
def single (position : Nat) : Word :=
  1 <<< UInt64.ofNat (position % width)

/-- Ones at the place of `position` and at every higher place. -/
def upward (position : Nat) : Word :=
  full <<< UInt64.ofNat (position % width)

/-- Ones at the place of `position` and at every lower place. -/
def downward (position : Nat) : Word :=
  full >>> UInt64.ofNat (width - 1 - position % width)

/-- Whether the word holds a one at the place of `position`. -/
def testBit (word : Word) (position : Nat) : Bool :=
  word &&& single position != 0

/-- The places of a word, lowest first. -/
def places : List Nat :=
  List.range width

/-- The number of ones in a word. -/
def popCount (word : Word) : Nat :=
  if word = 0 then 0 else places.countP word.testBit

/-- The place of the lowest one, or `none` for the zero word. -/
def lowest? (word : Word) : Option Nat :=
  if word = 0 then none else places.find? word.testBit

/-- The word without its lowest one. -/
def clearLowest (word : Word) : Word :=
  word &&& (word - 1)

/-! ## What each word holds -/

theorem width_pos : 0 < width := by decide

theorem toNat_place (position : Nat) :
    (UInt64.ofNat (position % width)).toNat = position % width := by
  rw [UInt64.toNat_ofNat']
  apply Nat.mod_eq_of_lt
  have := Nat.mod_lt position width_pos
  simp only [width] at *
  omega

theorem toBitVec_single (position : Nat) :
    (single position).toBitVec = BitVec.twoPow 64 (position % width) := by
  have small := Nat.mod_lt position width_pos
  apply BitVec.eq_of_toNat_eq
  simp only [single]
  rw [UInt64.toNat_toBitVec, UInt64.toNat_shiftLeft, toNat_place, BitVec.toNat_twoPow]
  simp only [width] at *
  rw [Nat.mod_eq_of_lt small, UInt64.toNat_one, Nat.one_shiftLeft]

/-- Testing a bit reads the bit at its place. -/
theorem testBit_eq (word : Word) (position : Nat) :
    word.testBit position = word.toBitVec.getLsbD (position % width) := by
  have small := Nat.mod_lt position width_pos
  have positive : BitVec.twoPow 64 (position % width) ≠ 0#64 := by
    intro zero
    have := congrArg (·.getLsbD (position % width)) zero
    simp [BitVec.getLsbD_twoPow] at this
    simp [width] at *
    omega
  rw [testBit, bne, Bool.not_eq_eq_eq_not]
  rw [Bool.eq_iff_iff]
  simp only [beq_iff_eq, ← UInt64.toBitVec_inj, UInt64.toBitVec_and, toBitVec_single,
    BitVec.and_twoPow]
  by_cases bit : word.toBitVec.getLsbD (position % width)
  · simp [bit, positive]
  · simp [bit]

@[simp] theorem testBit_zero (position : Nat) : testBit 0 position = false := by
  simp [testBit_eq]

@[simp] theorem testBit_or (left right : Word) (position : Nat) :
    testBit (left ||| right) position = (left.testBit position || right.testBit position) := by
  simp [testBit_eq]

@[simp] theorem testBit_and (left right : Word) (position : Nat) :
    testBit (left &&& right) position = (left.testBit position && right.testBit position) := by
  simp [testBit_eq]

@[simp] theorem testBit_xor (left right : Word) (position : Nat) :
    testBit (left ^^^ right) position = (left.testBit position ^^ right.testBit position) := by
  simp [testBit_eq]

@[simp] theorem testBit_complement (word : Word) (position : Nat) :
    testBit (~~~word) position = !word.testBit position := by
  have small : position % width < 64 := Nat.mod_lt position width_pos
  simp [testBit_eq, small]

@[simp] theorem testBit_single (marked position : Nat) :
    testBit (single marked) position = decide (marked % width = position % width) := by
  have small : position % width < 64 := Nat.mod_lt position width_pos
  simp [testBit_eq, toBitVec_single, small]
  omega

theorem toBitVec_upward (start : Nat) :
    (upward start).toBitVec = BitVec.allOnes 64 <<< (start % width) := by
  have small : start % width < 64 := Nat.mod_lt start width_pos
  apply BitVec.eq_of_toNat_eq
  rw [upward, UInt64.toNat_toBitVec, UInt64.toNat_shiftLeft, toNat_place, BitVec.toNat_shiftLeft,
    Nat.mod_eq_of_lt small]
  rfl

theorem toBitVec_downward (last : Nat) :
    (downward last).toBitVec = BitVec.allOnes 64 >>> (width - 1 - last % width) := by
  have small : width - 1 - last % width < 64 := by
    simp only [width]
    omega
  have place : (UInt64.ofNat (width - 1 - last % width)).toNat = width - 1 - last % width := by
    rw [UInt64.toNat_ofNat', Nat.mod_eq_of_lt (by omega)]
  apply BitVec.eq_of_toNat_eq
  rw [downward, UInt64.toNat_toBitVec, UInt64.toNat_shiftRight, place, BitVec.toNat_ushiftRight,
    Nat.mod_eq_of_lt small]
  rfl

@[simp] theorem testBit_upward (start position : Nat) :
    testBit (upward start) position = decide (start % width ≤ position % width) := by
  have small : position % width < 64 := Nat.mod_lt position width_pos
  rw [testBit_eq, toBitVec_upward, BitVec.getLsbD_shiftLeft, BitVec.getLsbD_allOnes,
    Bool.eq_iff_iff]
  simp only [small, decide_true, Bool.true_and, Bool.and_eq_true, Bool.not_eq_true',
    decide_eq_false_iff_not, decide_eq_true_eq]
  omega

@[simp] theorem testBit_downward (last position : Nat) :
    testBit (downward last) position = decide (position % width ≤ last % width) := by
  have small : position % width < 64 := Nat.mod_lt position width_pos
  have small' : last % width < 64 := Nat.mod_lt last width_pos
  rw [testBit_eq, toBitVec_downward, BitVec.getLsbD_ushiftRight, BitVec.getLsbD_allOnes,
    decide_eq_decide]
  simp only [width] at *
  omega

/-! ## The lowest one -/

theorem toNat_pos {word : Word} (nonzero : word ≠ 0) : 0 < word.toNat := by
  rcases Nat.eq_zero_or_pos word.toNat with zero | positive
  · exact absurd (UInt64.toNat_inj.mp (by simpa using zero)) nonzero
  · exact positive

theorem toNat_sub_one {word : Word} (nonzero : word ≠ 0) :
    (word - 1).toNat = word.toNat - 1 := by
  have positive : 1 ≤ word.toNat := toNat_pos nonzero
  rw [UInt64.toNat_sub_of_le _ _ (by simpa [UInt64.le_iff_toNat_le] using positive)]
  rfl

theorem toNat_clearLowest_lt {word : Word} (nonzero : word ≠ 0) :
    word.clearLowest.toNat < word.toNat := by
  rw [clearLowest, UInt64.toNat_and, toNat_sub_one nonzero]
  exact Nat.lt_of_le_of_lt Nat.and_le_right (Nat.sub_lt (toNat_pos nonzero) Nat.one_pos)

theorem ne_zero_of_lowest? {word : Word} {place : Nat} (found : word.lowest? = some place) :
    word ≠ 0 := by
  intro zero
  simp [lowest?, zero] at found

end Word

end PackedStore
