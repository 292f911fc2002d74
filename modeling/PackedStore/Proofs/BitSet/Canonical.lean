import PackedStore.Proofs.BitSet.Effect

/-!
# Bit sets are told apart by their bits

A well-formed set is stored in the words that its length needs, with zeros behind the length. So two
such sets with the same length and the same bits have the same words, whichever updates they came
from.
-/

namespace PackedStore

/-- Two words are equal if they hold the same bits. -/
theorem Word.eq_of_testBit_eq {left right : Word}
    (same : ∀ offset, offset < width → left.testBit offset = right.testBit offset) :
    left = right := by
  rw [← UInt64.toBitVec_inj]
  apply BitVec.eq_of_getLsbD_eq
  intro offset inside
  have here : offset % width = offset := Nat.mod_eq_of_lt inside
  have bit_eq := same offset inside
  rwa [testBit_eq, testBit_eq, here] at bit_eq

namespace BitSet

theorem sameBits_iff {left right : BitSet} :
    left.sameBits right = true ↔ left.length = right.length ∧ left.words = right.words := by
  rw [sameBits, Bool.and_eq_true, beq_iff_eq, beq_iff_eq]

/-- Two well-formed sets with the same length and the same bits have the same words. -/
theorem WellFormed.words_eq {left right : BitSet} (leftWellFormed : left.WellFormed)
    (rightWellFormed : right.WellFormed) (length_eq : left.length = right.length)
    (bit_eq : ∀ index, left.bit index = right.bit index) : left.words = right.words := by
  have size_eq : left.words.size = right.words.size := by
    rw [leftWellFormed.size_words, rightWellFormed.size_words, length_eq]
  apply Array.ext size_eq
  intro place leftInside rightInside
  apply Word.eq_of_testBit_eq
  intro offset inside
  -- The bit at this offset of the word is the bit of the set at this position.
  have here : (Word.width * place + offset) / Word.width = place := by
    rw [Nat.mul_add_div Word.width_pos, Nat.div_eq_of_lt inside, Nat.add_zero]
  have there : (Word.width * place + offset) % Word.width = offset := by
    rw [Nat.mul_add_mod, Nat.mod_eq_of_lt inside]
  have same := bit_eq (Word.width * place + offset)
  simpa [bit, wordOrZero, here, there, leftInside, rightInside, Word.testBit_eq,
    Nat.mod_eq_of_lt inside] using same

section Results

variable {before other after result : BitSet} {length otherLength : Nat}
  {view otherView : Nat → Bool}

/-- Two updates that give the same length and bits give equal sets, whatever their limits. -/
theorem Becomes.sameBits (becomes : Becomes before after length view)
    (otherBecomes : Becomes other result otherLength otherView) (length_eq : length = otherLength)
    (view_eq : ∀ index, view index = otherView index) : after.sameBits result = true := by
  have lengths : after.length = result.length := by
    rw [becomes.length_eq, otherBecomes.length_eq, length_eq]
  refine sameBits_iff.mpr ⟨lengths, ?_⟩
  apply becomes.wellFormed.words_eq otherBecomes.wellFormed lengths
  intro index
  rw [becomes.bit_eq, otherBecomes.bit_eq, view_eq]

/-- Two updates that give the same limit, length and bits give the same set. -/
theorem Becomes.eq (becomes : Becomes before after length view)
    (otherBecomes : Becomes other result otherLength otherView)
    (limit_eq : before.limit = other.limit) (length_eq : length = otherLength)
    (view_eq : ∀ index, view index = otherView index) : after = result := by
  have limits : after.limit = result.limit := by
    rw [becomes.limit_eq, otherBecomes.limit_eq, limit_eq]
  obtain ⟨lengths, words⟩ := sameBits_iff.mp (becomes.sameBits otherBecomes length_eq view_eq)
  cases after
  cases result
  simp only at lengths limits words
  rw [lengths, limits, words]

end Results

end BitSet

end PackedStore
