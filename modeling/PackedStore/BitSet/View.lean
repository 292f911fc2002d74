import PackedStore.BitSet.Update
import PackedStore.Flags

/-!
# A bit set seen bit by bit

The view of a bit set is the function that gives the bit at every position, also beyond the
length. This file states what well-formedness means for the view and what a change of words does to
it.
-/

namespace PackedStore

namespace BitSet

/-- The bit at `index`, false beyond the storage. -/
def bit (bits : BitSet) (index : Nat) : Bool :=
  (bits.wordOrZero (index / Word.width)).testBit index

/-- The bits of a set, one flag to a position. -/
def toFlags (bits : BitSet) : Flags :=
  ⟨(List.range bits.length).map bits.bit⟩

/-- A set has the words that its length needs, no true bit beyond its length, and no more bits than
its limit permits. -/
structure WellFormed (bits : BitSet) : Prop where
  /-- The storage is exactly as long as needed. -/
  size_words : bits.words.size = Word.needed bits.length
  /-- Bits beyond the length are false. -/
  bit_eq_false : ∀ index, bits.length ≤ index → bits.bit index = false
  /-- The length keeps to the limit. -/
  length_le : bits.length ≤ bits.limit.maxLength

/-! ## Places -/

theorem place_lt_needed {index length : Nat} (inside : index < length) :
    index / Word.width < Word.needed length := by
  simp only [Word.needed, Word.width]
  omega

theorem WellFormed.place_lt {bits : BitSet} (wellFormed : bits.WellFormed) {index : Nat}
    (inside : index < bits.length) : index / Word.width < bits.words.size := by
  rw [wellFormed.size_words]
  exact place_lt_needed inside

/-! ## Queries -/

theorem wordAt_eq {bits : BitSet} {place : Nat} (inside : place < bits.words.size) :
    bits.wordAt place = .ok (bits.wordOrZero place) := by
  simp [wordAt, wordOrZero, inside]

/-- Reading a bit inside the length gives the bit of the view. -/
theorem WellFormed.get_of_lt {bits : BitSet} (wellFormed : bits.WellFormed) {index : Nat}
    (inside : index < bits.length) : bits.get index = .ok (bits.bit index) := by
  rw [get, if_neg (Nat.not_le.mpr inside), wordAt_eq (wellFormed.place_lt inside)]
  rfl

theorem get_of_le {bits : BitSet} {index : Nat} (outside : bits.length ≤ index) :
    bits.get index = .error (.outOfRange index bits.length) :=
  if_pos outside

/-! ## Making -/

theorem zeros_eq_ok_iff {length : Nat} {limit : Limit} {bits : BitSet} :
    zeros length limit = .ok bits ↔
      length ≤ limit.maxLength ∧
        bits = ⟨Array.replicate (Word.needed length) 0, length, limit⟩ := by
  unfold zeros
  split
  · next above => simp [Nat.not_le.mpr above]
  · next within => simp [Nat.not_lt.mp within, eq_comm]

theorem bit_replicate_zero (count length index : Nat) (limit : Limit) :
    (⟨Array.replicate count 0, length, limit⟩ : BitSet).bit index = false := by
  simp only [bit, wordOrZero, Array.getElem?_replicate]
  split <;> simp

theorem wellFormed_zeros {length : Nat} {limit : Limit} {bits : BitSet}
    (made : zeros length limit = .ok bits) : bits.WellFormed := by
  obtain ⟨within, rfl⟩ := zeros_eq_ok_iff.mp made
  exact ⟨Array.size_replicate, fun index _ => bit_replicate_zero _ _ index _, within⟩

/-! ## Changes of words -/

theorem changeWord_of_lt {bits : BitSet} {place : Nat} {change : Word → Word}
    (inside : place < bits.words.size) :
    changeWord place change bits =
      .ok () { bits with words := bits.words.set place (change bits.words[place]) } :=
  dif_pos inside

theorem bit_changeWord {before after : BitSet} {place : Nat} {change : Word → Word}
    (done : changeWord place change before = .ok () after) (index : Nat) :
    after.bit index =
      if index / Word.width = place then
        (change (before.wordOrZero place)).testBit index
      else
        before.bit index := by
  unfold changeWord at done
  split at done
  · next inside =>
      obtain rfl := (EStateM.Result.ok.inj done).2
      by_cases here : index / Word.width = place
      · simp [bit, wordOrZero, here, inside]
      · have other : ¬place = index / Word.width := fun same => here same.symm
        simp [bit, wordOrZero, here, other]
  · exact nomatch done

theorem bit_changeWords {before after : BitSet} {change : Nat → Word → Word}
    (done : changeWords change before = .ok () after) {index : Nat}
    (inside : index / Word.width < before.words.size) :
    after.bit index =
      (change (index / Word.width) (before.wordOrZero (index / Word.width))).testBit index := by
  obtain rfl := (EStateM.Result.ok.inj done).2
  simp [bit, wordOrZero, inside]

end BitSet

end PackedStore
