import Mathlib.Data.List.Sort
import PackedStore.Proofs.BitSet.Enumeration
import PackedStore.Proofs.BitSet.Refusal
import PackedStore.Sampling.Draw

/-!
# Sets of drawn positions

Positions are drawn below the length of a set and marked in it. Nothing can go wrong but the length:
a set without bits has no positions to draw, and one beyond the limit is not made. What comes out
has the drawn positions for its true bits, however often each of them was drawn.
-/

namespace PackedStore

namespace BitSet

variable {bits : BitSet} {drawn : List Nat}

/-- The listed positions are those that were drawn, in order and without repetitions. -/
theorem WellFormed.positions_eq_mergeSort (wellFormed : bits.WellFormed)
    (marked : ∀ index, bits.bit index = true ↔ index ∈ drawn) :
    bits.positions = drawn.dedup.mergeSort := by
  have same : bits.positions.Perm drawn.dedup := by
    rw [List.perm_ext_iff_of_nodup wellFormed.pairwise_positions.nodup drawn.nodup_dedup]
    intro index
    rw [wellFormed.mem_positions, marked, List.mem_dedup]
  have ascending : bits.positions.Pairwise (· ≤ ·) :=
    wellFormed.pairwise_positions.imp Nat.le_of_lt
  exact (same.trans (List.mergeSort_perm _ _).symm).eq_of_pairwise' ascending
    (List.pairwise_mergeSort' _ _)

end BitSet

namespace Sampling

/-- What a set of `length` bits shows in which `count` drawn positions are marked. -/
structure ShowsDrawn (length count : Nat) (drawn : List Nat) (bits : BitSet) : Prop where
  /-- It has as many bits as asked. -/
  length_eq : bits.length = length
  /-- Every drawn position is one of the set's. -/
  drawn_lt : ∀ index ∈ drawn, index < length
  /-- A bit reads true exactly if its position was drawn. -/
  get_eq : ∀ index < length, bits.get index = .ok (decide (index ∈ drawn))
  /-- Its positions are the drawn ones, in order and without repetitions. -/
  positions_eq : bits.positions = drawn.dedup.mergeSort
  /-- It counts each drawn position once. -/
  cardinality_eq : bits.cardinality = drawn.dedup.length
  /-- There are no more of them than were drawn, and no more than the set has bits. -/
  cardinality_le : bits.cardinality ≤ min count length
  /-- If any were drawn, there is one. -/
  cardinality_pos : 0 < count → 0 < bits.cardinality

theorem showsDrawn {bits : BitSet} {drawn : List Nat} (wellFormed : bits.WellFormed)
    (inside : ∀ index ∈ drawn, index < bits.length)
    (marked : ∀ index, bits.bit index = decide (index ∈ drawn)) :
    ShowsDrawn bits.length drawn.length drawn bits := by
  have positions_eq : bits.positions = drawn.dedup.mergeSort :=
    wellFormed.positions_eq_mergeSort fun index => by rw [marked, decide_eq_true_iff]
  have cardinality_eq : bits.cardinality = drawn.dedup.length := by
    rw [← wellFormed.length_positions, positions_eq, List.length_mergeSort]
  have no_more_drawn : bits.cardinality ≤ drawn.length := by
    rw [cardinality_eq]
    exact drawn.dedup_sublist.length_le
  have no_more_bits : bits.cardinality ≤ bits.length := by
    rw [← wellFormed.length_positions, wellFormed.positions_eq_filter]
    exact (List.length_filter_le _ _).trans_eq List.length_range
  refine ⟨rfl, inside, ?_, positions_eq, cardinality_eq, le_min no_more_drawn no_more_bits, ?_⟩
  · intro index within
    rw [wellFormed.get_of_lt within, marked]
  · intro some_drawn
    obtain ⟨index, member⟩ := List.length_pos_iff_exists_mem.mp some_drawn
    rw [cardinality_eq]
    exact List.length_pos_of_mem (List.mem_dedup.mpr member)

variable {words : Stream} {length count : Nat}

/-- Positions are drawn from a range that is not empty. -/
theorem exists_positions (words : Stream) (count : Nat) {bound : Nat} (positive : 0 < bound) :
    ∃ drawn, positions words count bound = .ok drawn ∧ drawn.length = count ∧
      ∀ index ∈ drawn, index < bound := by
  refine ⟨_, if_neg (Nat.ne_of_gt positive), ?_, ?_⟩
  · rw [List.length_map, List.length_range]
  · intro index member
    obtain ⟨number, -, rfl⟩ := List.mem_map.mp member
    exact Nat.mod_lt _ positive

theorem scattered_zero : scattered words 0 count = .error .zeroBound := rfl

theorem scattered_of_lt (above : UInt32.size - 1 < length) :
    scattered words length count = .error (.length (.limitExceeded length (UInt32.size - 1))) := by
  have refused : BitSet.zeros length {} = .error (.limitExceeded length (UInt32.size - 1)) :=
    if_pos above
  rw [scattered, refused]
  rfl

theorem scattered_of_le (positive : 0 < length) (within : length ≤ UInt32.size - 1) :
    ∃ drawn bits, positions words count length = .ok drawn ∧
      scattered words length count = .ok bits ∧ ShowsDrawn length count drawn bits := by
  obtain ⟨drawn, drew, rfl, inside⟩ := exists_positions words count positive
  have made : BitSet.zeros length {} = .ok _ := BitSet.zeros_eq_ok_iff.mpr ⟨within, rfl⟩
  obtain ⟨bits, marked, becomes⟩ :=
    BitSet.setAll_of_forall_lt (BitSet.wellFormed_zeros made) inside
  obtain rfl : bits.length = length := becomes.length_eq
  refine ⟨drawn, bits, drew, ?_, showsDrawn becomes.wellFormed inside fun index => ?_⟩
  · simp only [scattered, made, drew, marked, Except.mapError, EStateM.run, bind, Except.bind, pure,
      Except.pure]
  · rw [becomes.bit_eq, BitSet.bit_replicate_zero, Bool.if_true_left, Bool.or_false]

/-- For every stream, a set of drawn positions fails to be made exactly if its length is zero or
above the limit, each with an error of its own and however few positions are asked for, and never
for a drawn position. Otherwise it shows what was drawn. -/
theorem scattered_shows_drawn (words : Stream) (length count : Nat) :
    (∀ error, scattered words length count = .error error ↔
        length = 0 ∧ error = .zeroBound ∨
          UInt32.size - 1 < length ∧
            error = .length (.limitExceeded length (UInt32.size - 1))) ∧
      (0 < length → length ≤ UInt32.size - 1 →
        ∃ drawn bits, positions words count length = .ok drawn ∧
          scattered words length count = .ok bits ∧ ShowsDrawn length count drawn bits) := by
  refine ⟨fun error => ?_, scattered_of_le⟩
  rcases Nat.eq_zero_or_pos length with rfl | positive
  · rw [scattered_zero, Except.error.injEq]
    refine ⟨fun same => .inl ⟨rfl, same.symm⟩, ?_⟩
    rintro (⟨-, same⟩ | ⟨above, -⟩)
    · exact same.symm
    · exact absurd above (Nat.not_lt_zero _)
  · rcases Nat.lt_or_ge (UInt32.size - 1) length with above | within
    · rw [scattered_of_lt above, Except.error.injEq]
      refine ⟨fun same => .inr ⟨above, same.symm⟩, ?_⟩
      rintro (⟨zero, -⟩ | ⟨-, same⟩)
      · exact absurd zero (Nat.ne_of_gt positive)
      · exact same.symm
    · obtain ⟨drawn, bits, -, made, -⟩ := scattered_of_le positive within
      rw [made]
      refine ⟨nofun, ?_⟩
      rintro (⟨zero, -⟩ | ⟨above, -⟩)
      · exact absurd zero (Nat.ne_of_gt positive)
      · exact absurd above (Nat.not_lt.mpr within)

/-- Four draws below seventy, of which two are the same and one needs the upper half of its
number. -/
theorem scattered_shows_four_draws :
    let words : Stream := fun number => [69, 0, 3, 0, 69, 0, 0, 1].getD number 0
    0 < 70 ∧ 70 ≤ UInt32.size - 1 ∧ positions words 4 70 = .ok [69, 3, 69, 46] ∧
      ∃ bits, scattered words 70 4 = .ok bits ∧ bits.length = 70 ∧
        bits.positions = [3, 46, 69] ∧ bits.cardinality = 3 := by
  intro words
  have drew : positions words 4 70 = .ok [69, 3, 69, 46] := by decide
  obtain ⟨drawn, bits, drew', made, shows⟩ :=
    (scattered_shows_drawn words 70 4).2 (by decide) (by decide)
  obtain rfl : [69, 3, 69, 46] = drawn := Except.ok.inj (drew.symm.trans drew')
  refine ⟨by decide, by decide, drew, bits, made, shows.length_eq, ?_, shows.cardinality_eq⟩
  rw [shows.positions_eq, List.mergeSort_eq_insertionSort (· ≤ ·)]
  decide

end Sampling

end PackedStore
