import Mathlib.Data.Finset.SymmDiff
import Mathlib.Order.Interval.Finset.Nat
import PackedStore.Proofs.BitSet.History
import PackedStore.Proofs.BitSet.Question

/-!
# Counting true bits

A bit set counts its true bits word by word. The count is that of the positions which read true, so
it follows the rules for finite sets: the conjunction and the disjunction of two sets count together
what the two sets count, and a flip exchanges the true and the false positions of its range.
-/

namespace PackedStore

theorem card_filter_range (view : Nat → Bool) (length : Nat) :
    {index ∈ Finset.range length | view index = true}.card = (List.range length).countP view := by
  have listed : {index ∈ Finset.range length | view index = true} =
      ((List.range length).filter view).toFinset := by
    ext index
    simp
  rw [listed, List.toFinset_card_of_nodup (List.nodup_range.filter view),
    List.countP_eq_length_filter]

/-- Two finite sets hold what only one of them holds, and twice what both hold. -/
theorem card_symmDiff_add (left right : Finset Nat) :
    (symmDiff left right).card + 2 * (left ∩ right).card = left.card + right.card := by
  have disjoint : Disjoint (left \ right) (right \ left) := disjoint_sdiff_sdiff
  have here := Finset.card_sdiff_add_card_inter left right
  have there := Finset.card_sdiff_add_card_inter right left
  rw [Finset.inter_comm] at there
  rw [symmDiff, Finset.sup_eq_union, Finset.card_union_of_disjoint disjoint]
  omega

namespace BitSet

/-! ## True positions -/

/-- The true positions of a set. -/
def ones (bits : BitSet) : Finset Nat :=
  {index ∈ Finset.range bits.length | bits.bit index = true}

section

variable {before other after : BitSet} {start stop length : Nat} {view : Nat → Bool}

theorem WellFormed.get_eq_ok_true_iff {bits : BitSet} (wellFormed : bits.WellFormed) (index : Nat) :
    bits.get index = .ok true ↔ bits.bit index = true := by
  rcases Nat.lt_or_ge index bits.length with inside | outside
  · rw [wellFormed.get_of_lt inside, Except.ok.injEq]
  · rw [get_of_le outside, wellFormed.bit_eq_false index outside]
    simp

theorem WellFormed.lt_length_of_bit {bits : BitSet} (wellFormed : bits.WellFormed) {index : Nat}
    (one : bits.bit index = true) : index < bits.length := by
  by_contra outside
  rw [wellFormed.bit_eq_false index (Nat.not_lt.mp outside)] at one
  exact nomatch one

theorem WellFormed.mem_ones {bits : BitSet} (wellFormed : bits.WellFormed) (index : Nat) :
    index ∈ bits.ones ↔ bits.bit index = true := by
  rw [ones, Finset.mem_filter, Finset.mem_range, and_iff_right_iff_imp]
  exact wellFormed.lt_length_of_bit

/-- A well-formed set counts its true positions. -/
theorem WellFormed.card_ones {bits : BitSet} (wellFormed : bits.WellFormed) :
    bits.ones.card = bits.cardinality := by
  rw [ones, card_filter_range, wellFormed.countP_bit]

/-! ## The ones of a result -/

theorem Becomes.mem_ones (becomes : Becomes before after length view) (index : Nat) :
    index ∈ after.ones ↔ view index = true := by
  rw [becomes.wellFormed.mem_ones, becomes.bit_eq]

theorem ones_of_intersect (wellFormed : before.WellFormed) (otherWellFormed : other.WellFormed)
    (becomes : Becomes before after length fun index => before.bit index && other.bit index) :
    after.ones = before.ones ∩ other.ones := by
  ext index
  rw [becomes.mem_ones, Finset.mem_inter, wellFormed.mem_ones, otherWellFormed.mem_ones,
    Bool.and_eq_true]

theorem ones_of_unite (wellFormed : before.WellFormed) (otherWellFormed : other.WellFormed)
    (becomes : Becomes before after length fun index => before.bit index || other.bit index) :
    after.ones = before.ones ∪ other.ones := by
  ext index
  rw [becomes.mem_ones, Finset.mem_union, wellFormed.mem_ones, otherWellFormed.mem_ones,
    Bool.or_eq_true]

theorem ones_of_flip (wellFormed : before.WellFormed)
    (becomes : Becomes before after length fun index =>
      before.bit index ^^ decide (start ≤ index ∧ index < stop)) :
    after.ones = symmDiff before.ones (Finset.Ico start stop) := by
  ext index
  rw [becomes.mem_ones, Finset.mem_symmDiff, wellFormed.mem_ones, Finset.mem_Ico]
  by_cases inside : start ≤ index ∧ index < stop
  · simp [inside]
  · simp [inside]

/-! ## The count of a result -/

/-- The conjunction and the disjunction with a set that the limit admits count together what the two
sets count. -/
theorem cardinality_intersect_add_unite (wellFormed : before.WellFormed)
    (otherWellFormed : other.WellFormed) (within : other.length ≤ before.limit.maxLength) :
    ∃ met joined, intersect other before = .ok () met ∧ unite other before = .ok () joined ∧
      met.cardinality + joined.cardinality = before.cardinality + other.cardinality := by
  obtain ⟨met, intersected, meets⟩ := intersect_of_le wellFormed otherWellFormed within
  obtain ⟨joined, united, joins⟩ := unite_of_le wellFormed otherWellFormed within
  refine ⟨met, joined, intersected, united, ?_⟩
  rw [← meets.wellFormed.card_ones, ← joins.wellFormed.card_ones, ← wellFormed.card_ones,
    ← otherWellFormed.card_ones, ones_of_intersect wellFormed otherWellFormed meets,
    ones_of_unite wellFormed otherWellFormed joins, Finset.card_inter_add_card_union]

/-- A flip counts each position of its range that was false, and no longer those that were true. -/
theorem cardinality_flip_add (wellFormed : before.WellFormed) (ordered : start ≤ stop)
    (within : stop ≤ before.limit.maxLength) :
    ∃ flipped, flip start stop before = .ok () flipped ∧
      flipped.cardinality + 2 * (before.ones ∩ Finset.Ico start stop).card =
        before.cardinality + (stop - start) := by
  obtain ⟨flipped, done, becomes⟩ := flip_of_le wellFormed ordered within
  refine ⟨flipped, done, ?_⟩
  rw [← becomes.wellFormed.card_ones, ← wellFormed.card_ones, ones_of_flip wellFormed becomes,
    card_symmDiff_add, Nat.card_Ico]

end

/-- At the end of every history, the count of true bits is the number of positions that read true;
the conjunction and the disjunction with another set that the limit admits count together what the
two sets count; and a flip within the limit adds the length of its range, less twice the number of
positions of the range that read true. -/
theorem cardinality_counts_get (history : History) :
    let bits := history.bits
    bits.cardinality = {index ∈ Finset.range bits.length | bits.get index = .ok true}.card ∧
      (∀ other : History, other.bits.length ≤ bits.limit.maxLength →
        ∃ met joined, (intersect other.bits).run bits = .ok () met ∧
          (unite other.bits).run (History.clone history).bits = .ok () joined ∧
          met.cardinality + joined.cardinality = bits.cardinality + other.bits.cardinality) ∧
      ∀ start stop, start ≤ stop → stop ≤ bits.limit.maxLength →
        ∃ flipped, (flip start stop).run bits = .ok () flipped ∧
          flipped.cardinality + 2 *
              {index ∈ Finset.Ico start stop | bits.get index = .ok true}.card =
            bits.cardinality + (stop - start) := by
  intro bits
  have wellFormed : bits.WellFormed := history.wellFormed_and_flags?_eq.1
  have reads : ∀ index, bits.get index = .ok true ↔ bits.bit index = true :=
    wellFormed.get_eq_ok_true_iff
  refine ⟨?_, ?_, ?_⟩
  · simp only [reads]
    exact wellFormed.card_ones.symm
  · intro other within
    exact cardinality_intersect_add_unite wellFormed other.wellFormed_and_flags?_eq.1 within
  · intro start stop ordered within
    obtain ⟨flipped, done, counted⟩ := cardinality_flip_add wellFormed ordered within
    refine ⟨flipped, done, ?_⟩
    rw [← counted]
    congr 3
    ext index
    rw [Finset.mem_filter, Finset.mem_inter, reads, wellFormed.mem_ones, and_comm]

/-- A set of seventy bits, an operand of a hundred and thirty, and a flip that grows the set. -/
theorem cardinality_counts_get_of_longer_operand :
    let history : History := .flip (.zeros 70 ⟨200⟩ (by decide)) 3 66
    let other : History := .flip (.zeros 5 ⟨130⟩ (by decide)) 60 130
    let bits := history.bits
    bits.cardinality = 63 ∧ other.bits.cardinality = 70 ∧
      other.bits.length ≤ bits.limit.maxLength ∧
      (∃ met joined, (intersect other.bits).run bits = .ok () met ∧
        (unite other.bits).run (History.clone history).bits = .ok () joined ∧
        met.cardinality + joined.cardinality = bits.cardinality + other.bits.cardinality) ∧
      130 ≤ bits.limit.maxLength ∧
      ∃ flipped, (flip 60 130).run bits = .ok () flipped ∧
        flipped.cardinality + 2 * {index ∈ Finset.Ico 60 130 | bits.get index = .ok true}.card =
          bits.cardinality + (130 - 60) := by
  intro history other bits
  obtain ⟨-, combines, flips⟩ := cardinality_counts_get history
  have admits : other.bits.length ≤ bits.limit.maxLength := by decide
  have within : 130 ≤ bits.limit.maxLength := by decide
  exact ⟨by decide, by decide, admits, combines other admits, within,
    flips 60 130 (by decide) within⟩

end BitSet

end PackedStore
