import PackedStore.Proofs.Table.Slots

/-!
# Handles given out

A slot gives out its generations one after another, from one on, so the slots of a table tell which
handles it has ever given out. Only taking a value in gives out a handle, and always a new one.
-/

namespace PackedStore

variable {α : Type}

/-- The number of generations that a slot has given out. A slot without a value has not yet given
out its present generation; one whose generation came round to zero has given out all others. -/
def Slot.spent (slot : Slot α) : Nat :=
  match slot.value with
  | some _ => slot.generation.toNat
  | none => (slot.generation - 1).toNat

namespace Table

/-- The number of generations that the slot at `index` has given out, none if there is no slot. -/
def spent (table : Table α) (index : Nat) : Nat :=
  (table.slots[index]?.map Slot.spent).getD 0

/-- Whether the table has given `handle` out. -/
def Issued (table : Table α) (handle : Handle) : Prop :=
  handle.parts.tag = table.tag ∧ handle.parts.generation ≠ 0 ∧
    handle.parts.generation.toNat ≤ table.spent handle.parts.slot

theorem spent_of_present {table : Table α} {index : Nat} {slot : Slot α}
    (present : table.slots[index]? = some slot) : table.spent index = slot.spent := by
  rw [spent, present]
  rfl

theorem not_issued_empty (kind : String) (tag : UInt8) (handle : Handle) :
    ¬(empty kind tag : Table α).Issued handle := by
  rintro ⟨-, nonzero, bound⟩
  apply nonzero
  apply UInt32.toNat_inj.mp
  exact Nat.le_zero.mp bound

/-- No table gives out the handle of all zero bits. -/
theorem Issued.ne_zero {table : Table α} {handle : Handle} (issued : table.Issued handle) :
    handle ≠ .zero := by
  rintro rfl
  exact issued.2.1 (by decide)

/-- A handle that names a value has been given out. -/
theorem WellFormed.issued_of_find? {table : Table α} (wellFormed : table.WellFormed)
    {handle : Handle} {value : α} (found : table.find? handle = some value) :
    table.Issued handle := by
  obtain ⟨own, present⟩ := find?_eq_some_iff.mp found
  refine ⟨own, wellFormed.generation_ne_zero _ _ _ present, ?_⟩
  rw [spent_of_present present]
  exact Nat.le_refl _

/-- A handle that has not been given out names nothing. -/
theorem WellFormed.find?_of_not_issued {table : Table α} (wellFormed : table.WellFormed)
    {handle : Handle} (fresh : ¬table.Issued handle) : table.find? handle = none := by
  cases found : table.find? handle with
  | none => rfl
  | some value => exact absurd (wellFormed.issued_of_find? found) fresh

/-! ## What each change gives out -/

theorem PutsSlot.spent_eq {before after : Table α} {index : Nat} {slot : Slot α}
    (puts : PutsSlot before index slot after) (place : Nat) :
    after.spent place = if place = index then slot.spent else before.spent place := by
  rw [spent, puts.slots_eq]
  split
  · rfl
  · rfl

/-- A change that spends no generation gives out no handle. -/
theorem PutsSlot.issued_iff_of_spent {before after : Table α} {index : Nat} {slot : Slot α}
    (puts : PutsSlot before index slot after) (same : slot.spent = before.spent index)
    (handle : Handle) : after.Issued handle ↔ before.Issued handle := by
  have spent_eq : after.spent handle.parts.slot = before.spent handle.parts.slot := by
    rw [puts.spent_eq]
    split
    · next here => rw [here, same]
    · rfl
  rw [Issued, Issued, puts.tag_eq, spent_eq]

/-- A change that spends one more generation gives out the handle of that generation. -/
theorem PutsSlot.issued_iff_of_spent_succ {before after : Table α} {index : Nat} {slot : Slot α}
    (puts : PutsSlot before index slot after) (small : index < 2 ^ 24)
    (spent_eq : slot.spent = slot.generation.toNat)
    (next : before.spent index + 1 = slot.generation.toNat) (handle : Handle) :
    after.Issued handle ↔
      handle = .pack before.tag index slot.generation ∨ before.Issued handle := by
  rw [Handle.eq_pack_iff small, Issued, Issued, puts.tag_eq, puts.spent_eq]
  by_cases here : handle.parts.slot = index
  · have same : handle.parts.generation = slot.generation ↔
        handle.parts.generation.toNat = slot.generation.toNat := UInt32.toNat_inj.symm
    have nonzero : handle.parts.generation ≠ 0 ↔ handle.parts.generation.toNat ≠ 0 :=
      not_congr UInt32.toNat_inj.symm
    rw [if_pos here, here, spent_eq, same, nonzero]
    constructor
    · rintro ⟨own, positive, bound⟩
      rcases Nat.eq_or_lt_of_le bound with last | earlier
      · exact .inl ⟨own, rfl, last⟩
      · exact .inr ⟨own, positive, by omega⟩
    · rintro (⟨own, -, last⟩ | ⟨own, positive, bound⟩)
      · exact ⟨own, by omega, Nat.le_of_eq last⟩
      · exact ⟨own, positive, by omega⟩
  · rw [if_neg here]
    simp [here]

section Changes

variable {table : Table α} {handle : Handle} {index : Nat} {generation : UInt32} {old : α}
  {free : List Nat}

theorem issued_fill (found : table.find? handle = some old) (value : α) (other : Handle) :
    (table.fill handle.parts.slot value).Issued other ↔ table.Issued other := by
  obtain ⟨-, present⟩ := find?_eq_some_iff.mp found
  apply (fill_putsSlot value present).issued_iff_of_spent
  rw [spent_of_present present]
  rfl

theorem issued_vacate (found : table.find? handle = some old) (other : Handle) :
    (table.vacate handle.parts.slot handle.parts.generation).Issued other ↔
      table.Issued other := by
  obtain ⟨-, present⟩ := find?_eq_some_iff.mp found
  apply (vacate_putsSlot handle.parts.generation present).issued_iff_of_spent
  rw [spent_of_present present]
  -- Raising the generation and counting one less cancel, also where the generation wraps.
  exact congrArg UInt32.toNat (UInt32.add_sub_cancel handle.parts.generation 1)

theorem spent_add_one (present : table.slots[index]? = some ⟨generation, none⟩)
    (nonzero : generation ≠ 0) : table.spent index + 1 = generation.toNat := by
  have positive : 1 ≤ generation.toNat := by
    rcases Nat.eq_zero_or_pos generation.toNat with zero | positive
    · exact absurd (UInt32.toNat_inj.mp zero) nonzero
    · exact positive
  have predecessor : (generation - 1).toNat = generation.toNat - 1 := by
    rw [UInt32.toNat_sub_of_le _ _ (by simpa [UInt32.le_iff_toNat_le] using positive)]
    rfl
  rw [spent_of_present present]
  change (generation - 1).toNat + 1 = generation.toNat
  omega

/-- Reusing a free slot gives out the handle of the slot's generation. -/
theorem issued_reuse (wellFormed : table.WellFormed)
    (present : table.slots[index]? = some ⟨generation, none⟩) (nonzero : generation ≠ 0)
    (value : α) (other : Handle) :
    { table.fill index value with free }.Issued other ↔
      other = .pack table.tag index generation ∨ table.Issued other :=
  (reuse_putsSlot value present).issued_iff_of_spent_succ (wellFormed.index_lt present) rfl
    (spent_add_one present nonzero) other

theorem not_issued_reuse (wellFormed : table.WellFormed)
    (present : table.slots[index]? = some ⟨generation, none⟩) (nonzero : generation ≠ 0) :
    ¬table.Issued (.pack table.tag index generation) := by
  rintro ⟨-, -, bound⟩
  have next := spent_add_one present nonzero
  rw [Handle.parts_pack _ _ (wellFormed.index_lt present)] at bound
  change generation.toNat ≤ table.spent index at bound
  omega

theorem spent_size : table.spent table.slots.size = 0 := by
  simp [spent]

theorem issued_push (room : table.slots.size < maxSlots) (value : α) (other : Handle) :
    { table with slots := table.slots.push ⟨1, some value⟩ }.Issued other ↔
      other = .pack table.tag table.slots.size 1 ∨ table.Issued other :=
  (push_putsSlot table ⟨1, some value⟩).issued_iff_of_spent_succ room rfl
    (by rw [spent_size]; rfl) other

theorem not_issued_push (room : table.slots.size < maxSlots) :
    ¬table.Issued (.pack table.tag table.slots.size 1) := by
  rintro ⟨-, -, bound⟩
  rw [Handle.parts_pack _ _ room] at bound
  change (1 : UInt32).toNat ≤ table.spent table.slots.size at bound
  rw [spent_size] at bound
  exact absurd bound (by decide)

end Changes

end Table

end PackedStore
