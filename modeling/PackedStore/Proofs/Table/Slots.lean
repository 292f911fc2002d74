import Mathlib.Logic.Function.Basic
import PackedStore.Proofs.Packing
import PackedStore.Table.Access

/-!
# Slots of a table

A table changes one slot at a time. This file states what such a change does to the values that
handles name, and the well-formedness that every change keeps: a slot is live, free or out of use
for good, and the free list names each free slot once.
-/

namespace PackedStore

variable {α : Type}

namespace Slot

@[simp] theorem live?_self (generation : UInt32) (value : Option α) :
    (Slot.mk generation value).live? generation = value :=
  if_pos rfl

theorem live?_of_ne {generation other : UInt32} (ne : other ≠ generation) (value : Option α) :
    (Slot.mk generation value).live? other = none :=
  if_neg ne.symm

@[simp] theorem live?_vacant (generation other : UInt32) :
    (Slot.mk generation (none : Option α)).live? other = none := by
  unfold live?
  split <;> rfl

end Slot

namespace Table

/-- A handle names a value exactly if its slot holds that value in the handle's generation. -/
theorem find?_eq_some_iff {table : Table α} {handle : Handle} {value : α} :
    table.find? handle = some value ↔
      handle.parts.tag = table.tag ∧
        table.slots[handle.parts.slot]? = some ⟨handle.parts.generation, some value⟩ := by
  unfold find?
  split
  · next own =>
      rw [and_iff_right own, Option.bind_eq_some_iff]
      constructor
      · rintro ⟨slot, present, live⟩
        unfold Slot.live? at live
        split at live
        · next current =>
            rw [present, ← current, ← live]
        · exact nomatch live
      · intro present
        exact ⟨_, present, if_pos rfl⟩
  · next foreign =>
      constructor
      · intro impossible
        exact nomatch impossible
      · intro named
        exact absurd named.1 foreign

/-! ## One slot at a time -/

/-- `after` is `before` with `slot` at `index`; the free list may differ. -/
structure PutsSlot (before : Table α) (index : Nat) (slot : Slot α) (after : Table α) : Prop where
  /-- The name of the values stays. -/
  kind_eq : after.kind = before.kind
  /-- The tag stays. -/
  tag_eq : after.tag = before.tag
  /-- All other slots stay. -/
  slots_eq : ∀ place,
    after.slots[place]? = if place = index then some slot else before.slots[place]?

theorem fill_putsSlot {table : Table α} {index : Nat} {generation : UInt32} {content : Option α}
    (value : α) (present : table.slots[index]? = some ⟨generation, content⟩) :
    PutsSlot table index ⟨generation, some value⟩ (table.fill index value) := by
  refine ⟨rfl, rfl, ?_⟩
  intro place
  rw [fill, Array.getElem?_modify]
  rcases eq_or_ne place index with rfl | other
  · simp [present]
  · simp [other, other.symm]

theorem vacate_putsSlot {table : Table α} {index : Nat} {slot : Slot α} (generation : UInt32)
    (present : table.slots[index]? = some slot) :
    PutsSlot table index ⟨generation + 1, none⟩ (table.vacate index generation) := by
  obtain ⟨inside, -⟩ := Array.getElem?_eq_some_iff.mp present
  refine ⟨rfl, rfl, ?_⟩
  intro place
  rw [vacate, Array.getElem?_setIfInBounds]
  rcases eq_or_ne place index with rfl | other
  · simp [inside]
  · simp [other, other.symm]

theorem push_putsSlot (table : Table α) (slot : Slot α) :
    PutsSlot table table.slots.size slot { table with slots := table.slots.push slot } :=
  ⟨rfl, rfl, fun _ => Array.getElem?_push⟩

/-- A change of one slot that concerns a single generation rebinds the handle of that generation and
no other. -/
theorem PutsSlot.find?_eq {before after : Table α} {index : Nat} {slot : Slot α}
    (puts : PutsSlot before index slot after) (small : index < 2 ^ 24) {generation : UInt32}
    (silent_before : ∀ other, other ≠ generation →
      before.slots[index]?.bind (·.live? other) = none)
    (silent_after : ∀ other, other ≠ generation → slot.live? other = none) :
    after.find? =
      Function.update before.find? (.pack before.tag index generation)
        (slot.live? generation) := by
  funext handle
  rw [Function.update_apply]
  unfold find?
  simp only [puts.tag_eq, puts.slots_eq, Handle.eq_pack_iff small]
  by_cases own : handle.parts.tag = before.tag
  · by_cases here : handle.parts.slot = index
    · by_cases same : handle.parts.generation = generation
      · simp [own, here, same]
      · simp [own, here, same, silent_before _ same, silent_after _ same]
    · simp [own, here]
  · simp [own]

/-! ## Well-formedness -/

/-- There are at most `maxSlots` slots, a live slot has a generation, and the free list names
exactly the slots without a value that have one, each once. -/
structure WellFormed (table : Table α) : Prop where
  /-- The slots fit in a handle. -/
  size_le : table.slots.size ≤ maxSlots
  /-- A slot is free only once. -/
  free_nodup : table.free.Nodup
  /-- The free slots are the empty ones whose generation has not come round to zero. -/
  mem_free_iff : ∀ index : Nat, index ∈ table.free ↔
    ∃ generation, generation ≠ 0 ∧ table.slots[index]? = some ⟨generation, none⟩
  /-- Generation zero never holds a value. -/
  generation_ne_zero : ∀ (index : Nat) (generation : UInt32) (value : α),
    table.slots[index]? = some ⟨generation, some value⟩ → generation ≠ 0

theorem wellFormed_empty (kind : String) (tag : UInt8) : (empty kind tag : Table α).WellFormed := by
  constructor
  · exact Nat.zero_le _
  · exact List.nodup_nil
  · intro index
    simp [empty]
  · intro index generation value present
    simp [empty] at present

theorem WellFormed.index_lt {table : Table α} (wellFormed : table.WellFormed) {index : Nat}
    {slot : Slot α} (present : table.slots[index]? = some slot) : index < 2 ^ 24 := by
  obtain ⟨inside, -⟩ := Array.getElem?_eq_some_iff.mp present
  exact Nat.lt_of_lt_of_le inside wellFormed.size_le

/-- No slot is free, and the table takes no new ones. -/
def Full (table : Table α) : Prop :=
  table.free = [] ∧ table.slots.size = maxSlots

instance (table : Table α) : Decidable table.Full :=
  inferInstanceAs (Decidable (_ ∧ _))

/-- A change of one slot keeps a table well formed if the free list is right about that slot and
says of all others what it said before. -/
theorem PutsSlot.wellFormed {before after : Table α} {index : Nat} {slot : Slot α}
    (puts : PutsSlot before index slot after) (wellFormed : before.WellFormed)
    (size_le : after.slots.size ≤ maxSlots) (free_nodup : after.free.Nodup)
    (free_here : index ∈ after.free ↔ slot.generation ≠ 0 ∧ slot.value = none)
    (free_other : ∀ place, place ≠ index → (place ∈ after.free ↔ place ∈ before.free))
    (generation_ne_zero : slot.value ≠ none → slot.generation ≠ 0) : after.WellFormed := by
  refine ⟨size_le, free_nodup, ?_, ?_⟩
  · intro place
    rw [puts.slots_eq]
    rcases eq_or_ne place index with rfl | other
    · rw [if_pos rfl, free_here]
      constructor
      · rintro ⟨nonzero, vacant⟩
        exact ⟨slot.generation, nonzero, by rw [← vacant]⟩
      · rintro ⟨generation, nonzero, same⟩
        rw [Option.some.inj same]
        exact ⟨nonzero, rfl⟩
    · rw [if_neg other, free_other place other]
      exact wellFormed.mem_free_iff place
  · intro place generation value present
    rw [puts.slots_eq] at present
    rcases eq_or_ne place index with rfl | other
    · rw [if_pos rfl] at present
      rw [Option.some.inj present] at generation_ne_zero
      exact generation_ne_zero (Option.some_ne_none value)
    · rw [if_neg other] at present
      exact wellFormed.generation_ne_zero place generation value present

/-! ## The four changes -/

section Changes

variable {table : Table α} {handle : Handle} {index : Nat} {generation : UInt32} {old : α}
  {free : List Nat}

theorem wellFormed_fill (wellFormed : table.WellFormed) (found : table.find? handle = some old)
    (value : α) : (table.fill handle.parts.slot value).WellFormed := by
  obtain ⟨-, present⟩ := find?_eq_some_iff.mp found
  apply (fill_putsSlot value present).wellFormed wellFormed
  · rw [fill, Array.size_modify]
    exact wellFormed.size_le
  · exact wellFormed.free_nodup
  · rw [fill, wellFormed.mem_free_iff, present]
    simp
  · intro place _
    rfl
  · intro _
    exact wellFormed.generation_ne_zero _ _ _ present

/-- Writing the value behind a handle back changes nothing. -/
theorem fill_eq_self (found : table.find? handle = some old) :
    table.fill handle.parts.slot old = table := by
  obtain ⟨-, present⟩ := find?_eq_some_iff.mp found
  have same : table.slots.modify handle.parts.slot ({ · with value := some old }) =
      table.slots := by
    apply Array.ext_getElem?
    intro place
    rw [Array.getElem?_modify]
    split
    · next here => rw [← here, present, Option.map_some]
    · rfl
  rw [fill, same]

/-- Rewriting the value behind a handle rebinds that handle alone. -/
theorem find?_fill (wellFormed : table.WellFormed) (found : table.find? handle = some old)
    (value : α) :
    (table.fill handle.parts.slot value).find? =
      Function.update table.find? handle (some value) := by
  obtain ⟨own, present⟩ := find?_eq_some_iff.mp found
  have silent : ∀ other, other ≠ handle.parts.generation →
      table.slots[handle.parts.slot]?.bind (·.live? other) = none := by
    intro other ne
    rw [present]
    exact Slot.live?_of_ne ne _
  rw [(fill_putsSlot value present).find?_eq (wellFormed.index_lt present) silent fun _ ne =>
    Slot.live?_of_ne ne _]
  rw [← own, Handle.pack_parts, Slot.live?_self]

theorem wellFormed_vacate (wellFormed : table.WellFormed) (found : table.find? handle = some old) :
    (table.vacate handle.parts.slot handle.parts.generation).WellFormed := by
  obtain ⟨-, present⟩ := find?_eq_some_iff.mp found
  have taken : handle.parts.slot ∉ table.free := by
    rw [wellFormed.mem_free_iff, present]
    simp
  apply (vacate_putsSlot handle.parts.generation present).wellFormed wellFormed
  · rw [vacate, Array.size_setIfInBounds]
    exact wellFormed.size_le
  · simp only [vacate]
    split
    · exact wellFormed.free_nodup
    · exact List.nodup_cons.mpr ⟨taken, wellFormed.free_nodup⟩
  · simp only [vacate]
    split
    · next retired => simp [retired, taken]
    · next usable => simp [usable]
  · intro place other
    simp only [vacate]
    split
    · rfl
    · simp [other]
  · simp

/-- Giving up the value behind a handle unbinds that handle alone. -/
theorem find?_vacate (wellFormed : table.WellFormed) (found : table.find? handle = some old) :
    (table.vacate handle.parts.slot handle.parts.generation).find? =
      Function.update table.find? handle none := by
  obtain ⟨own, present⟩ := find?_eq_some_iff.mp found
  have silent : ∀ other, other ≠ handle.parts.generation →
      table.slots[handle.parts.slot]?.bind (·.live? other) = none := by
    intro other ne
    rw [present]
    exact Slot.live?_of_ne ne _
  rw [(vacate_putsSlot handle.parts.generation present).find?_eq (wellFormed.index_lt present)
    silent fun _ _ => Slot.live?_vacant _ _]
  rw [← own, Handle.pack_parts, Slot.live?_vacant]

/-- The slot on top of the free list is empty and has a generation. -/
theorem WellFormed.present_of_free (wellFormed : table.WellFormed)
    (top : table.free = index :: free) :
    ∃ generation, generation ≠ 0 ∧ table.slots[index]? = some ⟨generation, none⟩ :=
  (wellFormed.mem_free_iff index).mp (top ▸ List.mem_cons_self)

theorem reuse_putsSlot (value : α) (present : table.slots[index]? = some ⟨generation, none⟩) :
    PutsSlot table index ⟨generation, some value⟩ { table.fill index value with free } :=
  ⟨rfl, rfl, (fill_putsSlot value present).slots_eq⟩

theorem wellFormed_reuse (wellFormed : table.WellFormed) (top : table.free = index :: free)
    (present : table.slots[index]? = some ⟨generation, none⟩) (nonzero : generation ≠ 0)
    (value : α) : { table.fill index value with free }.WellFormed := by
  have nodup : (index :: free).Nodup := top ▸ wellFormed.free_nodup
  obtain ⟨gone, rest⟩ := List.nodup_cons.mp nodup
  apply (reuse_putsSlot value present).wellFormed wellFormed
  · simp only [fill, Array.size_modify]
    exact wellFormed.size_le
  · exact rest
  · simp [gone]
  · intro place other
    rw [top]
    simp [other]
  · intro _
    exact nonzero

/-- Reusing a free slot binds the handle of the slot's generation and no other. -/
theorem find?_reuse (wellFormed : table.WellFormed)
    (present : table.slots[index]? = some ⟨generation, none⟩) (value : α) :
    { table.fill index value with free }.find? =
      Function.update table.find? (.pack table.tag index generation) (some value) := by
  have silent : ∀ other, other ≠ generation →
      table.slots[index]?.bind (·.live? other) = none := by
    intro other _
    rw [present]
    exact Slot.live?_vacant generation other
  rw [(reuse_putsSlot value present).find?_eq (wellFormed.index_lt present) silent fun _ ne =>
    Slot.live?_of_ne ne _]
  rw [Slot.live?_self]

theorem wellFormed_push (wellFormed : table.WellFormed) (room : table.slots.size < maxSlots)
    (value : α) : { table with slots := table.slots.push ⟨1, some value⟩ }.WellFormed := by
  have absent : table.slots.size ∉ table.free := by
    rw [wellFormed.mem_free_iff]
    simp
  apply (push_putsSlot table ⟨1, some value⟩).wellFormed wellFormed
  · rw [Array.size_push]
    exact room
  · exact wellFormed.free_nodup
  · simp [absent]
  · intro place _
    rfl
  · simp

/-- A new slot binds its first handle and no other. -/
theorem find?_push (room : table.slots.size < maxSlots) (value : α) :
    { table with slots := table.slots.push ⟨1, some value⟩ }.find? =
      Function.update table.find? (.pack table.tag table.slots.size 1) (some value) := by
  rw [(push_putsSlot table ⟨1, some value⟩).find?_eq room (by simp) fun _ ne =>
    Slot.live?_of_ne ne _]
  rw [Slot.live?_self]

end Changes

end Table

end PackedStore
