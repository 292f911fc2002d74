import PackedStore.Proofs.Machine.Store
import PackedStore.Proofs.Table.Bindings

/-!
# Two values at once

Two handles are found together exactly if they differ and both are bound. Since no two bound handles
name one slot, turning away two handles of one slot turns away none that could be found. A write
through the first of the two reaches its value and nothing else.
-/

namespace PackedStore

variable {α : Type}

namespace Table

/-- `after` is `before` with `value` behind `handle`; all else is the same. -/
structure Overwrites (before : Table α) (handle : Handle) (value : α) (after : Table α) : Prop where
  /-- All other handles name what they named. -/
  find?_eq : after.find? = Function.update before.find? handle (some value)
  /-- The name of the values stays. -/
  kind_eq : after.kind = before.kind
  /-- The tag stays. -/
  tag_eq : after.tag = before.tag
  /-- Every slot keeps its generation, and stays taken or empty. -/
  slots_eq : (after.slots.map fun slot => (slot.generation, slot.value.isSome)) =
    before.slots.map fun slot => (slot.generation, slot.value.isSome)
  /-- The slots to reuse stay, in their order. -/
  free_eq : after.free = before.free

/-- Looking up `target` and `source` together gives what `bindings` says, and changes nothing but
the value of `target`, which may be written through it. -/
structure PairsExactly (table : Table α) (bindings : Bindings α) (target source : Handle) :
    Prop where
  /-- The values found are those of the two handles, in this order. -/
  eq_some_iff : ∀ targetValue sourceValue,
    ((pair target source).run table).value = some (targetValue, sourceValue) ↔
      target ≠ source ∧ bindings target = some targetValue ∧ bindings source = some sourceValue
  /-- Two values are found exactly if the handles differ and both are bound. -/
  isSome_iff : ((pair target source).run table).value.isSome ↔
    target ≠ source ∧ (bindings target).isSome ∧ (bindings source).isSome
  /-- The order of the handles does not matter for that. -/
  isSome_comm : ((pair target source).run table).value.isSome =
    ((pair source target).run table).value.isSome
  /-- Cutting the slots in two at the greater place finds the same, whichever handle has it. -/
  checked_eq : table.pairChecked target source = some ((pair target source).run table)
  /-- Looking alone changes nothing. -/
  store_eq : ((pair target source).run table).store = table
  /-- A write through the target, chosen by the source, changes the value of the target alone. -/
  overwrites : ∀ targetValue sourceValue,
    ((pair target source).run table).value = some (targetValue, sourceValue) →
      ∀ {β : Type} (change : α → Step α β),
        let written := (change sourceValue).run targetValue
        let trace := (updateFrom target source change).run table
        trace.value = some written.value ∧
          table.Overwrites target written.store trace.store
  /-- Without two values nothing is written. -/
  unwritten : ((pair target source).run table).value = none →
    ∀ {β : Type} (change : α → Step α β),
      let trace := (updateFrom target source change).run table
      trace.value = none ∧ trace.store = table
  /-- Two different handles of one slot are not both bound. -/
  eq_none_of_slot_eq : target ≠ source → target.parts.slot = source.parts.slot →
    bindings target = none ∨ bindings source = none

section Pair

variable {table : Table α} {target source handle : Handle}

theorem overwrites_fill (wellFormed : table.WellFormed) {old : α}
    (found : table.find? handle = some old) (value : α) :
    table.Overwrites handle value (table.fill handle.parts.slot value) := by
  refine ⟨find?_fill wellFormed found value, rfl, rfl, ?_, rfl⟩
  obtain ⟨-, present⟩ := find?_eq_some_iff.mp found
  apply Array.ext_getElem?
  intro place
  rw [Array.getElem?_map, Array.getElem?_map, fill, Array.getElem?_modify]
  split
  · next here =>
      rw [← here, present]
      rfl
  · rfl

theorem value_pair_eq_some_iff {targetValue sourceValue : α} :
    ((pair target source).run table).value = some (targetValue, sourceValue) ↔
      target ≠ source ∧ table.find? target = some targetValue ∧
        table.find? source = some sourceValue := by
  rw [value_pair]
  by_cases same : target = source
  · simp [same]
  · simp [same, Option.bind_eq_some_iff]

theorem value_pair_eq_none_iff :
    ((pair target source).run table).value = none ↔
      table.find? target = none ∨ table.find? source = none ∨ target = source := by
  rw [value_pair]
  by_cases same : target = source
  · simp [same]
  · cases found : table.find? target with
    | none => simp [same]
    | some value => simp [same]

theorem isSome_value_pair :
    ((pair target source).run table).value.isSome ↔
      target ≠ source ∧ (table.find? target).isSome ∧ (table.find? source).isSome := by
  rw [Option.isSome_iff_ne_none, ne_eq, value_pair_eq_none_iff, Option.isSome_iff_ne_none,
    Option.isSome_iff_ne_none, not_or, not_or, ← and_assoc, and_comm]

theorem store_pair : ((pair target source).run table).store = table := by
  cases found : ((pair target source).run table).value with
  | none => rw [run_pair_of_none (value_pair_eq_none_iff.mp found)]
  | some values =>
      obtain ⟨distinct, targetFound, sourceFound⟩ := value_pair_eq_some_iff.mp found
      rw [run_pair_of_some targetFound sourceFound distinct]

theorem WellFormed.pairsExactly (wellFormed : table.WellFormed) (target source : Handle) :
    table.PairsExactly table.find? target source where
  eq_some_iff := fun _ _ => value_pair_eq_some_iff
  isSome_iff := isSome_value_pair
  isSome_comm := by
    rw [Bool.eq_iff_iff, isSome_value_pair, isSome_value_pair]
    exact and_congr ne_comm and_comm
  checked_eq := table.pairChecked_eq target source
  store_eq := store_pair
  overwrites := by
    intro targetValue sourceValue both β change
    obtain ⟨distinct, found, beside⟩ := value_pair_eq_some_iff.mp both
    rw [run_updateFrom_of_some found beside distinct change]
    exact ⟨rfl, overwrites_fill wellFormed found _⟩
  unwritten := by
    intro missing β change
    rw [run_updateFrom_of_none (value_pair_eq_none_iff.mp missing) change]
    exact ⟨rfl, rfl⟩
  eq_none_of_slot_eq := by
    intro distinct same
    by_contra both
    simp only [not_or, ← ne_eq, Option.ne_none_iff_exists'] at both
    obtain ⟨⟨value, found⟩, ⟨beside, foundBeside⟩⟩ := both
    exact distinct (eq_of_slot_eq found foundBeside same)

end Pair

/-- After every list of requests to an empty table, looking two handles up together gives what the
history alone says they are bound to, if they differ and both are bound, and a write through the
first changes its value alone. -/
theorem pairsExactly_replay_history (kind : String) (tag : UInt8) (requests : List (Request α))
    (target source : Handle) :
    let table : Table α := .empty kind tag
    (table.after requests).PairsExactly (Bindings.empty.replay (table.history requests))
      target source := by
  intro table
  have ready : table.WellFormed := wellFormed_empty kind tag
  obtain ⟨wellFormed, same⟩ := ready.after_and_replay requests
  have blank : table.find? = Bindings.empty := funext (find?_empty kind tag)
  rw [← blank, ← same]
  exact wellFormed.pairsExactly target source

end Table

end PackedStore
