import PackedStore.Step
import PackedStore.Table.Basic

/-!
# Operations on slot tables

Every value taken in or given up, and nearly every handle turned away, leaves a record. Two handles
that name one slot are turned away without one.
-/

namespace PackedStore

namespace Table

variable {α : Type}

/-- The record for a handle that names nothing in the table. -/
def refusal (table : Table α) (handle : Handle) : Record :=
  if handle.parts.tag = table.tag then
    .stale table.kind handle
  else
    .foreign table.kind handle

/-- Turns `handle` away. -/
def refuse (handle : Handle) : Step (Table α) Unit := do
  let table ← Step.read
  Step.write (table.refusal handle)

/-- The value that `handle` names. -/
def get (handle : Handle) : Step (Table α) (Option α) := do
  let table ← Step.read
  match table.find? handle with
  | some value => return some value
  | none =>
      refuse handle
      return none

/-- Performs a step on the value that `handle` names. -/
def update {β : Type} (handle : Handle) (change : Step α β) : Step (Table α) (Option β) := do
  match ← get handle with
  | none => return none
  | some value =>
      let table ← Step.read
      return some (← Step.zoom value (table.fill handle.parts.slot) change)

/-- The values that two handles name. Tags are looked at first, the target's before the
source's; then two handles of one slot are turned away silently; then slots beyond the table, the
target's before the source's; and last, handles without a live value. -/
def pair (target source : Handle) : Step (Table α) (Option (α × α)) := do
  let table ← Step.read
  if target.parts.tag ≠ table.tag then
    refuse target
    return none
  else if source.parts.tag ≠ table.tag then
    refuse source
    return none
  else if target.parts.slot = source.parts.slot then
    return none
  else
    match table.slots[target.parts.slot]?, table.slots[source.parts.slot]? with
    | none, _ =>
        refuse target
        return none
    | some _, none =>
        refuse source
        return none
    | some targetSlot, some sourceSlot =>
        match targetSlot.live? target.parts.generation,
            sourceSlot.live? source.parts.generation with
        | some targetValue, some sourceValue => return some (targetValue, sourceValue)
        | _, _ =>
            Step.write (.stalePair table.kind target source)
            return none

/-- Performs a step on the value that `target` names, chosen by the value that `source` names. -/
def updateFrom {β : Type} (target source : Handle) (change : α → Step α β) :
    Step (Table α) (Option β) := do
  match ← pair target source with
  | none => return none
  | some (targetValue, sourceValue) =>
      let table ← Step.read
      return some
        (← Step.zoom targetValue (table.fill target.parts.slot) (change sourceValue))

/-- Announces the handle of a value just taken in. -/
def announce (handle : Handle) : Step (Table α) (Except Error Handle) := do
  let table ← Step.read
  Step.write (.created table.kind handle)
  return .ok handle

/-- Takes a value in and answers its handle. A free slot is reused before a new one is made, and a
table of `maxSlots` slots makes no new one. -/
def insert (value : α) : Step (Table α) (Except Error Handle) := do
  let table ← Step.read
  match table.free with
  | index :: free =>
      match table.slots[index]? with
      | none => return .error (.fault ⟨index, table.slots.size⟩)
      | some slot =>
          Step.replace { table.fill index value with free }
          announce (.pack table.tag index slot.generation)
  | [] =>
      if maxSlots ≤ table.slots.size then
        Step.write (.full table.kind maxSlots)
        return .error .full
      else
        Step.replace { table with slots := table.slots.push ⟨1, some value⟩ }
        announce (.pack table.tag table.slots.size 1)

/-- Gives up the value that `handle` names and answers it. -/
def remove (handle : Handle) : Step (Table α) (Option α) := do
  let table ← Step.read
  match table.find? handle with
  | none =>
      refuse handle
      return none
  | some value =>
      Step.replace (table.vacate handle.parts.slot handle.parts.generation)
      Step.write (.destroyed table.kind handle)
      return some value

/-! ## What each operation leaves behind -/

theorem run_get_of_some {table : Table α} {handle : Handle} {value : α}
    (found : table.find? handle = some value) :
    (get handle).run table = ⟨some value, table, []⟩ := by
  simp only [get, Step.run_bind, Step.run_read, found]
  rfl

theorem run_get_of_none {table : Table α} {handle : Handle}
    (missing : table.find? handle = none) :
    (get handle).run table = ⟨none, table, [⟨table.refusal handle, table⟩]⟩ := by
  simp only [get, Step.run_bind, Step.run_read, missing]
  rfl

theorem run_update_of_some {β : Type} {table : Table α} {handle : Handle} {value : α}
    (found : table.find? handle = some value) (change : Step α β) :
    (update handle change).run table =
      let trace := change.run value
      let whole := table.fill handle.parts.slot
      ⟨some trace.value, whole trace.store,
        trace.written.map fun entry => ⟨entry.record, whole entry.store⟩⟩ := by
  simp only [update, Step.run_bind, run_get_of_some found, Step.run_read, Step.run_zoom,
    Step.run_pure, List.nil_append, List.append_nil]

theorem run_update_of_none {β : Type} {table : Table α} {handle : Handle}
    (missing : table.find? handle = none) (change : Step α β) :
    (update handle change).run table = ⟨none, table, [⟨table.refusal handle, table⟩]⟩ := by
  simp only [update, Step.run_bind, run_get_of_none missing, Step.run_pure, List.append_nil]

theorem run_remove_of_some {table : Table α} {handle : Handle} {value : α}
    (found : table.find? handle = some value) :
    (remove handle).run table =
      let after := table.vacate handle.parts.slot handle.parts.generation
      ⟨some value, after, [⟨.destroyed table.kind handle, after⟩]⟩ := by
  simp only [remove, Step.run_bind, Step.run_read, found]
  rfl

theorem run_remove_of_none {table : Table α} {handle : Handle}
    (missing : table.find? handle = none) :
    (remove handle).run table = ⟨none, table, [⟨table.refusal handle, table⟩]⟩ := by
  simp only [remove, Step.run_bind, Step.run_read, missing]
  rfl

theorem run_insert_of_free {table : Table α} {index : Nat} {free : List Nat} {slot : Slot α}
    (top : table.free = index :: free) (present : table.slots[index]? = some slot) (value : α) :
    (insert value).run table =
      let after := { table.fill index value with free }
      let handle := Handle.pack table.tag index slot.generation
      ⟨.ok handle, after, [⟨.created table.kind handle, after⟩]⟩ := by
  simp only [insert, Step.run_bind, Step.run_read, top, present]
  rfl

theorem run_insert_of_room {table : Table α} (empty : table.free = [])
    (room : table.slots.size < maxSlots) (value : α) :
    (insert value).run table =
      let after := { table with slots := table.slots.push ⟨1, some value⟩ }
      let handle := Handle.pack table.tag table.slots.size 1
      ⟨.ok handle, after, [⟨.created table.kind handle, after⟩]⟩ := by
  simp only [insert, Step.run_bind, Step.run_read, empty, if_neg (Nat.not_le.mpr room)]
  simp [announce, Step.run_bind]

theorem run_insert_of_full {table : Table α} (empty : table.free = [])
    (full : maxSlots ≤ table.slots.size) (value : α) :
    (insert value).run table =
      ⟨.error .full, table, [⟨.full table.kind maxSlots, table⟩]⟩ := by
  simp only [insert, Step.run_bind, Step.run_read, empty, if_pos full]
  rfl

end Table

end PackedStore
