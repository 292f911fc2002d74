import PackedStore.Fault
import PackedStore.Handle

/-!
# Slot tables

A table owns values and names them by handles. A slot is reused after its value is removed, but
never under the same handle: removal raises the slot's generation, and a slot whose generation
would come round to zero is never used again. This file holds the table itself and what a handle
names in it; `PackedStore.Table.Access` holds the operations, which also write records.
-/

namespace PackedStore

/-- A place for one value and the generation of its present use. -/
structure Slot (α : Type) where
  /-- The number of the present use, from one on; zero for a slot out of use for good. -/
  generation : UInt32
  /-- The value, if the slot is taken. -/
  value : Option α
deriving DecidableEq, Repr

namespace Slot

variable {α : Type}

/-- The value of the slot, if its present use is `generation`. -/
def live? (slot : Slot α) (generation : UInt32) : Option α :=
  if slot.generation = generation then slot.value else none

end Slot

/-- A store of values named by handles. -/
structure Table (α : Type) where
  /-- What the values are called in log records. -/
  kind : String
  /-- The tag that every handle of this table carries. -/
  tag : UInt8
  /-- The slots made so far. -/
  slots : Array (Slot α) := #[]
  /-- The indices of the slots to reuse, the next one first. -/
  free : List Nat := []
deriving DecidableEq, Repr

namespace Table

variable {α : Type}

/-- Why a table takes no value. -/
inductive Error where
  /-- Every slot is taken or out of use. -/
  | full
  /-- The free list names a slot that does not exist. -/
  | fault (cause : Fault)
deriving DecidableEq, Repr

/-- The greatest number of slots in one table. -/
def maxSlots : Nat := 1 <<< 24

/-- A table without values. -/
def empty (kind : String) (tag : UInt8) : Table α :=
  { kind, tag }

/-- The value that `handle` names. -/
def find? (table : Table α) (handle : Handle) : Option α :=
  if handle.parts.tag = table.tag then
    table.slots[handle.parts.slot]?.bind (·.live? handle.parts.generation)
  else
    none

@[simp] theorem find?_empty (kind : String) (tag : UInt8) (handle : Handle) :
    (empty kind tag : Table α).find? handle = none := by
  simp [find?, empty]

/-- The table with `value` in the slot at `index`. -/
def fill (table : Table α) (index : Nat) (value : α) : Table α :=
  { table with slots := table.slots.modify index ({ · with value := some value }) }

/-- The table with the slot at `index` emptied and its generation raised. The slot goes on top of
the free list, unless its generation came round to zero. -/
def vacate (table : Table α) (index : Nat) (generation : UInt32) : Table α :=
  let raised := generation + 1
  { table with
    slots := table.slots.setIfInBounds index ⟨raised, none⟩
    free := if raised = 0 then table.free else index :: table.free }

/-- The table with the generation of the slot at `index` overwritten. -/
def setGeneration (table : Table α) (index : Nat) (generation : UInt32) : Table α :=
  { table with slots := table.slots.modify index ({ · with generation }) }

end Table

end PackedStore
