import PackedStore.Fault

/-!
# Burst buffers

A burst buffer keeps every burst of elements appended to it as a chunk of its own. The contiguous
layout is made only on demand, in place, in a destination of exactly the buffer's size.
-/

namespace PackedStore

/-- The bursts appended so far and the number of elements in them. -/
structure BurstBuffer (α : Type) where
  /-- The bursts that were not empty, in order. -/
  bursts : Array (List α) := #[]
  /-- The number of elements in all bursts. -/
  size : Nat := 0
deriving DecidableEq, Repr

namespace BurstBuffer

/-- Why a buffer cannot be laid out in a destination. -/
inductive Error where
  /-- The destination holds `actual` elements, the buffer `expected`. -/
  | capacityMismatch (expected actual : Nat)
  /-- The bursts run past the destination. -/
  | fault (cause : Fault)
deriving DecidableEq, Repr

namespace Error

/-- The text of an error. -/
def message : Error → String
  | capacityMismatch expected actual =>
      s!"flatten destination holds {actual} elements, buffer holds {expected}"
  | fault cause => cause.message

end Error

variable {α : Type}

/-- A buffer without bursts. -/
def empty : BurstBuffer α := {}

/-- The buffer with a burst appended; an empty burst appends nothing. -/
def append (buffer : BurstBuffer α) (burst : List α) : BurstBuffer α :=
  if burst.isEmpty then
    buffer
  else
    { bursts := buffer.bursts.push burst
      size := buffer.size + burst.length }

/-- Whether nothing has been appended. -/
def isEmpty (buffer : BurstBuffer α) : Bool :=
  buffer.size == 0

/-- All elements in order. -/
def toList (buffer : BurstBuffer α) : List α :=
  buffer.bursts.toList.flatten

@[simp] theorem toList_empty : (empty : BurstBuffer α).toList = [] := rfl

@[simp] theorem toList_append (buffer : BurstBuffer α) (burst : List α) :
    (buffer.append burst).toList = buffer.toList ++ burst := by
  unfold append
  split
  · next nothing => simp [List.isEmpty_iff.mp nothing]
  · simp [toList]

@[simp] theorem size_append (buffer : BurstBuffer α) (burst : List α) :
    (buffer.append burst).size = buffer.size + burst.length := by
  unfold append
  split
  · next nothing => simp [List.isEmpty_iff.mp nothing]
  · rfl

/-! ## Contiguous layout -/

/-- The destination with the elements of a burst written from `offset` on. -/
def writeBurst (destination : Array α) (offset : Nat) : List α → Array α
  | [] => destination
  | element :: burst =>
      writeBurst (destination.setIfInBounds offset element) (offset + 1) burst

@[simp] theorem size_writeBurst (destination : Array α) (offset : Nat) (burst : List α) :
    (writeBurst destination offset burst).size = destination.size := by
  induction burst generalizing destination offset with
  | nil => rfl
  | cons element burst ih => rw [writeBurst, ih, Array.size_setIfInBounds]

/-- Copies a burst into the destination at `offset`; answers the offset behind it. -/
def copyBurst (offset : Nat) (burst : List α) : EStateM Error (Array α) Nat := fun destination =>
  let stop := offset + burst.length
  if destination.size < stop then
    .error (.fault ⟨stop, destination.size⟩) destination
  else
    .ok stop (writeBurst destination offset burst)

/-- Copies all bursts, in order, into a destination that holds exactly as many elements as the
buffer. -/
def layOut (buffer : BurstBuffer α) : EStateM Error (Array α) Unit := do
  let destination ← EStateM.get
  if destination.size ≠ buffer.size then
    throw (.capacityMismatch buffer.size destination.size)
  else
    let _ ← buffer.bursts.foldlM copyBurst 0

end BurstBuffer

end PackedStore
