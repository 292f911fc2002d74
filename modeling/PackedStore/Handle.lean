/-!
# Handles

A handle is a 64-bit word that names one value of one table: the table's tag in the highest eight
bits, the slot in the next twenty-four, and the slot's generation in the lowest thirty-two.
-/

namespace PackedStore

/-- A 64-bit name for a value owned by a table. -/
structure Handle where
  /-- The packed tag, slot and generation. -/
  word : UInt64
deriving DecidableEq, Repr

/-- What a handle says: which table, which slot, and which use of that slot. -/
structure HandleParts where
  /-- The tag of the table that gave the handle out. -/
  tag : UInt8
  /-- The slot's index in the table. -/
  slot : Nat
  /-- The generation of the slot when the handle was given out. -/
  generation : UInt32
deriving DecidableEq, Repr

namespace Handle

/-- The handle of all zero bits, which no table gives out. -/
def zero : Handle := ⟨0⟩

/-- Packs a tag, a slot index and a generation. -/
def pack (tag : UInt8) (slot : Nat) (generation : UInt32) : Handle :=
  ⟨(tag.toUInt64 <<< 56) ||| (UInt64.ofNat slot <<< 32) ||| generation.toUInt64⟩

/-- The parts packed in a handle. -/
def parts (handle : Handle) : HandleParts :=
  let upper := (handle.word >>> 32).toUInt32
  { tag := (upper >>> 24).toUInt8
    slot := (upper &&& 0xffffff).toNat
    generation := handle.word.toUInt32 }

/-- A handle as `0x` and its lower-case hexadecimal digits, without leading zeros. -/
def text (handle : Handle) : String :=
  "0x" ++ String.ofList (Nat.toDigits 16 handle.word.toNat)

end Handle

end PackedStore
