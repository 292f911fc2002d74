import PackedStore.BitSet.Basic
import PackedStore.Record

/-!
# Changing a bit set in place

An update changes a set in place. It succeeds or fails, and leaves a set behind either way; the
updates of this file leave a well-formed set as it was when they fail.
-/

namespace PackedStore

namespace BitSet

/-- A change of a bit set in place. -/
abbrev Update : Type → Type :=
  EStateM Error BitSet

/-! ## Growing -/

/-- Appends false bits up to `length` bits. -/
def extend (length : Nat) : Update Unit := fun bits =>
  if bits.limit.maxLength < length then
    .error (.limitExceeded length bits.limit.maxLength) bits
  else
    let missing := Word.needed length - bits.words.size
    .ok () { bits with words := bits.words ++ Array.replicate missing 0, length := length }

/-- Appends false bits up to `length` bits, if there are fewer. -/
def cover (length : Nat) : Update Unit := fun bits =>
  if bits.length < length then extend length bits else .ok () bits

/-! ## Single bits -/

/-- Refuses a position at or beyond the length. -/
def check (index : Nat) : Update Unit := fun bits =>
  if bits.length ≤ index then .error (.outOfRange index bits.length) bits else .ok () bits

/-- Applies `change` to the word at `place`, which the storage must hold. -/
def changeWord (place : Nat) (change : Word → Word) : Update Unit := fun bits =>
  if inside : place < bits.words.size then
    .ok () { bits with words := bits.words.set place (change bits.words[place]) }
  else
    .error (.fault ⟨place, bits.words.size⟩) bits

/-- Makes the bit at `index` true, wherever the storage holds it. -/
def raise (index : Nat) : Update Unit :=
  changeWord (index / Word.width) (· ||| Word.single index)

/-- Makes the bit at `index` true. -/
def set (index : Nat) : Update Unit := do
  check index
  raise index

/-- Makes every listed bit true, once all positions have been found in range. -/
def setAll (positions : List Nat) : Update Unit := do
  positions.forM check
  positions.forM raise

/-- Makes the bit at `index` false. -/
def clear (index : Nat) : Update Unit := do
  check index
  changeWord (index / Word.width) (· &&& ~~~Word.single index)

/-! ## Ranges -/

/-- Inverts the words of the places `first`, …, `last - 1`. -/
def invertWords (first last : Nat) : Update Unit := fun bits =>
  if bits.words.size < last then
    .error (.fault ⟨last, bits.words.size⟩) bits
  else
    .ok () { bits with
      words := bits.words.mapIdx fun place word =>
        if first ≤ place ∧ place < last then ~~~word else word }

/-- Toggles the bits of `[start, stop)`, where `start < stop` and the storage holds `stop` bits: a
masked first word, inverted words between, a masked last word. -/
def toggle (start stop : Nat) : Update Unit :=
  let first := start / Word.width
  let last := (stop - 1) / Word.width
  let head := Word.upward start
  let tail := Word.downward (stop - 1)
  if first = last then
    changeWord first (· ^^^ (head &&& tail))
  else do
    changeWord first (· ^^^ head)
    invertWords (first + 1) last
    changeWord last (· ^^^ tail)

/-- Toggles the bits of `[start, stop)`. A set of fewer than `stop` bits grows to `stop` bits
first, also when the range is empty. -/
def flip (start stop : Nat) : Update Unit :=
  if stop < start then
    throw (.invalidRange start stop)
  else do
    cover stop
    if start < stop then toggle start stop else pure ()

/-- The record that is written before a flip of `[start, stop)` changes the set: one if the set is
too short, be the growth permitted or not, and none for an inverted range. -/
def flipRecord (bits : BitSet) (start stop : Nat) : Option Record :=
  if start ≤ stop ∧ bits.length < stop then some (.growing start stop bits.length) else none

/-! ## Two sets -/

/-- Replaces every word by what `change` makes of its place and itself. -/
def changeWords (change : Nat → Word → Word) : Update Unit := fun bits =>
  .ok () { bits with words := bits.words.mapIdx change }

/-- Takes the conjunction with `other`, the shorter operand continued by false bits. -/
def intersect (other : BitSet) : Update Unit := do
  cover other.length
  changeWords fun place word => word &&& other.wordOrZero place

/-- Takes the disjunction with `other`, the shorter operand continued by false bits. -/
def unite (other : BitSet) : Update Unit := do
  cover other.length
  changeWords fun place word => word ||| other.wordOrZero place

end BitSet

end PackedStore
