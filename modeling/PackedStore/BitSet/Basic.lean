import PackedStore.Fault
import PackedStore.Word

/-!
# Bit sets

A bit set is a sequence of `length` booleans packed in words. Bits of the last word at or beyond
`length` are zero, so counting, scanning and comparison work on whole words. The length grows, up to
the set's limit, when a flip reaches past the end or when the set meets a longer operand; it never
shrinks. This file holds the set and the questions about it; `PackedStore.BitSet.Update` holds the
changes.
-/

namespace PackedStore

namespace BitSet

/-- How long a bit set may grow. -/
structure Limit where
  /-- The greatest permitted number of bits. -/
  maxLength : Nat := UInt32.size - 1
deriving DecidableEq, Repr

namespace Limit

/-- The bytes of storage that a set of the greatest permitted length takes. -/
def maxBytes (limit : Limit) : Nat :=
  Word.needed limit.maxLength * 8

end Limit

/-- Why an operation on a bit set fails. -/
inductive Error where
  /-- `index` is not a position of a set of `length` bits. -/
  | outOfRange (index length : Nat)
  /-- The range `[start, stop)` is inverted. -/
  | invalidRange (start stop : Nat)
  /-- The operation needs `requested` bits, more than `limit`. -/
  | limitExceeded (requested limit : Nat)
  /-- The storage lacks a word that the length promises. -/
  | fault (cause : Fault)
deriving DecidableEq, Repr

namespace Error

/-- The text of an error. -/
def message : Error → String
  | outOfRange index length => s!"bit index {index} out of range for length {length}"
  | invalidRange start stop => s!"invalid bit range: start {start} > end {stop}"
  | limitExceeded requested limit =>
      s!"bit set length {requested} exceeds configured limit {limit}"
  | fault cause => cause.message

/-- An error as its kind and its named figures. -/
def detail : Error → String
  | outOfRange index length => s!"OutOfRange \x7b index: {index}, len: {length} \x7d"
  | invalidRange start stop => s!"InvalidRange \x7b start: {start}, end: {stop} \x7d"
  | limitExceeded requested limit =>
      s!"LengthLimitExceeded \x7b requested: {requested}, limit: {limit} \x7d"
  | fault cause => cause.message

end Error

end BitSet

/-- A growable sequence of booleans packed in words. -/
structure BitSet where
  /-- The bits, sixty-four to a word, lowest position first. -/
  words : Array Word
  /-- The number of bits. -/
  length : Nat
  /-- How long the set may grow. -/
  limit : BitSet.Limit
deriving DecidableEq, Repr

namespace BitSet

/-- A set of `length` bits, all false. -/
def zeros (length : Nat) (limit : Limit) : Except Error BitSet :=
  if limit.maxLength < length then
    .error (.limitExceeded length limit.maxLength)
  else
    .ok ⟨Array.replicate (Word.needed length) 0, length, limit⟩

/-- Whether the set has no bits at all. -/
def isEmpty (bits : BitSet) : Bool :=
  bits.length == 0

/-- Whether two sets have the same length and the same words, whatever their limits. -/
def sameBits (left right : BitSet) : Bool :=
  left.length == right.length && left.words == right.words

/-- The word at `place`, zero beyond the storage. -/
def wordOrZero (bits : BitSet) (place : Nat) : Word :=
  bits.words[place]?.getD 0

/-- The word at `place`, which the storage must hold. -/
def wordAt (bits : BitSet) (place : Nat) : Except Error Word :=
  match bits.words[place]? with
  | some word => .ok word
  | none => .error (.fault ⟨place, bits.words.size⟩)

/-- The bit at `index`. -/
def get (bits : BitSet) (index : Nat) : Except Error Bool :=
  if bits.length ≤ index then
    .error (.outOfRange index bits.length)
  else
    (bits.wordAt (index / Word.width)).map (·.testBit index)

/-- The number of true bits. -/
def cardinality (bits : BitSet) : Nat :=
  bits.words.foldl (fun count word => count + word.popCount) 0

/-- The lowest one in `word`, the word at `place`, or else in a later word. -/
def seek (words : Array Word) (place : Nat) (word : Word) : Option Nat :=
  match word.lowest? with
  | some offset => some (place * Word.width + offset)
  | none =>
      if inside : place + 1 < words.size then
        seek words (place + 1) words[place + 1]
      else
        none
termination_by words.size - place

/-- The lowest position at or after `start` that holds a true bit. -/
def nextOne? (bits : BitSet) (start : Nat) : Except Error (Option Nat) :=
  if bits.length ≤ start then
    .ok none
  else
    (bits.wordAt (start / Word.width)).map fun word =>
      seek bits.words (start / Word.width) (word &&& Word.upward start)

end BitSet

end PackedStore
