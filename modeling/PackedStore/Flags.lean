/-!
# Flag sequences

The plain form of a bit set: a list with one boolean to a position. It grows and zero-extends by the
rules of a bit set, and every operation is stated position by position.
-/

namespace PackedStore

/-- A growable sequence of booleans, one list entry to a position. -/
structure Flags where
  /-- The booleans, lowest position first. -/
  bits : List Bool := []
deriving DecidableEq, Repr

namespace Flags

/-- Why an operation on a flag sequence fails. -/
inductive Error where
  /-- The end of a range lies before its start. -/
  | invertedRange
deriving DecidableEq, Repr

namespace Error

/-- The text of an error. -/
def message : Error → String
  | invertedRange => "model flip with start > end"

end Error

/-- A sequence of `length` false booleans. -/
def zeros (length : Nat) : Flags :=
  ⟨List.replicate length false⟩

/-- The number of positions. -/
def length (flags : Flags) : Nat :=
  flags.bits.length

/-- Whether the sequence has no positions. -/
def isEmpty (flags : Flags) : Bool :=
  flags.bits.isEmpty

/-- The boolean at `index`, or `none` past the end. -/
def get? (flags : Flags) (index : Nat) : Option Bool :=
  flags.bits[index]?

/-- The sequence with `value` at `index`, or `none` past the end. -/
def put? (flags : Flags) (index : Nat) (value : Bool) : Option Flags :=
  if index < flags.length then some ⟨flags.bits.set index value⟩ else none

/-- The sequence with the boolean at `index` true, or `none` past the end. -/
def set? (flags : Flags) (index : Nat) : Option Flags :=
  flags.put? index true

/-- The sequence with the boolean at `index` false, or `none` past the end. -/
def clear? (flags : Flags) (index : Nat) : Option Flags :=
  flags.put? index false

/-- The sequence with false booleans appended up to `length` positions. -/
def extend (flags : Flags) (length : Nat) : Flags :=
  ⟨flags.bits ++ List.replicate (length - flags.length) false⟩

/-- The sequence with the booleans of `[start, stop)` toggled, extended to `stop` first. -/
def flip (flags : Flags) (start stop : Nat) : Except Error Flags :=
  if stop < start then
    .error .invertedRange
  else
    .ok ⟨(flags.extend stop).bits.mapIdx fun index value =>
      if start ≤ index ∧ index < stop then !value else value⟩

/-- Two sequences combined position by position, the shorter one continued by false. -/
def combine (operation : Bool → Bool → Bool) (left right : Flags) : Flags :=
  ⟨List.zipWith operation (left.extend right.length).bits (right.extend left.length).bits⟩

/-- The conjunction of two sequences. -/
def intersect : Flags → Flags → Flags :=
  combine (· && ·)

/-- The disjunction of two sequences. -/
def unite : Flags → Flags → Flags :=
  combine (· || ·)

/-- The number of true booleans. -/
def cardinality (flags : Flags) : Nat :=
  flags.bits.count true

/-- The lowest position at or after `start` that holds true. -/
def nextOne? (flags : Flags) (start : Nat) : Option Nat :=
  ((flags.bits.drop start).idxOf? true).map (start + ·)

/-- The positions that hold true, ascending. -/
def positions (flags : Flags) : List Nat :=
  (flags.bits.zipIdx.filter (·.1)).map (·.2)

/-! ## Lengths -/

@[simp] theorem length_zeros (length : Nat) : (zeros length).length = length :=
  List.length_replicate

@[simp] theorem length_extend (flags : Flags) (length : Nat) :
    (flags.extend length).length = max flags.length length := by
  simp only [extend, Flags.length, List.length_append, List.length_replicate]
  omega

@[simp] theorem length_combine (operation : Bool → Bool → Bool) (left right : Flags) :
    (combine operation left right).length = max left.length right.length := by
  have left_length := length_extend left right.length
  have right_length := length_extend right left.length
  simp only [Flags.length, combine, List.length_zipWith] at *
  omega

end Flags

end PackedStore
