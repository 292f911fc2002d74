import PackedStore.BitSet.Update
import PackedStore.Sampling.ChaCha

/-!
# Seeded samples

Reproducible test data drawn from a stream of 32-bit words: positions, integers, fractions, bursts
for a buffer and sparse bit sets. Every draw is a function of the stream; the last section takes
the streams from seeds.
-/

namespace PackedStore

namespace Sampling

/-- The words of a generator, by number. -/
abbrev Stream : Type :=
  Nat → UInt32

/-- Why a sample cannot be drawn. -/
inductive Error where
  /-- Positions were asked for below zero. -/
  | zeroBound
  /-- Bursts were asked for that hold no elements. -/
  | zeroBurst
  /-- A set of the length asked for cannot be made. -/
  | length (cause : BitSet.Error)
  /-- A drawn position is refused by the set. -/
  | position (cause : BitSet.Error)
deriving DecidableEq, Repr

namespace Error

/-- The text of an error. -/
def message : Error → String
  | zeroBound => "bound must be non-zero"
  | zeroBurst => "max_burst must be non-zero"
  | length cause => s!"benchmark length within default limit: {cause.detail}"
  | position cause => s!"positions drawn below len: {cause.detail}"

end Error

/-- The 64-bit number with the given index: two words, the low half first. -/
def wide (words : Stream) (index : Nat) : UInt64 :=
  (words (2 * index)).toUInt64 ||| ((words (2 * index + 1)).toUInt64 <<< 32)

/-- Positions below `bound`, repetitions included. -/
def positions (words : Stream) (count bound : Nat) : Except Error (List Nat) :=
  if bound = 0 then
    .error .zeroBound
  else
    .ok ((List.range count).map fun index => (wide words index).toNat % bound)

/-- Integers, each the signed reading of one word. -/
def ints (words : Stream) (count : Nat) : List Int32 :=
  (List.range count).map fun index => (words index).toInt32

/-- The single-precision pattern of `numerator / 2^24`, for a numerator below `2^24`. -/
def fractionPattern (numerator : Nat) : UInt32 :=
  if numerator = 0 then
    0
  else
    let exponent := numerator.log2
    UInt32.ofNat <|
      ((103 + exponent) <<< 23) + ((numerator - (1 <<< exponent)) <<< (23 - exponent))

/-- Fractions in `[0, 1)` as single-precision patterns, each from the upper 24 bits of one word. -/
def fractions (words : Stream) (count : Nat) : List UInt32 :=
  (List.range count).map fun index => fractionPattern ((words index).toNat >>> 8)

/-- Elements cut into bursts. Each burst takes its first element and as many more as the next word
gives modulo `maxBurst`, as far as there are any. -/
def cutUp {α : Type} (cuts : Stream) (maxBurst : Nat) (drawn : Nat) : List α → List (List α)
  | [] => []
  | element :: rest =>
      let more := (cuts drawn).toNat % maxBurst
      (element :: rest.take more) :: cutUp cuts maxBurst (drawn + 1) (rest.drop more)
termination_by elements => elements.length
decreasing_by
  simp only [List.length_drop, List.length_cons]
  omega

/-- `total` integers cut into bursts of one to `maxBurst`. -/
def bursts (data cuts : Stream) (total maxBurst : Nat) : Except Error (List (List Int32)) :=
  if maxBurst = 0 then
    .error .zeroBurst
  else
    .ok (cutUp cuts maxBurst 0 (ints data total))

/-- A bit set of `length` bits in which `count` drawn positions are true. -/
def scattered (words : Stream) (length count : Nat) : Except Error BitSet := do
  let zeros ← (BitSet.zeros length {}).mapError .length
  let drawn ← positions words count length
  match (BitSet.setAll drawn).run zeros with
  | .ok _ bits => return bits
  | .error error _ => throw (.position error)

/-! ## From seeds -/

/-- The seed of the stream that cuts bursts, beside the seed of their elements. -/
def cutSeed (seed : UInt64) : UInt64 :=
  seed ^^^ 0x9e3779b97f4a7c15

/-- Bursts whose elements and cuts come from one seed. -/
def burstsOfSeed (seed : UInt64) (total maxBurst : Nat) : Except Error (List (List Int32)) :=
  bursts (ChaCha.stream seed) (ChaCha.stream (cutSeed seed)) total maxBurst

end Sampling

end PackedStore
