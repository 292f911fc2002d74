/-!
# A seeded word stream

The ChaCha stream cipher with eight rounds as a source of reproducible 32-bit words: a 64-bit seed
is stretched to a key, and block after block of the cipher's output is the stream.
-/

namespace PackedStore

namespace ChaCha

/-- The cipher's sixteen words. -/
abbrev State : Type :=
  Vector UInt32 16

/-- A word rotated left. -/
def rotateLeft (word count : UInt32) : UInt32 :=
  (word <<< count) ||| (word >>> (32 - count))

/-- A word rotated right. -/
def rotateRight (word count : UInt32) : UInt32 :=
  (word >>> count) ||| (word <<< (32 - count))

/-- The state with word `target` raised by word `addend`, and word `other` then mixed with the sum
and rotated. -/
def mix (target addend other : Fin 16) (count : UInt32) (state : State) : State :=
  let summed := state.set target (state[target] + state[addend])
  summed.set other (rotateLeft (summed[other] ^^^ summed[target]) count)

/-- A quarter round on four words. -/
def quarterRound (a b c d : Fin 16) (state : State) : State :=
  mix c d b 7 (mix a b d 8 (mix c d b 12 (mix a b d 16 state)))

/-- Four quarter rounds on the columns and four on the diagonals. -/
def doubleRound (state : State) : State :=
  let columns := quarterRound 3 7 11 15 (quarterRound 2 6 10 14
    (quarterRound 1 5 9 13 (quarterRound 0 4 8 12 state)))
  quarterRound 3 4 9 14 (quarterRound 2 7 8 13
    (quarterRound 1 6 11 12 (quarterRound 0 5 10 15 columns)))

/-- The state before the rounds: four constants, the key, the block's number and two zeros. -/
def initial (key : Vector UInt32 8) (number : UInt64) : State :=
  (#v[0x61707865, 0x3320646e, 0x79622d32, 0x6b206574] : Vector UInt32 4) ++ key ++
    #v[number.toUInt32, (number >>> 32).toUInt32, 0, 0]

/-- The block of output with the given number. -/
def block (key : Vector UInt32 8) (number : UInt64) : State :=
  let start := initial key number
  start.zipWith (· + ·) (doubleRound (doubleRound (doubleRound (doubleRound start))))

/-! ## From a seed to a stream -/

/-- The next state of the generator that stretches a seed. -/
def stretch (state : UInt64) : UInt64 :=
  state * 6364136223846793005 + 11634580027462260723

/-- The word that a state of the generator yields. -/
def yieldWord (state : UInt64) : UInt32 :=
  rotateRight (((state >>> 18) ^^^ state) >>> 27).toUInt32 (state >>> 59).toUInt32

/-- The generator's state after `steps` steps. -/
def stretched (seed : UInt64) (steps : Nat) : UInt64 :=
  steps.repeat stretch seed

/-- The key of a seed. -/
def keyOf (seed : UInt64) : Vector UInt32 8 :=
  Vector.ofFn fun place => yieldWord (stretched seed (place + 1))

/-- The words that a seed yields, by number. -/
def stream (seed : UInt64) : Nat → UInt32 :=
  let key := keyOf seed
  fun index =>
    (block key (UInt64.ofNat (index / 16))).get ⟨index % 16, Nat.mod_lt index (by decide)⟩

end ChaCha

end PackedStore
