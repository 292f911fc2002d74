import PackedStore.BitSet.Basic

/-!
# Enumerating the ones of a bit set

A cursor holds the word it stands in, stripped of the ones already given out, and the words still
to come. Each step gives out the lowest one left; a cursor that has given out all of them gives out
nothing more.
-/

namespace PackedStore

namespace BitSet

/-- A place in the ascending enumeration of a set's true positions. -/
structure Cursor where
  /-- The position of the current word's lowest bit. -/
  base : Nat
  /-- The ones of the current word that have not been given out. -/
  current : Word
  /-- The words after the current one. -/
  later : List Word
deriving DecidableEq, Repr

namespace Cursor

/-- A cursor in front of the first of `words`, whose lowest bit is at position `base`. -/
def ofWords (base : Nat) : List Word → Cursor
  | [] => ⟨base, 0, []⟩
  | word :: words => ⟨base, word, words⟩

/-- The next one in `word` or in the words after it, and the cursor behind it. -/
def advance (base : Nat) (word : Word) (later : List Word) : Option Nat × Cursor :=
  match word.lowest? with
  | some place => (some (base + place), ⟨base, word.clearLowest, later⟩)
  | none =>
      match later with
      | [] => (none, ⟨base + Word.width, 0, []⟩)
      | following :: later => advance (base + Word.width) following later

/-- The next true position, or `none` when all have been given out, and the cursor behind it. -/
def next (cursor : Cursor) : Option Nat × Cursor :=
  advance cursor.base cursor.current cursor.later

/-- A bound that every position given out lowers. -/
def weight (cursor : Cursor) : Nat :=
  cursor.later.length * UInt64.size + cursor.current.toNat

theorem weight_advance_lt {base position : Nat} {word : Word} {later : List Word} {rest : Cursor}
    (found : advance base word later = (some position, rest)) :
    rest.weight < later.length * UInt64.size + word.toNat := by
  cases lowest : word.lowest? with
  | some place =>
      unfold advance at found
      simp only [lowest, Prod.mk.injEq] at found
      obtain ⟨-, rfl⟩ := found
      have := Word.toNat_clearLowest_lt (Word.ne_zero_of_lowest? lowest)
      simpa [weight] using this
  | none =>
      cases later with
      | nil =>
          unfold advance at found
          simp [lowest] at found
      | cons following later =>
          unfold advance at found
          simp only [lowest] at found
          calc
            rest.weight < later.length * UInt64.size + following.toNat := weight_advance_lt found
            _ < later.length * UInt64.size + UInt64.size :=
              Nat.add_lt_add_left following.toNat_lt_size _
            _ = (following :: later).length * UInt64.size := (Nat.succ_mul _ _).symm
            _ ≤ (following :: later).length * UInt64.size + word.toNat := Nat.le_add_right _ _

theorem weight_next_lt {cursor rest : Cursor} {position : Nat}
    (found : cursor.next = (some position, rest)) : rest.weight < cursor.weight :=
  weight_advance_lt found

/-- The positions given out so far, latest first, put in order and followed by all that are left. -/
def collect (cursor : Cursor) (given : List Nat) : List Nat :=
  match found : cursor.next with
  | (none, _) => given.reverse
  | (some position, rest) =>
      have := weight_next_lt found
      rest.collect (position :: given)
termination_by cursor.weight

/-- All positions that the cursor has still to give out, ascending. -/
def toList (cursor : Cursor) : List Nat :=
  cursor.collect []

/-- What the next `count` steps give out, and the cursor behind them. -/
def steps (cursor : Cursor) : Nat → List (Option Nat) × Cursor
  | 0 => ([], cursor)
  | count + 1 =>
      let (given, rest) := cursor.next
      let (following, last) := rest.steps count
      (given :: following, last)

end Cursor

/-- A cursor in front of the set's first true position. -/
def cursor (bits : BitSet) : Cursor :=
  Cursor.ofWords 0 bits.words.toList

/-- The true positions of a set, ascending. -/
def positions (bits : BitSet) : List Nat :=
  bits.cursor.toList

end BitSet

end PackedStore
