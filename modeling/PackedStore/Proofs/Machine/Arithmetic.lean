import Mathlib.Algebra.Group.Nat.Defs
import PackedStore.Word

/-!
# Arithmetic that may stop

A machine counts up to a bound, cannot go below zero, shifts a word by less than its width and cuts
only what is there; beyond that it stops. Here the stop is made plain as `none`. Making the masks of
a word never stops the machine.
-/

namespace PackedStore

namespace Machine

/-- A sum, if it stays below two to the sixty-fourth. -/
def add (left right : Nat) : Option Nat :=
  if left + right < 2 ^ 64 then some (left + right) else none

/-- A product, if it stays below two to the sixty-fourth. -/
def mul (left right : Nat) : Option Nat :=
  if left * right < 2 ^ 64 then some (left * right) else none

/-- A difference, if it does not fall below zero. -/
def sub (left right : Nat) : Option Nat :=
  if right ≤ left then some (left - right) else none

/-- A shift to the left, by less than the width of the word. -/
def shiftLeft (word : Word) (amount : Nat) : Option Word :=
  if amount < Word.width then some (word <<< UInt64.ofNat amount) else none

/-- A shift to the right, by less than the width of the word. -/
def shiftRight (word : Word) (amount : Nat) : Option Word :=
  if amount < Word.width then some (word >>> UInt64.ofNat amount) else none

/-- The entries at the places `first`, …, `last - 1`, if all of them are there. -/
def slice {α : Type} (entries : Array α) (first last : Nat) : Option (Array α) :=
  if first ≤ last ∧ last ≤ entries.size then some (entries.extract first last) else none

theorem add_of_lt {left right : Nat} (fits : left + right < 2 ^ 64) :
    add left right = some (left + right) :=
  if_pos fits

theorem mul_of_lt {left right : Nat} (fits : left * right < 2 ^ 64) :
    mul left right = some (left * right) :=
  if_pos fits

theorem sub_of_le {left right : Nat} (enough : right ≤ left) :
    sub left right = some (left - right) :=
  if_pos enough

theorem slice_of_le {α : Type} {entries : Array α} {first last : Nat} (ordered : first ≤ last)
    (inside : last ≤ entries.size) : slice entries first last = some (entries.extract first last) :=
  if_pos ⟨ordered, inside⟩

/-! ## Masks -/

/-- The word whose only one is at the place of `position`. -/
def single (position : Nat) : Option Word :=
  shiftLeft 1 (position % Word.width)

/-- Ones at the place of `position` and at every higher place. -/
def upward (position : Nat) : Option Word :=
  shiftLeft Word.full (position % Word.width)

/-- Ones at the place of `position` and at every lower place. -/
def downward (position : Nat) : Option Word := do
  let highest ← sub Word.width 1
  shiftRight Word.full (← sub highest (position % Word.width))

@[simp] theorem single_eq (position : Nat) : single position = some (Word.single position) :=
  if_pos (Nat.mod_lt position Word.width_pos)

@[simp] theorem upward_eq (position : Nat) : upward position = some (Word.upward position) :=
  if_pos (Nat.mod_lt position Word.width_pos)

@[simp] theorem downward_eq (position : Nat) :
    downward position = some (Word.downward position) := by
  have small : position % Word.width ≤ Word.width - 1 :=
    Nat.le_sub_one_of_lt (Nat.mod_lt position Word.width_pos)
  have within : Word.width - 1 - position % Word.width < Word.width :=
    Nat.lt_of_le_of_lt (Nat.sub_le _ _) (Nat.sub_lt Word.width_pos Nat.one_pos)
  simp only [downward, sub_of_le Word.width_pos, sub_of_le small, Option.bind_eq_bind,
    Option.bind_some]
  exact if_pos within

end Machine

end PackedStore
