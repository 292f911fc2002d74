import Mathlib.Algebra.Group.Nat.Defs
import Mathlib.Data.Set.Function
import PackedStore.Handle

/-!
# Packing of handles

The three parts of a handle occupy disjoint places of its word, so packing and taking apart undo
each other: every handle stands for one choice of parts, and every choice of parts whose slot fits
its place has one handle.
-/

namespace PackedStore

namespace Handle

/-! ## Parts as figures -/

theorem slot_parts_lt (handle : Handle) : handle.parts.slot < 2 ^ 24 := by
  simp only [parts, UInt32.toNat_and]
  exact Nat.lt_of_le_of_lt Nat.and_le_right (by decide)

/-- A packed handle as a number: the parts stand at the places of the values `2 ^ 56`, `2 ^ 32` and
one. -/
theorem toNat_pack (tag : UInt8) {slot : Nat} (generation : UInt32) (small : slot < 2 ^ 24) :
    (pack tag slot generation).word.toNat =
      tag.toNat * 2 ^ 56 + slot * 2 ^ 32 + generation.toNat := by
  have tag_lt := tag.toNat_lt
  have generation_lt := generation.toNat_lt
  have high : (tag.toUInt64 <<< 56).toNat = (tag.toNat * 2 ^ 24) <<< 32 := by
    rw [UInt64.toNat_shiftLeft]
    simp [Nat.shiftLeft_eq]
    omega
  have middle : (UInt64.ofNat slot <<< 32).toNat = slot <<< 32 := by
    rw [UInt64.toNat_shiftLeft]
    simp [Nat.shiftLeft_eq]
    omega
  have upper : tag.toNat * 2 ^ 24 ||| slot = tag.toNat * 2 ^ 24 + slot := by
    rw [← Nat.shiftLeft_eq, Nat.shiftLeft_add_eq_or_of_lt small]
  calc
    (pack tag slot generation).word.toNat =
        (tag.toNat * 2 ^ 24 ||| slot) <<< 32 ||| generation.toNat := by
      rw [pack, UInt64.toNat_or, UInt64.toNat_or, high, middle, UInt32.toNat_toUInt64,
        Nat.shiftLeft_or_distrib]
    _ = (tag.toNat * 2 ^ 24 + slot) <<< 32 + generation.toNat := by
      rw [upper, Nat.shiftLeft_add_eq_or_of_lt generation_lt]
    _ = tag.toNat * 2 ^ 56 + slot * 2 ^ 32 + generation.toNat := by
      rw [Nat.shiftLeft_eq]
      omega

theorem toNat_tag (handle : Handle) : handle.parts.tag.toNat = handle.word.toNat / 2 ^ 56 := by
  have word_lt := handle.word.toNat_lt
  simp [parts, Nat.shiftRight_eq_div_pow]
  omega

theorem slot_eq (handle : Handle) : handle.parts.slot = handle.word.toNat / 2 ^ 32 % 2 ^ 24 := by
  have word_lt := handle.word.toNat_lt
  have masked := Nat.and_two_pow_sub_one_eq_mod (handle.word.toNat / 2 ^ 32 % 2 ^ 32) 24
  simp [parts, Nat.shiftRight_eq_div_pow] at masked ⊢
  omega

theorem toNat_generation (handle : Handle) :
    handle.parts.generation.toNat = handle.word.toNat % 2 ^ 32 := by
  simp [parts]

/-- A handle as a number: nothing but its parts, each at its place. -/
theorem toNat_word (handle : Handle) :
    handle.word.toNat =
      handle.parts.tag.toNat * 2 ^ 56 + handle.parts.slot * 2 ^ 32 +
        handle.parts.generation.toNat := by
  rw [toNat_tag, slot_eq, toNat_generation]
  omega

/-! ## Packing and taking apart -/

/-- Taking a packed handle apart gives the parts it was packed from. -/
theorem parts_pack (tag : UInt8) {slot : Nat} (generation : UInt32) (small : slot < 2 ^ 24) :
    (pack tag slot generation).parts = ⟨tag, slot, generation⟩ := by
  have packed := toNat_pack tag generation small
  have tag_lt := tag.toNat_lt
  have generation_lt := generation.toNat_lt
  have tag_eq : (pack tag slot generation).parts.tag = tag := by
    apply UInt8.toNat_inj.mp
    rw [toNat_tag, packed]
    omega
  have place_eq : (pack tag slot generation).parts.slot = slot := by
    rw [slot_eq, packed]
    omega
  have generation_eq : (pack tag slot generation).parts.generation = generation := by
    apply UInt32.toNat_inj.mp
    rw [toNat_generation, packed]
    omega
  calc
    (pack tag slot generation).parts =
        ⟨(pack tag slot generation).parts.tag, (pack tag slot generation).parts.slot,
          (pack tag slot generation).parts.generation⟩ := rfl
    _ = ⟨tag, slot, generation⟩ := by rw [tag_eq, place_eq, generation_eq]

/-- Packing the parts of a handle gives the handle. -/
theorem pack_parts (handle : Handle) :
    pack handle.parts.tag handle.parts.slot handle.parts.generation = handle := by
  have word_eq :
      (pack handle.parts.tag handle.parts.slot handle.parts.generation).word = handle.word := by
    apply UInt64.toNat_inj.mp
    rw [toNat_pack _ _ handle.slot_parts_lt, ← toNat_word]
  cases handle
  exact congrArg Handle.mk word_eq

/-- A handle is recognised by its parts. -/
theorem eq_pack_iff {handle : Handle} {tag : UInt8} {slot : Nat} {generation : UInt32}
    (small : slot < 2 ^ 24) :
    handle = pack tag slot generation ↔
      handle.parts.tag = tag ∧ handle.parts.slot = slot ∧ handle.parts.generation = generation := by
  constructor
  · rintro rfl
    rw [parts_pack tag generation small]
    exact ⟨rfl, rfl, rfl⟩
  · rintro ⟨rfl, rfl, rfl⟩
    exact (pack_parts handle).symm

end Handle

/-! ## One handle for each choice of parts -/

namespace HandleParts

/-- The handle in which the parts are packed. -/
def handle (parts : HandleParts) : Handle :=
  .pack parts.tag parts.slot parts.generation

/-- Parts come back from their handle exactly if the slot fits its place. -/
theorem parts_handle_eq_iff (parts : HandleParts) :
    parts.handle.parts = parts ↔ parts.slot < 2 ^ 24 := by
  constructor
  · intro same
    rw [← same]
    exact parts.handle.slot_parts_lt
  · exact Handle.parts_pack parts.tag parts.generation

/-- Taking apart is the inverse of packing parts whose slot fits its place. -/
theorem invOn_parts_handle :
    Set.InvOn Handle.parts handle {parts | parts.slot < 2 ^ 24} Set.univ := by
  constructor
  · intro parts small
    exact parts.parts_handle_eq_iff.mpr small
  · intro handle _
    exact handle.pack_parts

end HandleParts

/-- Packing is a bijection from the parts whose slot fits its place to all handles. Parts come back
from their handle exactly if the slot does fit; every handle has such parts, is packed from them and
is, as a number, made up of them; and every word is the handle of exactly one such choice. -/
theorem Handle.pack_bijective :
    (∀ tag slot generation,
        (pack tag slot generation).parts = ⟨tag, slot, generation⟩ ↔ slot < 2 ^ 24) ∧
      (∀ handle : Handle, handle.parts.slot < 2 ^ 24 ∧
        pack handle.parts.tag handle.parts.slot handle.parts.generation = handle ∧
        handle.word.toNat =
          handle.parts.tag.toNat * 2 ^ 56 + handle.parts.slot * 2 ^ 32 +
            handle.parts.generation.toNat) ∧
      Set.BijOn HandleParts.handle {parts | parts.slot < 2 ^ 24} Set.univ ∧
      ∀ word : UInt64, ∃! parts : HandleParts,
        parts.slot < 2 ^ 24 ∧ parts.handle.word = word := by
  refine ⟨?_, ?_, ?_, ?_⟩
  · intro tag slot generation
    exact HandleParts.parts_handle_eq_iff ⟨tag, slot, generation⟩
  · intro handle
    exact ⟨handle.slot_parts_lt, handle.pack_parts, handle.toNat_word⟩
  · apply HandleParts.invOn_parts_handle.bijOn
    · exact Set.mapsTo_univ _ _
    · intro handle _
      exact handle.slot_parts_lt
  · intro word
    refine ⟨parts ⟨word⟩, ⟨slot_parts_lt ⟨word⟩, congrArg Handle.word (pack_parts ⟨word⟩)⟩, ?_⟩
    rintro other ⟨small, rfl⟩
    exact (other.parts_handle_eq_iff.mpr small).symm

-- Two words next to each other whose parts all differ.
example :
    (Handle.mk 0x07ffffffffffffff).parts = ⟨7, 0xffffff, 0xffffffff⟩ ∧
      (Handle.mk 0x0800000000000000).parts = ⟨8, 0, 0⟩ := by decide

end PackedStore
