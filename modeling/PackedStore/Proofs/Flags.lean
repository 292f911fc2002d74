import Mathlib.Logic.Basic
import PackedStore.Flags

/-!
# Flag sequences bit by bit

A flag sequence is known by its length and its booleans, so every operation on flag sequences is
stated by the length and the booleans of its result.
-/

namespace PackedStore

namespace Flags

/-- The boolean at `index`, false past the end. -/
def bit (flags : Flags) (index : Nat) : Bool :=
  (flags.get? index).getD false

theorem get?_of_lt {flags : Flags} {index : Nat} (inside : index < flags.length) :
    flags.get? index = some (flags.bit index) := by
  have stored : index < flags.bits.length := inside
  simp [bit, get?, stored]

theorem get?_of_le {flags : Flags} {index : Nat} (outside : flags.length ≤ index) :
    flags.get? index = none :=
  List.getElem?_eq_none outside

/-- Two flag sequences are equal if they have the same length and the same booleans. -/
theorem eq_of_bit_eq {left right : Flags} (length_eq : left.length = right.length)
    (bit_eq : ∀ index, left.bit index = right.bit index) : left = right := by
  suffices same : left.bits = right.bits by
    cases left
    cases right
    exact congrArg Flags.mk same
  apply List.ext_getElem?
  intro index
  rcases Nat.lt_or_ge index left.length with inside | outside
  · have left_get := get?_of_lt inside
    have right_get := get?_of_lt (length_eq ▸ inside)
    rw [get?] at left_get right_get
    rw [left_get, right_get, bit_eq]
  · have left_get := get?_of_le outside
    have right_get := get?_of_le (length_eq ▸ outside)
    rw [get?] at left_get right_get
    rw [left_get, right_get]

@[simp] theorem bit_zeros (length index : Nat) : (zeros length).bit index = false := by
  simp only [bit, get?, zeros, List.getElem?_replicate]
  split <;> rfl

theorem put?_of_lt {flags : Flags} {index : Nat} (value : Bool) (inside : index < flags.length) :
    ∃ after, flags.put? index value = some after ∧ after.length = flags.length ∧
      ∀ position, after.bit position = if position = index then value else flags.bit position := by
  refine ⟨_, if_pos inside, List.length_set, ?_⟩
  intro position
  have stored : index < flags.bits.length := inside
  rcases eq_or_ne position index with rfl | other
  · simp [bit, get?, stored]
  · simp [bit, get?, other, other.symm]

/-- The sequence with the booleans at all listed positions true, or `none` if one is past the
end. -/
def setAll? (flags : Flags) (positions : List Nat) : Option Flags :=
  positions.foldlM set? flags

theorem setAll?_of_forall_lt (flags : Flags) {positions : List Nat}
    (inside : ∀ index ∈ positions, index < flags.length) :
    ∃ after, flags.setAll? positions = some after ∧ after.length = flags.length ∧
      ∀ position, after.bit position =
        if position ∈ positions then true else flags.bit position := by
  induction positions generalizing flags with
  | nil => exact ⟨flags, rfl, rfl, by simp⟩
  | cons index positions induction =>
      obtain ⟨middle, put, length_eq, bit_eq⟩ := put?_of_lt true (inside index List.mem_cons_self)
      have inside' : ∀ later ∈ positions, later < middle.length := by
        intro later member
        rw [length_eq]
        exact inside later (List.mem_cons_of_mem index member)
      obtain ⟨after, rest, length_eq', bit_eq'⟩ := induction middle inside'
      refine ⟨after, ?_, length_eq'.trans length_eq, ?_⟩
      · rw [setAll?, List.foldlM_cons, set?, put]
        exact rest
      · intro position
        rw [bit_eq', bit_eq]
        rcases eq_or_ne position index with rfl | other
        · simp
        · simp [other]

@[simp] theorem bit_extend (flags : Flags) (length index : Nat) :
    (flags.extend length).bit index = flags.bit index := by
  simp only [bit, get?, extend, List.getElem?_append]
  rcases Nat.lt_or_ge index flags.bits.length with inside | outside
  · rw [if_pos inside]
  · rw [if_neg (Nat.not_lt.mpr outside), List.getElem?_replicate, List.getElem?_eq_none outside]
    split <;> rfl

theorem flip_of_le (flags : Flags) {start stop : Nat} (ordered : start ≤ stop) :
    ∃ after, flags.flip start stop = .ok after ∧ after.length = max flags.length stop ∧
      ∀ index, after.bit index = (flags.bit index ^^ decide (start ≤ index ∧ index < stop)) := by
  refine ⟨_, if_neg (Nat.not_lt.mpr ordered), ?_, ?_⟩
  · have extended := length_extend flags stop
    simpa only [Flags.length, List.length_mapIdx] using extended
  · intro index
    rw [← bit_extend flags stop index]
    by_cases inside : index < (flags.extend stop).bits.length
    · by_cases within : start ≤ index ∧ index < stop
      · simp [bit, get?, inside, within]
      · simp [bit, get?, inside, within]
    · have beyond : ¬index < stop := by
        have extended := length_extend flags stop
        simp only [Flags.length] at extended
        omega
      simp [bit, get?, inside, beyond]

theorem bit_combine {operation : Bool → Bool → Bool} (blank : operation false false = false)
    (left right : Flags) (index : Nat) :
    (combine operation left right).bit index = operation (left.bit index) (right.bit index) := by
  rw [← bit_extend left right.length index, ← bit_extend right left.length index]
  have left_length := length_extend left right.length
  have right_length := length_extend right left.length
  simp only [Flags.length] at left_length right_length
  simp only [bit, get?, combine, List.getElem?_zipWith]
  rcases Nat.lt_or_ge index (max left.bits.length right.bits.length) with inside | outside
  · rw [List.getElem?_eq_getElem (by simp only [Flags.length] at *; omega),
      List.getElem?_eq_getElem (by simp only [Flags.length] at *; omega)]
    rfl
  · rw [List.getElem?_eq_none (by simp only [Flags.length] at *; omega),
      List.getElem?_eq_none (by simp only [Flags.length] at *; omega)]
    exact blank.symm

/-! ## Lengths -/

theorem length_of_put? {flags after : Flags} {index : Nat} {value : Bool}
    (changed : flags.put? index value = some after) : after.length = flags.length := by
  rcases Nat.lt_or_ge index flags.length with inside | outside
  · obtain ⟨result, put, length_eq, -⟩ := put?_of_lt value inside
    rw [put, Option.some_inj] at changed
    rw [← changed, length_eq]
  · rw [put?, if_neg (Nat.not_lt.mpr outside)] at changed
    exact nomatch changed

theorem length_of_setAll? {flags after : Flags} {positions : List Nat}
    (changed : flags.setAll? positions = some after) : after.length = flags.length := by
  induction positions generalizing flags with
  | nil =>
      obtain rfl := Option.some_inj.mp changed
      rfl
  | cons index positions induction =>
      rw [setAll?, List.foldlM_cons] at changed
      obtain ⟨middle, put, rest⟩ := Option.bind_eq_some_iff.mp changed
      exact (induction rest).trans (length_of_put? put)

theorem length_of_flip {flags after : Flags} {start stop : Nat}
    (changed : (flags.flip start stop).toOption = some after) :
    after.length = max flags.length stop := by
  rcases Nat.lt_or_ge stop start with inverted | ordered
  · rw [flip, if_pos inverted] at changed
    exact nomatch changed
  · obtain ⟨result, flipped, length_eq, -⟩ := flags.flip_of_le ordered
    rw [flipped] at changed
    obtain rfl := Option.some_inj.mp changed
    exact length_eq

theorem length_le_of_combine {operation : Bool → Bool → Bool} {left right after : Flags}
    (combined : combine operation left right = after) : left.length ≤ after.length := by
  rw [← combined, length_combine]
  exact Nat.le_max_left _ _

/-! ## Positions that hold true -/

/-- Only positions below `bound` hold true. -/
def Below (bound : Nat) (flags : Flags) : Prop :=
  ∀ index, flags.bit index = true → index < bound

variable {bound : Nat} {before after : Flags}

theorem below_zeros (bound length : Nat) : (zeros length).Below bound := by
  intro index one
  rw [bit_zeros] at one
  exact nomatch one

theorem Below.put? (below : before.Below bound) {index : Nat} {value : Bool} (small : index < bound)
    (changed : before.put? index value = some after) : after.Below bound := by
  intro position one
  rcases Nat.lt_or_ge index before.length with inside | outside
  · obtain ⟨result, put, -, bit_eq⟩ := put?_of_lt value inside
    rw [put, Option.some_inj] at changed
    rw [← changed, bit_eq] at one
    split at one
    · next same => exact same ▸ small
    · exact below position one
  · rw [Flags.put?, if_neg (Nat.not_lt.mpr outside)] at changed
    exact nomatch changed

theorem Below.setAll? (below : before.Below bound) {positions : List Nat}
    (small : ∀ index ∈ positions, index < bound)
    (changed : before.setAll? positions = some after) : after.Below bound := by
  induction positions generalizing before with
  | nil =>
      obtain rfl := Option.some_inj.mp changed
      exact below
  | cons index positions induction =>
      rw [Flags.setAll?, List.foldlM_cons] at changed
      obtain ⟨middle, put, rest⟩ := Option.bind_eq_some_iff.mp changed
      have step : middle.Below bound := below.put? (small index List.mem_cons_self) put
      have others : ∀ later ∈ positions, later < bound := fun later member =>
        small later (List.mem_cons_of_mem index member)
      exact induction step others rest

theorem Below.flip (below : before.Below bound) {start stop : Nat} (small : stop ≤ bound)
    (changed : (before.flip start stop).toOption = some after) : after.Below bound := by
  rcases Nat.lt_or_ge stop start with inverted | ordered
  · rw [Flags.flip, if_pos inverted] at changed
    exact nomatch changed
  · obtain ⟨result, flipped, -, bit_eq⟩ := before.flip_of_le ordered
    rw [flipped] at changed
    obtain rfl := Option.some_inj.mp changed
    intro index one
    rw [bit_eq] at one
    rcases Nat.lt_or_ge index stop with inside | outside
    · exact Nat.lt_of_lt_of_le inside small
    · apply below
      simpa [Nat.not_lt.mpr outside] using one

theorem Below.combine {operation : Bool → Bool → Bool} (blank : operation false false = false)
    {left right : Flags} (leftBelow : left.Below bound) (rightBelow : right.Below bound) :
    (left.combine operation right).Below bound := by
  intro index one
  rw [bit_combine blank] at one
  cases leftBit : left.bit index with
  | true => exact leftBelow index leftBit
  | false =>
      cases rightBit : right.bit index with
      | true => exact rightBelow index rightBit
      | false =>
          rw [leftBit, rightBit, blank] at one
          exact nomatch one

/-! ## A sequence combined with itself -/

theorem combine_self {operation : Bool → Bool → Bool}
    (idempotent : ∀ value, operation value value = value)
    (flags : Flags) : flags.combine operation flags = flags := by
  apply eq_of_bit_eq
  · simp
  · intro index
    rw [bit_combine (idempotent false), idempotent]

end Flags

end PackedStore
