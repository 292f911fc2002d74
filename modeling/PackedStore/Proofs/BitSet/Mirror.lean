import PackedStore.Proofs.BitSet.Effect
import PackedStore.Proofs.Flags

/-!
# A bit set and its flags

The flags of a well-formed bit set say everything about it but its limit. Every update does to the
flags of the set what the operation of the same name does to a flag sequence, or fails and leaves
the set as it was.
-/

namespace PackedStore

namespace BitSet

/-! ## The flags of a set -/

@[simp] theorem length_toFlags (bits : BitSet) : bits.toFlags.length = bits.length := by
  simp [toFlags, Flags.length]

theorem WellFormed.bit_toFlags {bits : BitSet} (wellFormed : bits.WellFormed) (index : Nat) :
    bits.toFlags.bit index = bits.bit index := by
  rcases Nat.lt_or_ge index bits.length with inside | outside
  · simp [Flags.bit, Flags.get?, toFlags, inside]
  · rw [wellFormed.bit_eq_false index outside, Flags.bit, Flags.get?_of_le]
    · rfl
    · rwa [length_toFlags]

/-- A set that became `length` bits of `view` has the flags of that length and view. -/
theorem Becomes.toFlags_eq {before after : BitSet} {length : Nat} {view : Nat → Bool}
    (becomes : Becomes before after length view) {flags : Flags} (length_eq : flags.length = length)
    (bit_eq : ∀ index, flags.bit index = view index) : flags = after.toFlags := by
  apply Flags.eq_of_bit_eq
  · rw [length_eq, length_toFlags, becomes.length_eq]
  · intro index
    rw [bit_eq, becomes.wellFormed.bit_toFlags, becomes.bit_eq]

theorem toFlags_zeros {length : Nat} {limit : Limit} {bits : BitSet}
    (made : zeros length limit = .ok bits) : bits.toFlags = Flags.zeros length := by
  have wellFormed := wellFormed_zeros made
  obtain ⟨-, rfl⟩ := zeros_eq_ok_iff.mp made
  apply Flags.eq_of_bit_eq
  · simp
  · intro index
    rw [wellFormed.bit_toFlags, bit_replicate_zero, Flags.bit_zeros]

/-! ## Updates of a set and of its flags -/

/-- On well-formed sets, `update` does to the set what `change` does to its flags and keeps the
limit, or else it fails, for another cause than a fault, and leaves the set as it was. -/
def Mirrors (update : Update Unit) (change : Flags → Option Flags) : Prop :=
  ∀ before : BitSet, before.WellFormed →
    (∃ after, update before = .ok () after ∧ after.WellFormed ∧ after.limit = before.limit ∧
        change before.toFlags = some after.toFlags) ∨
      ∃ error, update before = .error error before ∧ ∀ cause, error ≠ .fault cause

/-- An update that succeeds has done to the flags what it mirrors. -/
theorem Mirrors.of_ok {update : Update Unit} {change : Flags → Option Flags}
    (mirrors : Mirrors update change) {before after : BitSet} (wellFormed : before.WellFormed)
    (done : update.run before = .ok () after) :
    after.WellFormed ∧ change before.toFlags = some after.toFlags := by
  rcases mirrors before wellFormed with ⟨result, accepted, kept, -, changed⟩ | ⟨error, refused, -⟩
  · obtain rfl : result = after := (EStateM.Result.ok.inj (accepted.symm.trans done)).2
    exact ⟨kept, changed⟩
  · exact nomatch refused.symm.trans done

/-- An update that gives one position in range a value, and refuses a position out of range, mirrors
the same change of the flag sequence. -/
theorem mirrors_put {index : Nat} {value : Bool} {update : Update Unit}
    (puts : ∀ before : BitSet, before.WellFormed → index < before.length →
      ∃ after, update before = .ok () after ∧
        Becomes before after before.length fun position =>
          if position = index then value else before.bit position)
    (refuses : ∀ before : BitSet, before.length ≤ index →
      update before = .error (.outOfRange index before.length) before) :
    Mirrors update (·.put? index value) := by
  intro before wellFormed
  rcases Nat.lt_or_ge index before.length with inside | outside
  · left
    obtain ⟨after, done, becomes⟩ := puts before wellFormed inside
    obtain ⟨flags, put, length_eq, bit_eq⟩ :=
      Flags.put?_of_lt value (length_toFlags before ▸ inside)
    refine ⟨after, done, becomes.wellFormed, becomes.limit_eq, put.trans ?_⟩
    rw [becomes.toFlags_eq (length_eq.trans (length_toFlags before))]
    intro position
    rw [bit_eq, wellFormed.bit_toFlags]
  · right
    exact ⟨_, refuses before outside, fun _ => nofun⟩

theorem mirrors_set (index : Nat) : Mirrors (set index) (·.set? index) :=
  mirrors_put (fun _ wellFormed inside => set_of_lt wellFormed inside)
    fun _ outside => set_of_le outside

theorem mirrors_clear (index : Nat) : Mirrors (clear index) (·.clear? index) :=
  mirrors_put (fun _ wellFormed inside => clear_of_lt wellFormed inside)
    fun _ outside => clear_of_le outside

theorem mirrors_setAll (positions : List Nat) :
    Mirrors (setAll positions) (·.setAll? positions) := by
  intro before wellFormed
  cases first : positions.find? (fun position => decide (before.length ≤ position)) with
  | none =>
      left
      have inside : ∀ index ∈ positions, index < before.length := by
        intro index member
        simpa using List.find?_eq_none.mp first index member
      obtain ⟨after, done, becomes⟩ := setAll_of_forall_lt wellFormed inside
      obtain ⟨flags, put, length_eq, bit_eq⟩ :=
        Flags.setAll?_of_forall_lt before.toFlags (by rwa [length_toFlags])
      refine ⟨after, done, becomes.wellFormed, becomes.limit_eq, put.trans ?_⟩
      rw [becomes.toFlags_eq (length_eq.trans (length_toFlags before))]
      intro position
      rw [bit_eq, wellFormed.bit_toFlags]
  | some index =>
      right
      exact ⟨_, setAll_of_find? first, fun _ => nofun⟩

theorem mirrors_flip (start stop : Nat) :
    Mirrors (flip start stop) fun flags => (flags.flip start stop).toOption := by
  intro before wellFormed
  rcases Nat.lt_or_ge stop start with inverted | ordered
  · right
    exact ⟨_, flip_of_lt inverted, fun _ => nofun⟩
  · rcases Nat.lt_or_ge before.limit.maxLength stop with above | within
    · right
      exact ⟨_, flip_of_limit_lt wellFormed ordered above, fun _ => nofun⟩
    · left
      obtain ⟨after, done, becomes⟩ := flip_of_le wellFormed ordered within
      obtain ⟨flags, flipped, length_eq, bit_eq⟩ := before.toFlags.flip_of_le ordered
      have flags_eq : flags = after.toFlags := by
        apply becomes.toFlags_eq
        · rw [length_eq, length_toFlags]
        · intro index
          rw [bit_eq, wellFormed.bit_toFlags]
      refine ⟨after, done, becomes.wellFormed, becomes.limit_eq, ?_⟩
      rw [← flags_eq]
      exact congrArg Except.toOption flipped

/-- An update that combines a set bit by bit with a well-formed operand, where the limit permits
the operand's length, mirrors the combination of the two flag sequences. -/
theorem mirrors_combine {other : BitSet} {update : Update Unit} {operation : Bool → Bool → Bool}
    (otherWellFormed : other.WellFormed) (blank : operation false false = false)
    (combines : ∀ before : BitSet, before.WellFormed → other.length ≤ before.limit.maxLength →
      ∃ after, update before = .ok () after ∧
        Becomes before after (max before.length other.length) fun index =>
          operation (before.bit index) (other.bit index))
    (refuses : ∀ before : BitSet, before.WellFormed → before.limit.maxLength < other.length →
      update before = .error (.limitExceeded other.length before.limit.maxLength) before) :
    Mirrors update fun flags => some (flags.combine operation other.toFlags) := by
  intro before wellFormed
  rcases Nat.lt_or_ge before.limit.maxLength other.length with above | within
  · right
    exact ⟨_, refuses before wellFormed above, fun _ => nofun⟩
  · left
    obtain ⟨after, done, becomes⟩ := combines before wellFormed within
    refine ⟨after, done, becomes.wellFormed, becomes.limit_eq, ?_⟩
    rw [← becomes.toFlags_eq]
    · rw [Flags.length_combine, length_toFlags, length_toFlags]
    · intro index
      rw [Flags.bit_combine blank, wellFormed.bit_toFlags, otherWellFormed.bit_toFlags]

theorem mirrors_intersect {other : BitSet} (otherWellFormed : other.WellFormed) :
    Mirrors (intersect other) fun flags => some (flags.intersect other.toFlags) :=
  mirrors_combine otherWellFormed rfl
    (fun _ wellFormed within => intersect_of_le wellFormed otherWellFormed within)
    fun _ wellFormed above => intersect_of_lt wellFormed above

theorem mirrors_unite {other : BitSet} (otherWellFormed : other.WellFormed) :
    Mirrors (unite other) fun flags => some (flags.unite other.toFlags) :=
  mirrors_combine otherWellFormed rfl
    (fun _ wellFormed within => unite_of_le wellFormed otherWellFormed within)
    fun _ wellFormed above => unite_of_lt wellFormed above

end BitSet

end PackedStore
