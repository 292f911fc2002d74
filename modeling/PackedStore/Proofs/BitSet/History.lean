import PackedStore.Proofs.BitSet.Mirror

/-!
# Histories of bit sets

A history tells how a bit set came about: from which length and limit it started, and which calls
were made on it, in order, succeeding or failing. The operand of a combination has a history of its
own. Replaying a history on flag sequences, without the calls that the bit set refuses, gives the
flags of the bit set at every stage.
-/

namespace PackedStore

namespace BitSet

namespace Update

/-- The set after an update, whether the update succeeds or fails. -/
def leave (update : Update Unit) (before : BitSet) : BitSet :=
  match update.run before with
  | .ok _ after => after
  | .error _ after => after

/-- Whether an update succeeds. -/
def accepts (update : Update Unit) (before : BitSet) : Bool :=
  match update.run before with
  | .ok _ _ => true
  | .error _ _ => false

theorem leave_of_ok {update : Update Unit} {before after : BitSet}
    (done : update before = .ok () after) : update.leave before = after := by
  rw [leave, EStateM.run, done]

theorem leave_of_error {update : Update Unit} {before after : BitSet} {error : Error}
    (refused : update before = .error error after) : update.leave before = after := by
  rw [leave, EStateM.run, refused]

/-- The flags after a change that is made only if the set accepts the update; `none` if the change
cannot be made. -/
def follow (update : Update Unit) (before : BitSet) (change : Flags → Option Flags)
    (flags : Flags) : Option Flags :=
  if update.accepts before then change flags else some flags

end Update

/-- The set of `length` false bits that `zeros` makes under a limit that permits them. -/
def zerosWithin (length : Nat) (limit : Limit) (within : length ≤ limit.maxLength) : BitSet :=
  match made : zeros length limit with
  | .ok bits => bits
  | .error _ => absurd within fun _ => by simp [zeros, Nat.not_lt.mpr within] at made

theorem zeros_eq_zerosWithin {length : Nat} {limit : Limit} (within : length ≤ limit.maxLength) :
    zeros length limit = .ok (zerosWithin length limit within) := by
  unfold zerosWithin
  split
  · next made => exact made
  · next made => simp [zeros, Nat.not_lt.mpr within] at made

/-- How a bit set came about. Every stage of a run of calls is itself a history. -/
inductive History where
  /-- A set of false bits was made. -/
  | zeros (length : Nat) (limit : Limit) (within : length ≤ limit.maxLength)
  /-- The set was copied from another. -/
  | clone (original : History)
  /-- A bit was to be made true. -/
  | set (earlier : History) (index : Nat)
  /-- A bit was to be made false. -/
  | clear (earlier : History) (index : Nat)
  /-- All listed bits were to be made true. -/
  | setAll (earlier : History) (positions : List Nat)
  /-- The bits of `[start, stop)` were to be toggled. -/
  | flip (earlier : History) (start stop : Nat)
  /-- The conjunction with another set was to be taken. -/
  | intersect (earlier other : History)
  /-- The disjunction with another set was to be taken. -/
  | unite (earlier other : History)

namespace History

/-- The bit set at the end of a history. -/
def bits : History → BitSet
  | zeros length limit within => zerosWithin length limit within
  | clone original => original.bits
  | set earlier index => (BitSet.set index).leave earlier.bits
  | clear earlier index => (BitSet.clear index).leave earlier.bits
  | setAll earlier positions => (BitSet.setAll positions).leave earlier.bits
  | flip earlier start stop => (BitSet.flip start stop).leave earlier.bits
  | intersect earlier other => (BitSet.intersect other.bits).leave earlier.bits
  | unite earlier other => (BitSet.unite other.bits).leave earlier.bits

/-- The flag sequence at the end of a history that leaves out every call the bit set refuses, or
`none` if a flag sequence refuses a call that the bit set accepts. -/
def flags? : History → Option Flags
  | zeros length _ _ => some (.zeros length)
  | clone original => original.flags?
  | set earlier index => do
      (BitSet.set index).follow earlier.bits (·.set? index) (← earlier.flags?)
  | clear earlier index => do
      (BitSet.clear index).follow earlier.bits (·.clear? index) (← earlier.flags?)
  | setAll earlier positions => do
      (BitSet.setAll positions).follow earlier.bits (·.setAll? positions) (← earlier.flags?)
  | flip earlier start stop => do
      (BitSet.flip start stop).follow earlier.bits (fun flags => (flags.flip start stop).toOption)
        (← earlier.flags?)
  | intersect earlier other => do
      let operand ← other.flags?
      (BitSet.intersect other.bits).follow earlier.bits
        (fun flags => some (flags.intersect operand)) (← earlier.flags?)
  | unite earlier other => do
      let operand ← other.flags?
      (BitSet.unite other.bits).follow earlier.bits (fun flags => some (flags.unite operand))
        (← earlier.flags?)

end History

/-! ## One call -/

/-- A call that mirrors a change of flags keeps a set well formed, and the flags follow it. -/
theorem Mirrors.follow_eq {update : Update Unit} {change : Flags → Option Flags}
    (mirrors : Mirrors update change) {before : BitSet} (wellFormed : before.WellFormed) :
    (update.leave before).WellFormed ∧
      update.follow before change before.toFlags = some (update.leave before).toFlags := by
  rcases mirrors before wellFormed with ⟨after, done, kept, -, changed⟩ | ⟨error, refused, -⟩
  · have accepts : update.accepts before = true := by
      rw [Update.accepts, EStateM.run, done]
    rw [Update.leave_of_ok done, Update.follow, if_pos accepts]
    exact ⟨kept, changed⟩
  · have accepts : ¬update.accepts before = true := by
      rw [Update.accepts, EStateM.run, refused]
      exact Bool.false_ne_true
    rw [Update.leave_of_error refused, Update.follow, if_neg accepts]
    exact ⟨wellFormed, rfl⟩

namespace History

/-! ## Whole histories -/

/-- Every history ends in a well-formed set, and replaying it on flags ends in the flags of that
set. -/
theorem wellFormed_and_flags?_eq (history : History) :
    history.bits.WellFormed ∧ history.flags? = some history.bits.toFlags := by
  induction history with
  | zeros length limit within =>
      have made := zeros_eq_zerosWithin within
      exact ⟨wellFormed_zeros made, congrArg some (toFlags_zeros made).symm⟩
  | clone original induction => exact induction
  | set earlier index induction =>
      rw [flags?, induction.2]
      exact (mirrors_set index).follow_eq induction.1
  | clear earlier index induction =>
      rw [flags?, induction.2]
      exact (mirrors_clear index).follow_eq induction.1
  | setAll earlier positions induction =>
      rw [flags?, induction.2]
      exact (mirrors_setAll positions).follow_eq induction.1
  | flip earlier start stop induction =>
      rw [flags?, induction.2]
      exact (mirrors_flip start stop).follow_eq induction.1
  | intersect earlier other induction operand =>
      rw [flags?, induction.2, operand.2]
      exact (mirrors_intersect operand.1).follow_eq induction.1
  | unite earlier other induction operand =>
      rw [flags?, induction.2, operand.2]
      exact (mirrors_unite operand.1).follow_eq induction.1

theorem wellFormed (history : History) : history.bits.WellFormed :=
  history.wellFormed_and_flags?_eq.1

/-- At every stage of every history the flag sequence has accepted what the bit set accepted, the
two have the same length, and reading the set at any position gives the flag of that position, or an
error where there is none. -/
theorem get_eq_get?_flags (history : History) :
    ∃ flags, history.flags? = some flags ∧ history.bits.length = flags.length ∧
      ∀ index, history.bits.get index =
        match flags.get? index with
        | some value => .ok value
        | none => .error (.outOfRange index flags.length) := by
  obtain ⟨wellFormed, replayed⟩ := history.wellFormed_and_flags?_eq
  have length_eq := length_toFlags history.bits
  refine ⟨_, replayed, length_eq.symm, ?_⟩
  intro index
  rcases Nat.lt_or_ge index history.bits.length with inside | outside
  · have flag := Flags.get?_of_lt (length_eq.symm ▸ inside)
    rw [flag, wellFormed.bit_toFlags]
    exact wellFormed.get_of_lt inside
  · have flag := Flags.get?_of_le (length_eq.symm ▸ outside)
    rw [flag, length_eq]
    exact get_of_le outside

end History

end BitSet

end PackedStore
