import PackedStore.Proofs.BitSet.Canonical
import PackedStore.Proofs.BitSet.Refusal

/-!
# Marking all listed positions

Making all listed bits true is making them true one after the other, except that a position out of
range anywhere in the list stops it before the first bit changes. Only which positions are listed
matters, not in what order or how often.
-/

namespace PackedStore

namespace BitSet

/-- The first listed position that a set of `length` bits does not have, as an error. -/
def firstStrayCause? (length : Nat) (positions : List Nat) : Option Error :=
  (positions.find? fun index => length ≤ index).map (.outOfRange · length)

theorem firstStrayCause?_eq_none_iff {length : Nat} {positions : List Nat} :
    firstStrayCause? length positions = none ↔ ∀ index ∈ positions, index < length := by
  simp [firstStrayCause?]

/-- Marking `positions` in `bits` works on all of them or on none. -/
structure MarksAllOrNone (bits : BitSet) (positions : List Nat) : Prop where
  /-- The update succeeds exactly if all positions are in range. -/
  accepts_iff : (∃ after, (setAll positions).run bits = .ok () after) ↔
    ∀ index ∈ positions, index < bits.length
  /-- It makes the listed bits true and leaves all others. -/
  marked : ∀ after, (setAll positions).run bits = .ok () after →
    after.length = bits.length ∧
      ∀ index, after.get index = if index ∈ positions then .ok true else bits.get index
  /-- It does what marking the positions one after the other does. -/
  one_by_one : ∀ after, (setAll positions).run bits = .ok () after →
    (positions.forM set).run bits = .ok () after
  /-- It does the same as for any other list of the same positions. -/
  any_order : ∀ after (others : List Nat), (∀ index, index ∈ others ↔ index ∈ positions) →
    (setAll positions).run bits = .ok () after →
      (setAll others).run bits = .ok () after ∧ (others.forM set).run bits = .ok () after
  /-- It fails for the first position out of range, and then leaves the set as it was. -/
  failsFor : (setAll positions).FailsFor bits (firstStrayCause? bits.length positions)

section Marks

variable {bits : BitSet} {positions others : List Nat}

theorem forM_set_of_setAll (wellFormed : bits.WellFormed)
    (inside : ∀ index ∈ positions, index < bits.length)
    (same : ∀ index, index ∈ others ↔ index ∈ positions) :
    ∃ after, setAll positions bits = .ok () after ∧ setAll others bits = .ok () after ∧
      others.forM set bits = .ok () after := by
  have inside' : ∀ index ∈ others, index < bits.length := fun index member =>
    inside index ((same index).mp member)
  obtain ⟨after, done, becomes⟩ := setAll_of_forall_lt wellFormed inside
  obtain ⟨after', done', becomes'⟩ := setAll_of_forall_lt wellFormed inside'
  obtain ⟨stepwise, done'', becomes''⟩ := forM_of_forall_lt set_of_lt wellFormed inside'
  -- Both lists name the same positions, so all three ways end in the same bits.
  have marked : ∀ position,
      (if position ∈ others then true else bits.bit position) =
        if position ∈ positions then true else bits.bit position := by
    intro position
    simp only [same position]
  obtain rfl : after' = after := becomes'.eq becomes rfl rfl marked
  obtain rfl : stepwise = after' := becomes''.eq becomes rfl rfl marked
  exact ⟨stepwise, done, done', done''⟩

theorem get_of_setAll (wellFormed : bits.WellFormed) {after : BitSet}
    (inside : ∀ index ∈ positions, index < bits.length)
    (done : setAll positions bits = .ok () after) :
    after.length = bits.length ∧
      ∀ index, after.get index = if index ∈ positions then .ok true else bits.get index := by
  obtain ⟨result, done', becomes⟩ := setAll_of_forall_lt wellFormed inside
  obtain rfl : after = result := (EStateM.Result.ok.inj (done.symm.trans done')).2
  refine ⟨becomes.length_eq, fun index => ?_⟩
  rcases Nat.lt_or_ge index bits.length with within | outside
  · rw [becomes.wellFormed.get_of_lt (becomes.length_eq ▸ within), becomes.bit_eq,
      wellFormed.get_of_lt within, apply_ite Except.ok]
  · have unlisted : index ∉ positions := fun member => Nat.not_lt.mpr outside (inside index member)
    rw [if_neg unlisted, get_of_le outside, get_of_le (becomes.length_eq ▸ outside),
      becomes.length_eq]

theorem failsFor_setAll (wellFormed : bits.WellFormed) (positions : List Nat) :
    (setAll positions).FailsFor bits (firstStrayCause? bits.length positions) := by
  cases first : positions.find? fun index => bits.length ≤ index with
  | none =>
      have inside := firstStrayCause?_eq_none_iff.mp (congrArg (Option.map _) first)
      obtain ⟨after, done, -⟩ := setAll_of_forall_lt wellFormed inside
      rw [firstStrayCause?, first]
      exact Update.failsFor_none done
  | some index =>
      rw [firstStrayCause?, first]
      exact Update.failsFor_some (setAll_of_find? first)

theorem marksAllOrNone (wellFormed : bits.WellFormed) (positions : List Nat) :
    bits.MarksAllOrNone positions := by
  have accepts_iff : (∃ after, (setAll positions).run bits = .ok () after) ↔
      ∀ index ∈ positions, index < bits.length := by
    constructor
    · rintro ⟨after, done⟩
      rw [← firstStrayCause?_eq_none_iff, Option.eq_none_iff_forall_ne_some]
      intro error cause
      have refused := (failsFor_setAll wellFormed positions error bits).mpr ⟨cause, rfl⟩
      exact nomatch done.symm.trans refused
    · intro inside
      obtain ⟨after, done, -⟩ := setAll_of_forall_lt wellFormed inside
      exact ⟨after, done⟩
  have any_order : ∀ after (others : List Nat), (∀ index, index ∈ others ↔ index ∈ positions) →
      (setAll positions).run bits = .ok () after →
        (setAll others).run bits = .ok () after ∧ (others.forM set).run bits = .ok () after := by
    intro after others same done
    have inside := accepts_iff.mp ⟨after, done⟩
    obtain ⟨result, done', doneOthers, stepwise⟩ := forM_set_of_setAll wellFormed inside same
    obtain rfl : after = result := (EStateM.Result.ok.inj (done.symm.trans done')).2
    exact ⟨doneOthers, stepwise⟩
  have marked := fun after done => get_of_setAll wellFormed (accepts_iff.mp ⟨after, done⟩) done
  have one_by_one := fun after done => (any_order after positions (fun _ => Iff.rfl) done).2
  exact ⟨accepts_iff, marked, one_by_one, any_order, failsFor_setAll wellFormed positions⟩

end Marks

end BitSet

end PackedStore
