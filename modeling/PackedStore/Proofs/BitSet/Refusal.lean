import PackedStore.Proofs.BitSet.History

/-!
# Why operations on a bit set fail

The arguments of an operation, the length of the set and its limit tell whether the operation fails
and for which cause. The limit is looked at only by a set about to grow, but since no set exceeds
its limit, this is as good as looking at it always. An update that fails leaves the set as it was.
-/

namespace PackedStore

namespace BitSet

/-! ## Causes -/

/-- Why `index` is refused as a position of a set of `length` bits, if it is. -/
def strayCause? (length index : Nat) : Option Error :=
  if length ≤ index then some (.outOfRange index length) else none

namespace Limit

/-- Why no set with this limit has `length` bits, if none has. -/
def cause? (limit : Limit) (length : Nat) : Option Error :=
  if limit.maxLength < length then some (.limitExceeded length limit.maxLength) else none

/-- Why a set with this limit refuses to flip `[start, stop)`, if it does. An inverted range is
noticed before an end above the limit. -/
def flipCause? (limit : Limit) (start stop : Nat) : Option Error :=
  if stop < start then some (.invalidRange start stop) else limit.cause? stop

theorem cause?_eq_none_iff {limit : Limit} {length : Nat} :
    limit.cause? length = none ↔ length ≤ limit.maxLength := by
  rw [cause?, ite_eq_right_iff]
  simp

theorem flipCause?_eq_none_iff {limit : Limit} {start stop : Nat} :
    limit.flipCause? start stop = none ↔ start ≤ stop ∧ stop ≤ limit.maxLength := by
  rw [flipCause?, ite_eq_iff, cause?_eq_none_iff]
  simp

end Limit

namespace Update

variable {update : Update Unit} {before after : BitSet}

/-- Why an update fails, if it does. -/
def refusal (update : Update Unit) (before : BitSet) : Option Error :=
  match update.run before with
  | .ok _ _ => none
  | .error error _ => some error

theorem refusal_of_ok (done : update before = .ok () after) : update.refusal before = none := by
  rw [refusal, EStateM.run, done]

theorem refusal_of_error {error : Error} (refused : update before = .error error after) :
    update.refusal before = some error := by
  rw [refusal, EStateM.run, refused]

/-- The update fails for exactly the given cause, and then it leaves the set as it was; without a
cause it succeeds. -/
def FailsFor (update : Update Unit) (before : BitSet) (cause : Option Error) : Prop :=
  ∀ error after, update.run before = .error error after ↔ cause = some error ∧ after = before

theorem failsFor_none (done : update before = .ok () after) : update.FailsFor before none := by
  intro error left
  simp [EStateM.run, done]

theorem failsFor_some {error : Error} (refused : update before = .error error before) :
    update.FailsFor before (some error) := by
  intro other left
  simp [EStateM.run, refused, eq_comm]

/-- An update of one position fails if the position is refused. -/
theorem failsFor_strayCause? {index : Nat}
    (accepts : index < before.length → ∃ after, update before = .ok () after)
    (refuses : before.length ≤ index →
      update before = .error (.outOfRange index before.length) before) :
    update.FailsFor before (strayCause? before.length index) := by
  rcases Nat.lt_or_ge index before.length with inside | outside
  · obtain ⟨after, done⟩ := accepts inside
    rw [strayCause?, if_neg (Nat.not_le.mpr inside)]
    exact failsFor_none done
  · rw [strayCause?, if_pos outside]
    exact failsFor_some (refuses outside)

/-- An update that asks for some length fails if the limit refuses that length. -/
theorem failsFor_cause? {length : Nat}
    (accepts : length ≤ before.limit.maxLength → ∃ after, update before = .ok () after)
    (refuses : before.limit.maxLength < length →
      update before = .error (.limitExceeded length before.limit.maxLength) before) :
    update.FailsFor before (before.limit.cause? length) := by
  rcases Nat.lt_or_ge before.limit.maxLength length with above | within
  · rw [Limit.cause?, if_pos above]
    exact failsFor_some (refuses above)
  · obtain ⟨after, done⟩ := accepts within
    rw [Limit.cause?, if_neg (Nat.not_lt.mpr within)]
    exact failsFor_none done

end Update

/-! ## Operation by operation -/

theorem get_eq_error_iff {bits : BitSet} (wellFormed : bits.WellFormed) (index : Nat)
    (error : Error) :
    bits.get index = .error error ↔ strayCause? bits.length index = some error := by
  rcases Nat.lt_or_ge index bits.length with inside | outside
  · rw [wellFormed.get_of_lt inside, strayCause?, if_neg (Nat.not_le.mpr inside)]
    simp
  · rw [get_of_le outside, strayCause?, if_pos outside]
    simp

theorem zeros_eq_error_iff (length : Nat) (limit : Limit) (error : Error) :
    zeros length limit = .error error ↔ limit.cause? length = some error := by
  rcases Nat.lt_or_ge limit.maxLength length with above | within
  · rw [zeros, if_pos above, Limit.cause?, if_pos above]
    simp
  · rw [zeros, if_neg (Nat.not_lt.mpr within), Limit.cause?, if_neg (Nat.not_lt.mpr within)]
    simp

section Updates

variable {before other : BitSet}

theorem failsFor_set (wellFormed : before.WellFormed) (index : Nat) :
    (set index).FailsFor before (strayCause? before.length index) :=
  Update.failsFor_strayCause? (fun inside => (set_of_lt wellFormed inside).imp fun _ => And.left)
    set_of_le

theorem failsFor_clear (wellFormed : before.WellFormed) (index : Nat) :
    (clear index).FailsFor before (strayCause? before.length index) :=
  Update.failsFor_strayCause? (fun inside => (clear_of_lt wellFormed inside).imp fun _ => And.left)
    clear_of_le

theorem failsFor_flip (wellFormed : before.WellFormed) (start stop : Nat) :
    (flip start stop).FailsFor before (before.limit.flipCause? start stop) := by
  rcases Nat.lt_or_ge stop start with inverted | ordered
  · rw [Limit.flipCause?, if_pos inverted]
    exact Update.failsFor_some (flip_of_lt inverted)
  · rw [Limit.flipCause?, if_neg (Nat.not_lt.mpr ordered)]
    exact Update.failsFor_cause?
      (fun within => (flip_of_le wellFormed ordered within).imp fun _ => And.left)
      (flip_of_limit_lt wellFormed ordered)

theorem failsFor_intersect (wellFormed : before.WellFormed) (otherWellFormed : other.WellFormed) :
    (intersect other).FailsFor before (before.limit.cause? other.length) :=
  Update.failsFor_cause?
    (fun within => (intersect_of_le wellFormed otherWellFormed within).imp fun _ => And.left)
    (intersect_of_lt wellFormed)

theorem failsFor_unite (wellFormed : before.WellFormed) (otherWellFormed : other.WellFormed) :
    (unite other).FailsFor before (before.limit.cause? other.length) :=
  Update.failsFor_cause?
    (fun within => (unite_of_le wellFormed otherWellFormed within).imp fun _ => And.left)
    (unite_of_lt wellFormed)

end Updates

/-- At the end of every history, reading, setting and clearing a position fail exactly if the
position is beyond the length; a flip fails exactly if its range is inverted or else ends above the
limit; a combination fails exactly if the other set, whatever its own limit, is longer than the
limit; and a new set is refused exactly if it would exceed its limit. The cause says so, and the set
stays as it was. -/
theorem failsFor_causes (history : History) :
    let bits := history.bits
    (∀ index error, bits.get index = .error error ↔ strayCause? bits.length index = some error) ∧
      (∀ index, (set index).FailsFor bits (strayCause? bits.length index)) ∧
      (∀ index, (clear index).FailsFor bits (strayCause? bits.length index)) ∧
      (∀ start stop, (flip start stop).FailsFor bits (bits.limit.flipCause? start stop)) ∧
      (∀ other : History,
        (intersect other.bits).FailsFor bits (bits.limit.cause? other.bits.length) ∧
          (unite other.bits).FailsFor bits (bits.limit.cause? other.bits.length)) ∧
      ∀ length limit error,
        zeros length limit = .error error ↔ limit.cause? length = some error := by
  intro bits
  have wellFormed : bits.WellFormed := history.wellFormed_and_flags?_eq.1
  refine ⟨get_eq_error_iff wellFormed, failsFor_set wellFormed, failsFor_clear wellFormed,
    failsFor_flip wellFormed, ?_, zeros_eq_error_iff⟩
  intro other
  have otherWellFormed : other.bits.WellFormed := other.wellFormed_and_flags?_eq.1
  exact ⟨failsFor_intersect wellFormed otherWellFormed, failsFor_unite wellFormed otherWellFormed⟩

end BitSet

end PackedStore
