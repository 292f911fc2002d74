import PackedStore.Proofs.BitSet.Canonical
import PackedStore.Proofs.BitSet.Refusal
import PackedStore.Proofs.BitSet.Representation

/-!
# Updates in any order

Of the set it is made on, an overlay looks at the limit alone to tell whether it is refused; it asks
for some length and combines the bit at each position with a flag of its own. Overlays of one kind
may be made in any order: each is answered as if it were the first, and all orders end in the same
set. Flips are overlays, though each may grow the set that the next one meets.
-/

namespace PackedStore

namespace BitSet

namespace Update

variable {ι : Type}

/-! ## Lists of updates -/

/-- The set after updates made one after the other, whether they succeed or fail. -/
def leaveAll (update : ι → Update Unit) (calls : List ι) (before : BitSet) : BitSet :=
  calls.foldl (fun current call => (update call).leave current) before

/-- Why each of several updates made one after the other fails, if it does. -/
def refusals (update : ι → Update Unit) : List ι → BitSet → List (Option Error)
  | [], _ => []
  | call :: calls, before =>
      (update call).refusal before :: refusals update calls ((update call).leave before)

@[simp] theorem leaveAll_cons (update : ι → Update Unit) (call : ι) (calls : List ι)
    (before : BitSet) :
    leaveAll update (call :: calls) before =
      leaveAll update calls ((update call).leave before) := rfl

/-! ## Overlays -/

/-- The limit alone tells why an update of the family is refused, if it is. An update that is not
makes room for the length it asks for and combines the bit at every position with its flag. -/
structure Overlays (update : ι → Update Unit) (cause? : Limit → ι → Option Error)
    (ask : ι → Nat) (operation : Bool → Bool → Bool) (flag : ι → Nat → Bool) : Prop where
  /-- An update with a cause to fail fails for it and leaves the set as it was. -/
  refuses : ∀ call before error, before.WellFormed → cause? before.limit call = some error →
    update call before = .error error before
  /-- An update without such a cause succeeds. -/
  accepts : ∀ call before, before.WellFormed → cause? before.limit call = none →
    ∃ after, update call before = .ok () after ∧
      Becomes before after (max before.length (ask call)) fun index =>
        operation (before.bit index) (flag call index)
  /-- Flags may be combined with a bit in either order. -/
  right_comm : ∀ value first second,
    operation (operation value first) second = operation (operation value second) first

namespace Overlays

variable {update : ι → Update Unit} {cause? : Limit → ι → Option Error} {ask : ι → Nat}
  {operation : Bool → Bool → Bool} {flag : ι → Nat → Bool}
  (overlays : Overlays update cause? ask operation flag) {before : BitSet}
include overlays

theorem refusal_eq (wellFormed : before.WellFormed) (call : ι) :
    (update call).refusal before = cause? before.limit call := by
  cases cause : cause? before.limit call with
  | none =>
      obtain ⟨after, done, -⟩ := overlays.accepts call before wellFormed cause
      exact refusal_of_ok done
  | some error => exact refusal_of_error (overlays.refuses call before error wellFormed cause)

theorem leave_of_some (wellFormed : before.WellFormed) {call : ι} {error : Error}
    (cause : cause? before.limit call = some error) : (update call).leave before = before :=
  leave_of_error (overlays.refuses call before error wellFormed cause)

theorem becomes_leave (wellFormed : before.WellFormed) {call : ι}
    (cause : cause? before.limit call = none) :
    Becomes before ((update call).leave before) (max before.length (ask call)) fun index =>
      operation (before.bit index) (flag call index) := by
  obtain ⟨after, done, becomes⟩ := overlays.accepts call before wellFormed cause
  rwa [leave_of_ok done]

/-- An overlay keeps a set well formed and its limit as it was, whether it succeeds or fails. -/
theorem keeps (wellFormed : before.WellFormed) (call : ι) :
    ((update call).leave before).WellFormed ∧
      ((update call).leave before).limit = before.limit := by
  cases cause : cause? before.limit call with
  | none =>
      have becomes := overlays.becomes_leave wellFormed cause
      exact ⟨becomes.wellFormed, becomes.limit_eq⟩
  | some error =>
      rw [overlays.leave_of_some wellFormed cause]
      exact ⟨wellFormed, rfl⟩

/-- Two overlays end in the same set in either order. -/
theorem leave_comm (wellFormed : before.WellFormed) (first second : ι) :
    (update second).leave ((update first).leave before) =
      (update first).leave ((update second).leave before) := by
  obtain ⟨firstWellFormed, firstLimit⟩ := overlays.keeps wellFormed first
  obtain ⟨secondWellFormed, secondLimit⟩ := overlays.keeps wellFormed second
  -- A refused overlay is refused after the other one, too, since the limit is still the same.
  cases firstCause : cause? before.limit first with
  | some error =>
      rw [overlays.leave_of_some wellFormed firstCause,
        overlays.leave_of_some secondWellFormed (secondLimit ▸ firstCause)]
  | none =>
      cases secondCause : cause? before.limit second with
      | some error =>
          rw [overlays.leave_of_some wellFormed secondCause,
            overlays.leave_of_some firstWellFormed (firstLimit ▸ secondCause)]
      | none =>
          have one := overlays.becomes_leave wellFormed firstCause
          have other := overlays.becomes_leave wellFormed secondCause
          have oneThenOther := overlays.becomes_leave firstWellFormed (firstLimit ▸ secondCause)
          have otherThenOne := overlays.becomes_leave secondWellFormed (secondLimit ▸ firstCause)
          apply oneThenOther.eq otherThenOne
          · rw [firstLimit, secondLimit]
          · rw [one.length_eq, other.length_eq]
            omega
          · intro index
            rw [one.bit_eq, other.bit_eq]
            exact overlays.right_comm _ _ _

/-- Each of several overlays is answered as if it were the first. -/
theorem refusals_eq_map (wellFormed : before.WellFormed) (calls : List ι) :
    refusals update calls before = calls.map (cause? before.limit) := by
  induction calls generalizing before with
  | nil => rfl
  | cons call calls induction =>
      obtain ⟨still, limit_eq⟩ := overlays.keeps wellFormed call
      rw [refusals, overlays.refusal_eq wellFormed, induction still, limit_eq, List.map_cons]

/-- All orders of several overlays end in the same set. -/
theorem leaveAll_perm (wellFormed : before.WellFormed) {order calls : List ι}
    (perm : order.Perm calls) : leaveAll update order before = leaveAll update calls before := by
  induction perm generalizing before with
  | nil => rfl
  | cons call perm induction => exact induction (overlays.keeps wellFormed call).1
  | swap first second calls =>
      rw [leaveAll_cons, leaveAll_cons, leaveAll_cons, leaveAll_cons,
        overlays.leave_comm wellFormed]
  | trans earlier later induction induction' =>
      exact (induction wellFormed).trans (induction' wellFormed)

end Overlays

end Update

/-! ## Flips -/

/-- The arguments of a flip, which may be inverted. -/
structure Range where
  /-- The first position. -/
  start : Nat
  /-- The position behind the last. -/
  stop : Nat
deriving DecidableEq, Repr

namespace Range

/-- Toggles the bits of the range. -/
def flip (range : Range) : Update Unit :=
  BitSet.flip range.start range.stop

/-- Whether a position lies in the range. -/
def covers (range : Range) (index : Nat) : Bool :=
  range.start ≤ index ∧ index < range.stop

theorem overlays_flip :
    Update.Overlays flip (fun limit range => limit.flipCause? range.start range.stop) stop
      (· ^^ ·) covers where
  refuses := by
    intro range before error wellFormed cause
    exact (failsFor_flip wellFormed range.start range.stop error before).mpr ⟨cause, rfl⟩
  accepts := by
    intro range before wellFormed cause
    obtain ⟨ordered, within⟩ := Limit.flipCause?_eq_none_iff.mp cause
    exact flip_of_le wellFormed ordered within
  right_comm := Bool.xor_right_comm

end Range

section Flips

variable {before : BitSet} {start middle stop : Nat}

/-- Toggling two ranges of which one begins where the other ends toggles the whole. -/
theorem flip_seq_flip (wellFormed : before.WellFormed) (ordered : start ≤ middle)
    (ordered' : middle ≤ stop) (within : stop ≤ before.limit.maxLength) :
    ∃ after, (do flip start middle; flip middle stop) before = .ok () after ∧
      flip start stop before = .ok () after := by
  obtain ⟨half, done, lower⟩ := flip_of_le wellFormed ordered (Nat.le_trans ordered' within)
  obtain ⟨after, done', upper⟩ :=
    flip_of_le lower.wellFormed ordered' (lower.limit_eq ▸ within)
  obtain ⟨whole, doneWhole, becomes⟩ :=
    flip_of_le wellFormed (Nat.le_trans ordered ordered') within
  have same : whole = after := by
    apply becomes.eq upper lower.limit_eq.symm
    · rw [lower.length_eq]
      omega
    · intro index
      rw [lower.bit_eq, Bool.xor_assoc, decide_xor_decide (by omega)]
      congr 2
      rw [eq_iff_iff]
      omega
  refine ⟨after, ?_, same ▸ doneWhole⟩
  rw [seq_of_ok done, done']

/-- Toggling a range twice only makes room for its end. -/
theorem flip_seq_self (wellFormed : before.WellFormed) (ordered : start ≤ stop)
    (within : stop ≤ before.limit.maxLength) :
    ∃ after, (do flip start stop; flip start stop) before = .ok () after ∧
      cover stop before = .ok () after ∧ after.toFlags = before.toFlags.extend stop := by
  obtain ⟨once, done, first⟩ := flip_of_le wellFormed ordered within
  obtain ⟨after, done', second⟩ := flip_of_le first.wellFormed ordered (first.limit_eq ▸ within)
  obtain ⟨covered, doneCover, becomes⟩ := cover_of_le wellFormed within
  have same : covered = after := by
    apply becomes.eq second first.limit_eq.symm
    · rw [first.length_eq]
      omega
    · intro index
      rw [first.bit_eq, Bool.xor_assoc, Bool.xor_self, Bool.xor_false]
  refine ⟨after, ?_, same ▸ doneCover, ?_⟩
  · rw [seq_of_ok done, done']
  · rw [← same]
    symm
    apply becomes.toFlags_eq
    · rw [Flags.length_extend, length_toFlags]
    · intro index
      rw [Flags.bit_extend, wellFormed.bit_toFlags]

end Flips

/-- At the end of every history, flips may be made in any order: each is answered as if it were the
first, and all orders end in the same set. Flips of two ranges that meet are the flip of both, and a
flip made twice only makes room. -/
theorem flips_in_any_order (history : History) :
    let bits := history.bits
    (∀ ranges order : List Range, order.Perm ranges →
        Update.leaveAll Range.flip order bits = Update.leaveAll Range.flip ranges bits ∧
          Update.refusals Range.flip order bits =
              order.map (fun range => range.flip.refusal bits) ∧
            Update.refusals Range.flip ranges bits =
              ranges.map fun range => range.flip.refusal bits) ∧
      (∀ start middle stop, start ≤ middle → middle ≤ stop → stop ≤ bits.limit.maxLength →
        ∃ after, (do flip start middle; flip middle stop) bits = .ok () after ∧
          flip start stop bits = .ok () after) ∧
      ∀ start stop, start ≤ stop → stop ≤ bits.limit.maxLength →
        ∃ after, (do flip start stop; flip start stop) bits = .ok () after ∧
          cover stop bits = .ok () after ∧ after.toFlags = bits.toFlags.extend stop := by
  intro bits
  have wellFormed : bits.WellFormed := history.wellFormed_and_flags?_eq.1
  have overlays := Range.overlays_flip
  have answers : ∀ ranges : List Range, Update.refusals Range.flip ranges bits =
      ranges.map fun range => range.flip.refusal bits := by
    intro ranges
    rw [overlays.refusals_eq_map wellFormed]
    exact List.map_congr_left fun range _ => (overlays.refusal_eq wellFormed range).symm
  refine ⟨fun ranges order perm => ?_, fun start middle stop => flip_seq_flip wellFormed,
    fun start stop => flip_seq_self wellFormed⟩
  exact ⟨overlays.leaveAll_perm wellFormed perm, answers order, answers ranges⟩

/-- Four flips of a set of seventy bits, of which one grows the set, one is inverted and one ends
above the limit, and the same flips in the opposite order. -/
theorem flips_in_any_order_of_reverse :
    let history : History := .flip (.zeros 70 ⟨200⟩ (by decide)) 3 66
    let bits := history.bits
    let ranges : List Range := [⟨60, 130⟩, ⟨9, 2⟩, ⟨0, 300⟩, ⟨5, 64⟩]
    let answers := [none, some (.invalidRange 9 2), some (.limitExceeded 300 200), none]
    ranges.reverse.Perm ranges ∧
      Update.leaveAll Range.flip ranges.reverse bits = Update.leaveAll Range.flip ranges bits ∧
      Update.refusals Range.flip ranges bits = answers ∧
      Update.refusals Range.flip ranges.reverse bits = answers.reverse ∧
      (∃ after, (do flip 60 64; flip 64 130) bits = .ok () after ∧
        flip 60 130 bits = .ok () after) ∧
      ∃ after, (do flip 60 130; flip 60 130) bits = .ok () after ∧
        cover 130 bits = .ok () after ∧ after.toFlags = bits.toFlags.extend 130 := by
  intro history bits ranges answers
  obtain ⟨reorder, meet, twice⟩ := flips_in_any_order history
  have perm : ranges.reverse.Perm ranges := List.reverse_perm ranges
  obtain ⟨same, backward, forward⟩ := reorder ranges ranges.reverse perm
  have within : 130 ≤ bits.limit.maxLength := by
    rw [history.limit_eq]
    decide
  refine ⟨perm, same, ?_, ?_, meet 60 64 130 (by decide) (by decide) within,
    twice 60 130 (by decide) within⟩
  · rw [forward]
    decide
  · rw [backward]
    decide

end BitSet

end PackedStore
