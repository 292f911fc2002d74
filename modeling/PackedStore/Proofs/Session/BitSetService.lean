import Mathlib.Algebra.Group.Int.Defs
import PackedStore.Proofs.BitSet.Question
import PackedStore.Proofs.Session.Service
import PackedStore.Session.BitSetCall

/-!
# Calls on bit sets serve their callers

A caller sees the flags and the limit of each bit set. Every call on the table of bit sets ends
without a fault and does to the flags what the operation of the same name does to a flag sequence.
-/

namespace PackedStore

/-! ## What is seen of a bit set -/

/-- What a caller sees of a bit set. -/
structure Snapshot where
  /-- The bits. -/
  flags : Flags
  /-- How long the set may grow. -/
  limit : BitSet.Limit
deriving DecidableEq, Repr

namespace BitSet

/-- The bit sets of a session: well formed, with a limit of 64 bits and true bits only at positions
that a signed word can name. -/
structure Fits (bits : BitSet) : Prop where
  /-- The set is well formed. -/
  wellFormed : bits.WellFormed
  /-- The limit is a word. -/
  limit_lt : bits.limit.maxLength < 2 ^ 64
  /-- True bits are at positions that a signed word can name. -/
  below : bits.toFlags.Below (2 ^ 63)

/-- What is seen of the bit sets of a session. -/
def reading : Reading BitSet Snapshot where
  Fits := Fits
  view := fun bits => ⟨bits.toFlags, bits.limit⟩

theorem fits_zeros {length : Nat} {limit : Limit} {bits : BitSet}
    (made : zeros length limit = .ok bits) (limit_lt : limit.maxLength < 2 ^ 64) : bits.Fits := by
  have wellFormed := wellFormed_zeros made
  have flags := toFlags_zeros made
  obtain ⟨-, rfl⟩ := zeros_eq_ok_iff.mp made
  exact ⟨wellFormed, limit_lt, flags ▸ Flags.below_zeros _ _⟩

theorem view_zeros {length : Nat} {limit : Limit} {bits : BitSet}
    (made : zeros length limit = .ok bits) : reading.view bits = ⟨.zeros length, limit⟩ := by
  have flags := toFlags_zeros made
  obtain ⟨-, rfl⟩ := zeros_eq_ok_iff.mp made
  exact congrArg (Snapshot.mk · limit) flags

end BitSet

namespace BitSetCall

open Operation

/-- The effect of a call that changes the flags behind `handle`. -/
def reflag (handle : Handle) (change : (Handle → Option Snapshot) → Flags → Option Flags) :
    Effect Snapshot :=
  .rewrite handle fun values snapshot =>
    (change values snapshot.flags).map ({ snapshot with flags := · })

/-- The natural numbers of a span of positions. -/
def naturals {ι : Type} (elements : Except Status (List ι)) (toInt : ι → Int) : List Nat :=
  (elements.toOption.getD []).map fun element => (toInt element).toNat

/-- What a call does to what is seen of the bit sets. -/
def effect : BitSetCall → Effect Snapshot
  | create length limit _ => .bind fun _ => some ⟨.zeros length.toNat, limitOf limit⟩
  | clone handle _ => .bind (· handle)
  | destroy handle => .unbind handle
  | size .. | cardinality .. | get .. | next .. => .idle
  | set handle position => reflag handle fun _ flags => flags.set? position.toInt.toNat
  | clear handle position => reflag handle fun _ flags => flags.clear? position.toInt.toNat
  | setInts handle positions =>
      reflag handle fun _ flags => flags.setAll? (naturals positions.elements (·.toInt))
  | setLongs handle positions =>
      reflag handle fun _ flags => flags.setAll? (naturals positions.elements (·.toInt))
  | flip handle start stop =>
      reflag handle fun _ flags => (flags.flip start.toInt.toNat stop.toInt.toNat).toOption
  | intersect handle other =>
      reflag handle fun values flags =>
        (values other).map fun beside => flags.intersect beside.flags
  | unite handle other =>
      reflag handle fun values flags =>
        (values other).map fun beside => flags.unite beside.flags

/-! ## Updates of one set -/

theorem status_ne_ok (error : BitSet.Error) : error.status ≠ .ok := by
  cases error <;> exact nofun

theorem failure_of_ne_fault {error : BitSet.Error} (sound : ∀ cause, error ≠ .fault cause) :
    failure error = .ok (.failed error.status) := by
  cases error with
  | fault cause => exact absurd rfl (sound cause)
  | outOfRange | invalidRange | limitExceeded => rfl

section Runs

variable {update : BitSet.Update Unit} {before after : BitSet}

theorem run_applyUpdate_of_ok (done : update before = .ok () after) :
    (applyUpdate update).run before = ⟨.ok .done, after, []⟩ := by
  simp only [applyUpdate, Step.run_bind, Step.run_read, EStateM.run, done]
  rfl

theorem run_applyUpdate_of_error {error : BitSet.Error}
    (refused : update before = .error error before) (sound : ∀ cause, error ≠ .fault cause) :
    (applyUpdate update).run before = ⟨.ok (.failed error.status), before, []⟩ := by
  simp only [applyUpdate, Step.run_bind, Step.run_read, EStateM.run, refused,
    failure_of_ne_fault sound]
  rfl

end Runs

/-- The flags rewritten in a snapshot. -/
def rewriteFlags (change : Flags → Option Flags) (snapshot : Snapshot) : Option Snapshot :=
  (change snapshot.flags).map ({ snapshot with flags := · })

theorem amends_fail {status : Status} (failure : status ≠ .ok)
    (rewrite : Snapshot → Option Snapshot) :
    Amends (fail status) BitSet.reading rewrite :=
  fun _ _ => .inr ⟨status, [], rfl, failure⟩

theorem amends_applyUpdate {update : BitSet.Update Unit} {change : Flags → Option Flags}
    (mirrors : BitSet.Mirrors update change)
    (keeps : ∀ before after : Flags, before.Below (2 ^ 63) → change before = some after →
      after.Below (2 ^ 63)) :
    Amends (applyUpdate update) BitSet.reading (rewriteFlags change) := by
  intro before fits
  rcases mirrors before fits.wellFormed with
    ⟨after, done, wellFormed, limit_eq, changed⟩ | ⟨error, refused, sound⟩
  · left
    refine ⟨after, [], run_applyUpdate_of_ok done,
      ⟨wellFormed, limit_eq ▸ fits.limit_lt, keeps _ _ fits.below changed⟩, ?_⟩
    simp only [rewriteFlags, BitSet.reading, changed, limit_eq, Option.map_some]
  · right
    exact ⟨error.status, [], run_applyUpdate_of_error refused sound, status_ne_ok error⟩

/-- A record written on the way changes nothing. -/
theorem amends_record {change : Step BitSet Ending} {rewrite : Snapshot → Option Snapshot}
    (amends : Amends change BitSet.reading rewrite) (record : BitSet → Option Record) :
    Amends (do Step.write? (record (← Step.read)); change) BitSet.reading rewrite := by
  intro before fits
  have silent : ∀ noted : Option Record, ∃ written,
      (Step.write? noted : Step BitSet Unit).run before = ⟨(), before, written⟩ := by
    intro noted
    cases noted with
    | none => exact ⟨_, rfl⟩
    | some record => exact ⟨_, rfl⟩
  obtain ⟨first, noted⟩ := silent (record before)
  rcases amends before fits with ⟨after, written, ran, kept⟩ | ⟨status, written, ran, failure⟩
  · left
    refine ⟨after, first ++ written, ?_, kept⟩
    simp only [Step.run_bind, Step.run_read, noted, ran, List.nil_append]
  · right
    refine ⟨status, first ++ written, ?_, failure⟩
    simp only [Step.run_bind, Step.run_read, noted, ran, List.nil_append]

/-! ## Arguments -/

theorem toNat_toInt_lt (value : Int64) : value.toInt.toNat < 2 ^ 63 := by
  have := value.toInt_lt
  omega

theorem toNat?_eq (value : Int) : value.toNat? = if value < 0 then none else some value.toNat := by
  cases value with
  | ofNat natural => rfl
  | negSucc natural =>
      rw [if_pos (Int.negSucc_lt_zero natural)]
      rfl

/-- A signed argument is refused, or used as the natural number it is. -/
theorem withNatural_eq {σ : Type} (value : Int64) (otherwise : Status)
    (next : Nat → Step σ Ending) :
    withNatural value otherwise next =
      if value.toInt < 0 then fail otherwise else next value.toInt.toNat := by
  rcases Int.lt_or_le value.toInt 0 with negative | natural
  · simp only [withNatural, toNat?_eq, if_pos negative]
  · simp only [withNatural, toNat?_eq, if_neg (Int.not_lt.mpr natural)]

theorem amends_withNatural {value : Int64} {otherwise : Status} {next : Nat → Step BitSet Ending}
    {rewrite : Snapshot → Option Snapshot} (failure : otherwise ≠ .ok)
    (amends : Amends (next value.toInt.toNat) BitSet.reading rewrite) :
    Amends (withNatural value otherwise next) BitSet.reading rewrite := by
  rw [withNatural_eq]
  split
  · exact amends_fail failure rewrite
  · exact amends

theorem mapM_toNat?_eq (positions : List Int) :
    positions.mapM Int.toNat? =
      if positions.any fun position => position < 0 then none
      else some (positions.map Int.toNat) := by
  induction positions with
  | nil => rfl
  | cons position positions induction =>
      rw [List.mapM_cons, toNat?_eq, induction, List.any_cons]
      by_cases negative : position < 0
      · simp [negative]
      · by_cases later : positions.any fun position => position < 0
        · simp [negative, later]
        · simp [negative, later]

/-- Listed positions are refused if one of them is negative, or used as the natural numbers they
are. -/
theorem setAll_eq (positions : List Int) :
    setAll positions =
      if positions.any fun position => position < 0 then fail .outOfRange
      else applyUpdate (BitSet.setAll (positions.map Int.toNat)) := by
  rw [setAll, mapM_toNat?_eq]
  by_cases negative : positions.any fun position => position < 0
  · rw [if_pos negative, if_pos negative]
  · rw [if_neg negative, if_neg negative]

/-! ## Update by update -/

theorem amends_set (position : Int64) :
    Amends (withNatural position .outOfRange fun index => applyUpdate (BitSet.set index))
      BitSet.reading (rewriteFlags (·.set? position.toInt.toNat)) :=
  amends_withNatural (by decide) <|
    amends_applyUpdate (BitSet.mirrors_set _) fun _ _ below changed =>
    below.put? (toNat_toInt_lt position) changed

theorem amends_clear (position : Int64) :
    Amends (withNatural position .outOfRange fun index => applyUpdate (BitSet.clear index))
      BitSet.reading (rewriteFlags (·.clear? position.toInt.toNat)) :=
  amends_withNatural (by decide) <|
    amends_applyUpdate (BitSet.mirrors_clear _) fun _ _ below changed =>
    below.put? (toNat_toInt_lt position) changed

theorem amends_setAll {positions : List Int} (small : ∀ position ∈ positions, position < 2 ^ 63) :
    Amends (setAll positions) BitSet.reading
      (rewriteFlags (·.setAll? (positions.map Int.toNat))) := by
  rw [setAll_eq]
  split
  · exact amends_fail (by decide) _
  · apply amends_applyUpdate (BitSet.mirrors_setAll _)
    intro before after below changed
    refine below.setAll? ?_ changed
    intro index member
    obtain ⟨position, inside, rfl⟩ := List.mem_map.mp member
    have := small position inside
    omega

theorem amends_flipRange (start stop : Int64) :
    Amends (flipRange start stop) BitSet.reading
      (rewriteFlags fun flags => (flags.flip start.toInt.toNat stop.toInt.toNat).toOption) := by
  apply amends_withNatural (by decide)
  apply amends_withNatural (by decide)
  apply amends_record _ (BitSet.flipRecord · start.toInt.toNat stop.toInt.toNat)
  apply amends_applyUpdate (BitSet.mirrors_flip _ _)
  intro before after below changed
  exact below.flip (Nat.le_of_lt (toNat_toInt_lt stop)) changed

theorem amends_combine {update : BitSet → BitSet.Update Unit} {operation : Bool → Bool → Bool}
    (mirrors : ∀ {other : BitSet}, other.WellFormed → BitSet.Mirrors (update other) fun flags =>
      some (flags.combine operation other.toFlags))
    (idempotent : ∀ value, operation value value = value) {beside : BitSet} (fits : beside.Fits) :
    Amends (applyUpdate (update beside)) BitSet.reading
      (rewriteFlags fun flags => some (flags.combine operation beside.toFlags)) := by
  apply amends_applyUpdate (mirrors fits.wellFormed)
  intro before after below changed
  obtain rfl := Option.some_inj.mp changed
  exact below.combine (idempotent false) fits.below

theorem works_combine {update : BitSet → BitSet.Update Unit} {operation : Bool → Bool → Bool}
    (mirrors : ∀ {other : BitSet}, other.WellFormed → BitSet.Mirrors (update other) fun flags =>
      some (flags.combine operation other.toFlags))
    (idempotent : ∀ value, operation value value = value) (handle other : Handle) :
    Works (combine update handle other) BitSet.reading
      (reflag handle fun values flags =>
        (values other).map fun beside => flags.combine operation beside.flags) := by
  unfold combine
  split
  · next same =>
      subst same
      apply (works_withValue fun _ _ => ⟨.done, rfl, rfl⟩).of_idle rfl
      intro values given
      apply Effect.apply_rewrite_of_same
      intro seen bound
      simp only [bound, Option.map_some, Flags.combine_self idempotent]
  · next distinct =>
      have shape : reflag handle (fun values flags =>
            (values other).map fun beside => flags.combine operation beside.flags) =
          .rewrite handle fun values seen => (values other).bind fun beside =>
            rewriteFlags (fun flags => some (flags.combine operation beside.flags)) seen := by
        unfold reflag
        congr 1
        funext values seen
        dsimp only
        cases values other <;> rfl
      rw [shape]
      exact works_amendFrom distinct
        (fun beside => rewriteFlags fun flags => some (flags.combine operation beside.flags))
        fun _ => amends_combine mirrors idempotent

/-! ## Questions -/

/-- The reply to a question for one of the bits. -/
def replyGet (flags : Flags) (position : Int64) : Reply :=
  match position.toInt.toNat?.bind flags.get? with
  | some value => .give (.flag value)
  | none => .failed .outOfRange

/-- The reply to a question for the lowest true position from `start` on. -/
def replyNext (flags : Flags) (start : Int64) : Reply :=
  match start.toInt.toNat? with
  | some natural => .give (.position (positionOf (flags.nextOne? natural)))
  | none => .failed .invalidArgument

theorem get_eq_finish {bits : BitSet} (fits : bits.Fits) (position : Int64) :
    (withNatural position .outOfRange fun index => answer (bits.get index) .flag) =
      (finish (replyGet bits.toFlags position) : Step (Table BitSet) Ending) := by
  unfold withNatural replyGet
  cases position.toInt.toNat? with
  | none => rfl
  | some index =>
      have length_eq := BitSet.length_toFlags bits
      rcases Nat.lt_or_ge index bits.length with inside | outside
      · have flag := Flags.get?_of_lt (length_eq.symm ▸ inside)
        simp only [fits.wellFormed.get_of_lt inside, Option.bind_some, flag,
          fits.wellFormed.bit_toFlags]
        rfl
      · have flag := Flags.get?_of_le (length_eq.symm ▸ outside)
        simp only [BitSet.get_of_le outside, Option.bind_some, flag]
        rfl

theorem handle?_replyGet (flags : Flags) (position : Int64) :
    (replyGet flags position).handle? = none := by
  unfold replyGet
  split
  · rfl
  · rfl

theorem handle?_replyNext (flags : Flags) (start : Int64) :
    (replyNext flags start).handle? = none := by
  unfold replyNext
  split
  · rfl
  · rfl

theorem next_eq_finish {bits : BitSet} (fits : bits.Fits) (start : Int64) :
    (withNatural start .invalidArgument fun start =>
        answer (bits.nextOne? start) fun found => .position (positionOf found)) =
      (finish (replyNext bits.toFlags start) : Step (Table BitSet) Ending) := by
  unfold withNatural replyNext
  cases start.toInt.toNat? with
  | none => rfl
  | some natural =>
      simp only [fits.wellFormed.nextOne?_eq]
      rfl

/-! ## Every call -/

theorem limitOf_lt (limit : Option UInt64) : (limitOf limit).maxLength < 2 ^ 64 := by
  cases limit with
  | none => decide
  | some maxLength => exact maxLength.toNat_lt

theorem span_small {ι : Type} {toInt : ι → Int} (small : ∀ element, toInt element < 2 ^ 63)
    (elements : List ι) : ∀ position ∈ elements.map toInt, position < 2 ^ 63 := by
  intro position member
  obtain ⟨element, -, rfl⟩ := List.mem_map.mp member
  exact small element

theorem serves_setSpan {ι : Type} (handle : Handle) (positions : Span ι) {toInt : ι → Int}
    (small : ∀ element, toInt element < 2 ^ 63) :
    (setSpan handle (positions.elements.map (·.map toInt))).Serves BitSet.reading
      (reflag handle fun _ flags => flags.setAll? (naturals positions.elements toInt)) := by
  cases listed : positions.elements with
  | error status =>
      obtain rfl := Span.status_of_elements_eq_error listed
      exact serves_invalidArgument
  | ok elements =>
      have amends := amends_setAll (span_small small elements)
      rw [List.map_map] at amends
      exact serves_work (works_amend amends)

/-- Every call on the bit sets serves its caller. -/
theorem serves (call : BitSetCall) : call.operation.Serves BitSet.reading call.effect := by
  cases call with
  | create length limit placed =>
      cases placed with
      | false => exact serves_invalidArgument
      | true =>
          cases made : BitSet.zeros length.toNat (limitOf limit) with
          | error error =>
              simp only [operation, made, if_true]
              exact serves_refused (status_ne_ok error)
          | ok bits =>
              have works : Works (register bits) BitSet.reading _ :=
                works_register (BitSet.fits_zeros made (limitOf_lt limit))
              rw [BitSet.view_zeros made] at works
              simp only [operation, made, if_true]
              exact serves_work works
  | clone handle placed =>
      cases placed with
      | true => exact serves_work (works_withValue_register handle)
      | false => exact serves_invalidArgument
  | destroy handle => exact serves_work (works_release handle)
  | size handle placed =>
      exact serves_work_idle (works_withValue fun _ _ => ⟨.give (.count _), rfl, rfl⟩) placed
  | cardinality handle placed =>
      exact serves_work_idle (works_withValue fun _ _ => ⟨.give (.count _), rfl, rfl⟩) placed
  | get handle position placed =>
      refine serves_work_idle (works_withValue fun bits fits => ?_) placed
      exact ⟨_, get_eq_finish fits position, handle?_replyGet _ position⟩
  | next handle start placed =>
      refine serves_work_idle (works_withValue fun bits fits => ?_) placed
      exact ⟨_, next_eq_finish fits start, handle?_replyNext _ start⟩
  | set handle position => exact serves_work (works_amend (amends_set position))
  | clear handle position => exact serves_work (works_amend (amends_clear position))
  | setInts handle positions =>
      exact serves_setSpan handle positions fun element => by
        have := element.toInt_lt
        omega
  | setLongs handle positions => exact serves_setSpan handle positions Int64.toInt_lt
  | flip handle start stop => exact serves_work (works_amend (amends_flipRange start stop))
  | intersect handle other =>
      exact serves_work (works_combine BitSet.mirrors_intersect Bool.and_self handle other)
  | unite handle other =>
      exact serves_work (works_combine BitSet.mirrors_unite Bool.or_self handle other)

end BitSetCall

end PackedStore
