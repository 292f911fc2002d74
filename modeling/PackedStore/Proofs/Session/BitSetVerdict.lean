import Mathlib.Tactic.SplitIfs
import PackedStore.Proofs.Session.Orderly

/-!
# The status of every call on bit sets

What can stand in the way of a call on bit sets is judged in one order, the same for every call: a
missing place or array, a limit too low for a new set, a poisoned table, a dead handle, a stray
position, a bad bound, a limit too low for the set to grow, a full table. The first of these gives
the status.
-/

namespace PackedStore

/-- Whether the span promises elements and has no base to find them at. -/
def Span.dangling {ι : Type} (span : Span ι) : Bool :=
  span.base.isNone && span.length != 0

theorem Span.elements_of_dangling {ι : Type} {span : Span ι} (dangling : span.dangling = true) :
    span.elements = .error .invalidArgument := by
  simp only [Span.dangling, Bool.and_eq_true, Option.isNone_iff_eq_none, bne_iff_ne] at dangling
  rw [elements, if_neg dangling.2, dangling.1]

theorem Span.elements_of_not_dangling {ι : Type} {span : Span ι}
    (held : span.dangling = false) : ∃ elements, span.elements = .ok elements := by
  unfold elements
  split
  · exact ⟨_, rfl⟩
  · next nonzero =>
      cases stored : span.base with
      | none => simp [Span.dangling, stored, nonzero] at held
      | some values => exact ⟨_, rfl⟩

/-- Whether a signed number is no position of the set: it is negative, or not below the length. -/
def BitSet.lacks (bits : BitSet) (position : Int) : Bool :=
  position < 0 ∨ bits.length ≤ position

theorem BitSet.lacks_iff {bits : BitSet} {position : Int} :
    bits.lacks position = true ↔ position < 0 ∨ bits.length ≤ position :=
  decide_eq_true_iff

namespace BitSetCall

open Operation

/-! ## What can stand in the way -/

/-- Whether the call comes without a place for its answer or without an array it needs. -/
@[simp] def lacksPointer : BitSetCall → Bool
  | create _ _ placed | clone _ placed | size _ placed | cardinality _ placed | get _ _ placed
  | next _ _ placed => !placed
  | setInts _ positions => positions.dangling
  | setLongs _ positions => positions.dangling
  | destroy _ | set .. | clear .. | flip .. | intersect .. | unite .. => false

/-- Whether a set is to be made that is longer than its limit, which is `2 ^ 32 - 1` if none is
given. -/
@[simp] def exceedsLimit : BitSetCall → Bool
  | create length limit _ => (limit.map UInt64.toNat).getD (2 ^ 32 - 1) < length.toNat
  | _ => false

/-- The handles of the sets that the call needs. -/
@[simp] def handles : BitSetCall → List Handle
  | create .. => []
  | clone handle _ | destroy handle | size handle _ | cardinality handle _ | get handle _ _
  | next handle _ _ | set handle _ | clear handle _ | setInts handle _ | setLongs handle _
  | flip handle _ _ => [handle]
  | intersect handle other | unite handle other => [handle, other]

/-- The positions that must lie in the set. -/
@[simp] def positions : BitSetCall → List Int
  | get _ position _ | set _ position | clear _ position => [position.toInt]
  | setInts _ positions => (positions.elements.toOption.getD []).map (·.toInt)
  | setLongs _ positions => (positions.elements.toOption.getD []).map (·.toInt)
  | _ => []

/-- Whether one of the positions is none of the set. -/
@[simp] def strays (table : Table BitSet) (call : BitSetCall) : Bool :=
  call.handles.any fun handle => (table.find? handle).any fun bits => call.positions.any bits.lacks

/-- Whether a range has a negative bound or ends before it starts, or a search has a negative
start. -/
@[simp] def hasBadBound : BitSetCall → Bool
  | flip _ start stop =>
      start.toInt < 0 ∨ stop.toInt < 0 ∨ stop.toInt < start.toInt
  | next _ start _ => start.toInt < 0
  | _ => false

/-- Whether the set needs more bits than its limit permits: up to the end of a range, or as many as
the other set has. -/
@[simp] def outgrows (table : Table BitSet) : BitSetCall → Bool
  | flip handle _ stop =>
      (table.find? handle).any fun bits => (bits.limit.maxLength : Int) < stop.toInt
  | intersect handle other | unite handle other =>
      (table.find? handle).any fun bits =>
        (table.find? other).any fun beside => bits.limit.maxLength < beside.length
  | _ => false

/-- Whether the call puts a new set into the table. -/
@[simp] def takesSlot : BitSetCall → Bool
  | create .. | clone .. => true
  | _ => false

/-- The status of a call on a table: that of the first thing to stand in its way. -/
def verdict (guarded : Guarded BitSet) (call : BitSetCall) : Status :=
  if call.lacksPointer then .invalidArgument
  else if call.exceedsLimit then .lengthLimitExceeded
  else if guarded.poisoned then .internalError
  else if call.handles.any fun handle => (guarded.table.find? handle).isNone then .invalidHandle
  else if call.strays guarded.table then .outOfRange
  else if call.hasBadBound then .invalidArgument
  else if call.outgrows guarded.table then .lengthLimitExceeded
  else if call.takesSlot ∧ guarded.table.Full then .internalError
  else .ok

theorem verdict_ne_panicked (guarded : Guarded BitSet) (call : BitSetCall) :
    call.verdict guarded ≠ .panicked := by
  unfold verdict
  split_ifs <;> exact nofun

theorem verdict_of_poisoned {guarded : Guarded BitSet} (poisoned : guarded.poisoned = true)
    (call : BitSetCall) :
    call.verdict guarded =
      if call.lacksPointer then .invalidArgument
      else if call.exceedsLimit then .lengthLimitExceeded
      else .internalError := by
  rw [verdict, if_pos poisoned]

/-- Whether the call only asks. -/
@[simp] def asks : BitSetCall → Bool
  | size .. | cardinality .. | get .. | next .. => true
  | _ => false

/-! ## Updates of one set -/

section Updates

variable {bits : BitSet} {destination : Option Output}

theorem orderly_applyUpdate_of_ok {update : BitSet.Update Unit} {after : BitSet}
    (done : update bits = .ok () after) :
    ((applyUpdate update).run bits).Orderly .ok false destination bits := by
  rw [run_applyUpdate_of_ok done]
  exact orderly_succeeded (Nat.zero_le 1)

theorem orderly_applyUpdate_of_error {update : BitSet.Update Unit} {error : BitSet.Error}
    (refused : update bits = .error error bits) (sound : ∀ cause, error ≠ .fault cause) :
    ((applyUpdate update).run bits).Orderly error.status false destination bits := by
  rw [run_applyUpdate_of_error refused sound]
  exact orderly_failed error.status bits (Nat.zero_le 1)

theorem written_applyUpdate (update : BitSet.Update Unit) (bits : BitSet) :
    ((applyUpdate update).run bits).written = [] := by
  simp only [applyUpdate, Step.run_bind, Step.run_read]
  split <;> rfl

/-- One record in front of silent work leaves it orderly. -/
theorem orderly_record {status : Status} {change : Step BitSet Ending}
    (silent : (change.run bits).written = [])
    (orderly : (change.run bits).Orderly status false destination bits) (record : Option Record) :
    ((do Step.write? record; change : Step BitSet Ending).run bits).Orderly status false
      destination bits := by
  cases record with
  | none => exact orderly
  | some record =>
      refine ⟨orderly.ends, ?_, orderly.store_eq⟩
      have written :
          ((do Step.write? (some record); change : Step BitSet Ending).run bits).written =
            ⟨record, bits⟩ :: (change.run bits).written := rfl
      rw [written, silent]
      exact Nat.le_refl 1

/-- A change of one bit fails exactly at a position that is not in the set. -/
theorem orderly_put {update : Nat → BitSet.Update Unit} {view : Nat → Nat → Bool}
    (accepts : ∀ index, index < bits.length →
      ∃ after, update index bits = .ok () after ∧
        BitSet.Becomes bits after bits.length (view index))
    (refuses : ∀ index, bits.length ≤ index →
      update index bits = .error (.outOfRange index bits.length) bits) (position : Int64) :
    ((withNatural position .outOfRange fun index => applyUpdate (update index)).run bits).Orderly
      (if bits.lacks position.toInt then .outOfRange else .ok) false destination bits := by
  rw [withNatural_eq]
  by_cases negative : position.toInt < 0
  · rw [if_pos negative, if_pos (BitSet.lacks_iff.mpr (.inl negative))]
    exact orderly_failed .outOfRange bits (Nat.zero_le 1)
  rw [if_neg negative]
  rcases Nat.lt_or_ge position.toInt.toNat bits.length with inside | outside
  · rw [if_neg (mt BitSet.lacks_iff.mp (by omega))]
    obtain ⟨after, done, -⟩ := accepts _ inside
    exact orderly_applyUpdate_of_ok done
  · rw [if_pos (BitSet.lacks_iff.mpr (by omega))]
    exact orderly_applyUpdate_of_error (refuses _ outside) fun _ => nofun

/-- Listed positions are all used, or refused for one that is not in the set, whether it is negative
or too large and wherever in the list it stands. -/
theorem run_setAll (wellFormed : bits.WellFormed) (positions : List Int) :
    ((∃ position ∈ positions, bits.lacks position = true) ∧
        (setAll positions).run bits = ⟨.ok (.failed .outOfRange), bits, []⟩) ∨
      (∀ position ∈ positions, ¬bits.lacks position = true) ∧
        ∃ after, BitSet.setAll (positions.map Int.toNat) bits = .ok () after ∧
          (setAll positions).run bits = ⟨.ok .done, after, []⟩ := by
  rw [setAll_eq]
  by_cases negative : positions.any fun position => position < 0
  · obtain ⟨position, member, below⟩ := List.any_eq_true.mp negative
    rw [if_pos negative]
    exact .inl ⟨⟨position, member, BitSet.lacks_iff.mpr (.inl (decide_eq_true_iff.mp below))⟩, rfl⟩
  have natural : ∀ position ∈ positions, 0 ≤ position := by simpa using negative
  rw [if_neg negative]
  cases first : (positions.map Int.toNat).find? fun index => bits.length ≤ index with
  | none =>
      have inside : ∀ index ∈ positions.map Int.toNat, index < bits.length := by
        intro index member
        simpa using List.find?_eq_none.mp first index member
      obtain ⟨after, done, -⟩ := BitSet.setAll_of_forall_lt wellFormed inside
      refine .inr ⟨?_, after, done, run_applyUpdate_of_ok done⟩
      intro position member lacking
      have := natural position member
      have := inside position.toNat (List.mem_map_of_mem member)
      have := BitSet.lacks_iff.mp lacking
      omega
  | some index =>
      obtain ⟨position, member, rfl⟩ := List.mem_map.mp (List.mem_of_find?_eq_some first)
      have outside : bits.length ≤ position.toNat := by simpa using List.find?_some first
      have lacking : bits.lacks position = true := by
        have := natural position member
        exact BitSet.lacks_iff.mpr (by omega)
      exact .inl ⟨⟨position, member, lacking⟩,
        run_applyUpdate_of_error (BitSet.setAll_of_find? first) fun _ => nofun⟩

theorem orderly_setAll (wellFormed : bits.WellFormed) (positions : List Int) :
    ((setAll positions).run bits).Orderly
      (if positions.any bits.lacks then .outOfRange else .ok) false destination bits := by
  rcases run_setAll wellFormed positions with ⟨stray, ran⟩ | ⟨inside, after, -, ran⟩
  · rw [ran, if_pos (List.any_eq_true.mpr stray)]
    exact orderly_failed .outOfRange bits (Nat.zero_le 1)
  · rw [ran, if_neg]
    · exact orderly_succeeded (Nat.zero_le 1)
    · intro stray
      obtain ⟨position, member, lacking⟩ := List.any_eq_true.mp stray
      exact inside position member lacking

theorem orderly_flipRange (wellFormed : bits.WellFormed) (start stop : Int64) :
    ((flipRange start stop).run bits).Orderly
      (if start.toInt < 0 ∨ stop.toInt < 0 ∨ stop.toInt < start.toInt then .invalidArgument
        else if (bits.limit.maxLength : Int) < stop.toInt then .lengthLimitExceeded else .ok)
      false destination bits := by
  rw [flipRange, withNatural_eq]
  by_cases negative : start.toInt < 0
  · rw [if_pos negative, if_pos (.inl negative)]
    exact orderly_failed .invalidArgument bits (Nat.zero_le 1)
  rw [if_neg negative, withNatural_eq]
  by_cases negativeStop : stop.toInt < 0
  · rw [if_pos negativeStop, if_pos (.inr (.inl negativeStop))]
    exact orderly_failed .invalidArgument bits (Nat.zero_le 1)
  rw [if_neg negativeStop, Step.run_bind, Step.run_read]
  refine orderly_record (written_applyUpdate _ bits) ?_ (bits.flipRecord _ _)
  by_cases inverted : stop.toInt < start.toInt
  · rw [if_pos (.inr (.inr inverted))]
    exact orderly_applyUpdate_of_error (BitSet.flip_of_lt (by omega)) fun _ => nofun
  have ordered : start.toInt.toNat ≤ stop.toInt.toNat := by omega
  rw [if_neg (by omega)]
  by_cases above : (bits.limit.maxLength : Int) < stop.toInt
  · rw [if_pos above]
    exact orderly_applyUpdate_of_error
      (BitSet.flip_of_limit_lt wellFormed ordered (by omega)) fun _ => nofun
  · rw [if_neg above]
    obtain ⟨after, done, -⟩ := BitSet.flip_of_le wellFormed ordered (by omega)
    exact orderly_applyUpdate_of_ok done

/-- Taking another set in fails exactly if the limit is below the length of that set. -/
theorem orderly_take {update : BitSet.Update Unit} {length : Nat} {view : Nat → Bool}
    (accepts : length ≤ bits.limit.maxLength →
      ∃ after, update bits = .ok () after ∧ BitSet.Becomes bits after (max bits.length length) view)
    (refuses : bits.limit.maxLength < length →
      update bits = .error (.limitExceeded length bits.limit.maxLength) bits) :
    ((applyUpdate update).run bits).Orderly
      (if bits.limit.maxLength < length then .lengthLimitExceeded else .ok) false destination
      bits := by
  rcases Nat.lt_or_ge bits.limit.maxLength length with above | within
  · rw [if_pos above]
    exact orderly_applyUpdate_of_error (refuses above) fun _ => nofun
  · rw [if_neg (Nat.not_lt.mpr within)]
    obtain ⟨after, done, -⟩ := accepts within
    exact orderly_applyUpdate_of_ok done

end Updates

/-! ## Answers -/

theorem status_replyGet (bits : BitSet) (position : Int64) :
    (replyGet bits.toFlags position).status =
      if bits.lacks position.toInt then .outOfRange else .ok := by
  have length_eq := BitSet.length_toFlags bits
  rw [replyGet, toNat?_eq]
  by_cases negative : position.toInt < 0
  · rw [if_pos negative, if_pos (BitSet.lacks_iff.mpr (.inl negative))]
    rfl
  rw [if_neg negative, Option.bind_some]
  rcases Nat.lt_or_ge position.toInt.toNat bits.length with inside | outside
  · rw [if_neg (mt BitSet.lacks_iff.mp (by omega)), Flags.get?_of_lt (length_eq.symm ▸ inside)]
    rfl
  · rw [if_pos (BitSet.lacks_iff.mpr (by omega)), Flags.get?_of_le (length_eq.symm ▸ outside)]
    rfl

theorem out_replyGet (flags : Flags) (position : Int64)
    (failure : (replyGet flags position).status ≠ .ok) : (replyGet flags position).out = none := by
  unfold replyGet at failure ⊢
  split at failure
  · exact absurd rfl failure
  · rfl

theorem status_replyNext (flags : Flags) (start : Int64) :
    (replyNext flags start).status = if start.toInt < 0 then .invalidArgument else .ok := by
  rw [replyNext, toNat?_eq]
  by_cases negative : start.toInt < 0
  · rw [if_pos negative, if_pos negative]
    rfl
  · rw [if_neg negative, if_neg negative]
    rfl

theorem out_replyNext (flags : Flags) (start : Int64)
    (failure : (replyNext flags start).status ≠ .ok) : (replyNext flags start).out = none := by
  unfold replyNext at failure ⊢
  split at failure
  · exact absurd rfl failure
  · rfl

/-! ## Families of calls -/

section Families

variable {guarded : Guarded BitSet} {destination : Option Output}

/-- A change in place is judged by the set that it finds behind the handle. -/
theorem orderly_change (sound : guarded.Sound BitSet.reading) {change : Step BitSet Ending}
    {judge : BitSet → Status}
    (works : ∀ bits : BitSet, bits.WellFormed →
      (change.run bits).Orderly (judge bits) false destination bits) (handle : Handle) :
    ((work (amend handle change) true).perform guarded none).Orderly
      (if guarded.poisoned then .internalError
        else (guarded.table.find? handle).elim .invalidHandle judge) false destination guarded :=
  orderly_work (.inl rfl) fun unpoisoned => orderly_amend fun _ found =>
    works _ (sound.fits unpoisoned found).wellFormed

/-- A question is judged by the set that it finds behind the handle, unless the answer lacks a
place. -/
theorem orderly_question (sound : guarded.Sound BitSet.reading)
    {next : BitSet → Step (Table BitSet) Ending} {reply : BitSet → Reply}
    (answers : ∀ bits : BitSet, bits.Fits → next bits = finish (reply bits))
    (untouched : ∀ bits, (reply bits).status ≠ .ok → (reply bits).out = none)
    (handle : Handle) (placed : Bool) :
    ((work (withValue handle next) placed).perform guarded none).Orderly
      (if placed = false then .invalidArgument
        else if guarded.poisoned then .internalError
        else (guarded.table.find? handle).elim .invalidHandle fun bits => (reply bits).status)
      true destination guarded := by
  refine orderly_work (.inr rfl) fun unpoisoned => orderly_withValue fun bits found => ?_
  rw [answers bits (sound.fits unpoisoned found)]
  exact orderly_finish (reply bits) guarded.table fun failure => .inl (untouched bits failure)

theorem orderly_setSpan {ι : Type} (sound : guarded.Sound BitSet.reading) (handle : Handle)
    (positions : Span ι) (toInt : ι → Int) :
    ((setSpan handle (positions.elements.map (·.map toInt))).perform guarded none).Orderly
      (if positions.dangling then .invalidArgument
        else if guarded.poisoned then .internalError
        else (guarded.table.find? handle).elim .invalidHandle fun bits =>
          if ((positions.elements.toOption.getD []).map toInt).any bits.lacks
            then .outOfRange else .ok)
      false destination guarded := by
  cases dangles : positions.dangling with
  | true =>
      rw [Span.elements_of_dangling dangles]
      exact orderly_refused .invalidArgument
  | false =>
      obtain ⟨elements, listed⟩ := Span.elements_of_not_dangling dangles
      rw [listed]
      exact orderly_change sound (fun bits wellFormed => orderly_setAll wellFormed _) handle

/-- Two sets are combined unless the limit of the first is below the length of the second. A set
never exceeds its own limit, so this is no matter when it meets itself. -/
theorem orderly_combine {update : BitSet → BitSet.Update Unit} {operation : Bool → Bool → Bool}
    (sound : guarded.Sound BitSet.reading)
    (accepts : ∀ bits other : BitSet, bits.WellFormed → other.WellFormed →
      other.length ≤ bits.limit.maxLength →
      ∃ after, update other bits = .ok () after ∧
        BitSet.Becomes bits after (max bits.length other.length)
          fun index => operation (bits.bit index) (other.bit index))
    (refuses : ∀ bits other : BitSet, bits.WellFormed → bits.limit.maxLength < other.length →
      update other bits = .error (.limitExceeded other.length bits.limit.maxLength) bits)
    (handle other : Handle) :
    ((work (combine update handle other) true).perform guarded none).Orderly
      (if guarded.poisoned then .internalError
        else (guarded.table.find? handle).elim .invalidHandle fun bits =>
          (guarded.table.find? other).elim .invalidHandle fun beside =>
            if bits.limit.maxLength < beside.length then .lengthLimitExceeded else .ok)
      false destination guarded := by
  refine orderly_work (.inl rfl) fun unpoisoned => ?_
  unfold combine
  split
  · next same =>
      subst same
      have works : ((withValue handle fun _ => finish .done).run guarded.table).Orderly
          ((guarded.table.find? handle).elim .invalidHandle fun _ => .ok) false destination
          guarded.table :=
        orderly_withValue fun _ _ => orderly_finish .done guarded.table fun failure =>
          absurd rfl failure
      refine works.of_eq ?_
      cases found : guarded.table.find? handle with
      | none => rfl
      | some bits =>
          have within := (sound.fits unpoisoned found).wellFormed.length_le
          exact (if_neg (Nat.not_lt.mpr within)).symm
  · next distinct =>
      refine orderly_amendFrom distinct fun bits beside found foundBeside => ?_
      have wellFormed := (sound.fits unpoisoned found).wellFormed
      have besideWellFormed := (sound.fits unpoisoned foundBeside).wellFormed
      exact orderly_take (accepts bits beside wellFormed besideWellFormed)
        (refuses bits beside wellFormed)

theorem maxLength_limitOf (limit : Option UInt64) :
    (limitOf limit).maxLength = (limit.map UInt64.toNat).getD (2 ^ 32 - 1) := by
  cases limit <;> rfl

theorem orderly_create (sound : guarded.Sound BitSet.reading) (length : UInt64)
    (limit : Option UInt64) :
    ((create length limit true).operation.perform guarded none).Orderly
      (if (limitOf limit).maxLength < length.toNat then .lengthLimitExceeded
        else if guarded.poisoned then .internalError
        else if guarded.table.Full then .internalError else .ok)
      false destination guarded := by
  rw [operation, if_pos rfl, BitSet.zeros]
  by_cases above : (limitOf limit).maxLength < length.toNat
  · rw [if_pos above, if_pos above]
    exact orderly_refused .lengthLimitExceeded
  · rw [if_neg above, if_neg above]
    exact orderly_work (.inl rfl) fun unpoisoned => orderly_register (sound.wellFormed unpoisoned) _

theorem orderly_clone (sound : guarded.Sound BitSet.reading) (handle : Handle) :
    ((clone handle true).operation.perform guarded none).Orderly
      (if guarded.poisoned then .internalError
        else (guarded.table.find? handle).elim .invalidHandle fun _ =>
          if guarded.table.Full then .internalError else .ok)
      false destination guarded :=
  orderly_work (.inl rfl) fun unpoisoned => orderly_withValue fun bits _ =>
    orderly_register (sound.wellFormed unpoisoned) bits

end Families

/-! ## Every call -/

/-- Every call on bit sets ends in the status of the first thing to stand in its way. -/
theorem orderly {guarded : Guarded BitSet} (call : BitSetCall)
    (sound : guarded.Sound BitSet.reading) :
    (call.operation.perform guarded none).Orderly (call.verdict guarded) call.asks none
      guarded := by
  -- Each case compares the order of the checks of its family with the common order.
  cases call with
  | create length limit placed =>
      cases placed with
      | false => exact orderly_refused .invalidArgument
      | true =>
          refine (orderly_create sound length limit).of_eq ?_
          simp [verdict, maxLength_limitOf]
  | clone handle placed =>
      cases placed with
      | false => exact orderly_refused .invalidArgument
      | true =>
          refine (orderly_clone sound handle).of_eq ?_
          cases found : guarded.table.find? handle <;> simp [verdict, found]
  | destroy handle =>
      refine (orderly_work (.inl rfl) fun _ => orderly_release guarded.table handle).of_eq ?_
      cases found : guarded.table.find? handle <;> simp [verdict, found]
  | size handle placed =>
      refine (orderly_question sound (fun bits _ => rfl) (fun _ failure => absurd rfl failure)
        handle placed).of_eq ?_
      cases found : guarded.table.find? handle <;> cases placed <;>
        simp [verdict, found, Reply.give]
  | cardinality handle placed =>
      refine (orderly_question sound (fun bits _ => rfl) (fun _ failure => absurd rfl failure)
        handle placed).of_eq ?_
      cases found : guarded.table.find? handle <;> cases placed <;>
        simp [verdict, found, Reply.give]
  | get handle position placed =>
      refine (orderly_question sound (fun bits fits => get_eq_finish fits position)
        (fun bits => out_replyGet bits.toFlags position) handle placed).of_eq ?_
      cases found : guarded.table.find? handle <;> cases placed <;>
        simp [verdict, found, status_replyGet]
  | next handle start placed =>
      refine (orderly_question sound (fun bits fits => next_eq_finish fits start)
        (fun bits => out_replyNext bits.toFlags start) handle placed).of_eq ?_
      cases found : guarded.table.find? handle <;> cases placed <;>
        simp [verdict, found, status_replyNext]
  | set handle position =>
      refine (orderly_change sound (fun bits wellFormed =>
        orderly_put (fun _ => BitSet.set_of_lt wellFormed) (fun _ => BitSet.set_of_le) position)
        handle).of_eq ?_
      cases found : guarded.table.find? handle <;> simp [verdict, found]
  | clear handle position =>
      refine (orderly_change sound (fun bits wellFormed =>
        orderly_put (fun _ => BitSet.clear_of_lt wellFormed) (fun _ => BitSet.clear_of_le) position)
        handle).of_eq ?_
      cases found : guarded.table.find? handle <;> simp [verdict, found]
  | setInts handle positions =>
      refine (orderly_setSpan sound handle positions (·.toInt)).of_eq ?_
      cases found : guarded.table.find? handle <;> simp [verdict, found]
  | setLongs handle positions =>
      refine (orderly_setSpan sound handle positions (·.toInt)).of_eq ?_
      cases found : guarded.table.find? handle <;> simp [verdict, found]
  | flip handle start stop =>
      refine (orderly_change sound (fun bits wellFormed =>
        orderly_flipRange wellFormed start stop) handle).of_eq ?_
      cases found : guarded.table.find? handle <;> simp [verdict, found]
  | intersect handle other =>
      refine (orderly_combine sound (fun _ _ => BitSet.intersect_of_le)
        (fun _ _ => BitSet.intersect_of_lt) handle other).of_eq ?_
      cases found : guarded.table.find? handle <;>
        cases foundBeside : guarded.table.find? other <;> simp [verdict, found, foundBeside]
  | unite handle other =>
      refine (orderly_combine sound (fun _ _ => BitSet.unite_of_le)
        (fun _ _ => BitSet.unite_of_lt) handle other).of_eq ?_
      cases found : guarded.table.find? handle <;>
        cases foundBeside : guarded.table.find? other <;> simp [verdict, found, foundBeside]

end BitSetCall

/-- Whatever has happened to a session, as long as its logger is not set to panic a call on bit sets
ends in the status of the first thing to stand in its way. -/
theorem Session.status_eq_verdict (events : List Event) (call : BitSetCall) :
    ((start.run events).disarm.reply (.bitSet call)).status =
      call.verdict (start.run events).bitSets :=
  (call.orderly (sound_start.run events .bitSets)).status_eq

/-- A handle that names nothing is noticed before bad bounds. -/
example : (BitSetCall.flip .zero (-1) 3).verdict ⟨.empty "bitset" 1, false⟩ = .invalidHandle := by
  decide

end PackedStore
