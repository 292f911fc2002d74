import PackedStore.Proofs.Session.BitSetVerdict

/-!
# The status of every call on buffers

What can stand in the way of a call on buffers is judged in one order, with one exception: a missing
place for a size is noticed only after the handle has been found.
-/

namespace PackedStore

variable {α : Type}

namespace BufferCall

open Operation

/-! ## What can stand in the way -/

/-- Whether the call is refused, before the table is reached, for a missing place or array. -/
@[simp] def lacksPointer : BufferCall α → Bool
  | create placed => !placed
  | append _ elements => elements.dangling
  | layOut _ destination => destination.dangling
  | destroy _ | size .. => false

/-- Whether the call turns out, once the handle has been found, to have no place for its answer. -/
@[simp] def lacksPlace : BufferCall α → Bool
  | size _ placed => !placed
  | _ => false

theorem lacksPointer_of_lacksPlace {call : BufferCall α} (lacking : call.lacksPlace = true) :
    call.lacksPointer = false := by
  cases call with
  | size handle placed => rfl
  | create | destroy | append | layOut => exact nomatch lacking

/-- The handle of the buffer that the call needs. -/
@[simp] def handle? : BufferCall α → Option Handle
  | create _ => none
  | destroy handle | append handle _ | size handle _ | layOut handle _ => some handle

/-- Whether the destination has another size than the buffer. -/
@[simp] def mismatches (table : Table (BurstBuffer α)) : BufferCall α → Bool
  | layOut handle destination => (table.find? handle).any fun buffer =>
      (destination.elements.toOption.getD []).length != buffer.size
  | _ => false

/-- Whether the call puts a new buffer into the table. -/
@[simp] def takesSlot : BufferCall α → Bool
  | create _ => true
  | _ => false

/-- The status of a call on a table: that of the first thing to stand in its way. -/
def verdict (guarded : Guarded (BurstBuffer α)) (call : BufferCall α) : Status :=
  if call.lacksPointer then .invalidArgument
  else if guarded.poisoned then .internalError
  else if call.handle?.any fun handle => (guarded.table.find? handle).isNone then .invalidHandle
  else if call.lacksPlace then .invalidArgument
  else if call.mismatches guarded.table then .capacityMismatch
  else if call.takesSlot ∧ guarded.table.Full then .internalError
  else .ok

theorem verdict_ne_panicked (guarded : Guarded (BurstBuffer α)) (call : BufferCall α) :
    call.verdict guarded ≠ .panicked := by
  unfold verdict
  split_ifs <;> exact nofun

theorem verdict_of_poisoned {guarded : Guarded (BurstBuffer α)} (poisoned : guarded.poisoned = true)
    (call : BufferCall α) :
    call.verdict guarded = if call.lacksPointer then .invalidArgument else .internalError := by
  rw [verdict, if_pos poisoned]

/-! ## Places noticed too late -/

/-- The status of a call on a table if every missing place were noticed before anything else. -/
def prescribed (guarded : Guarded (BurstBuffer α)) (call : BufferCall α) : Status :=
  if call.lacksPointer || call.lacksPlace then .invalidArgument
  else if guarded.poisoned then .internalError
  else if call.handle?.any fun handle => (guarded.table.find? handle).isNone then .invalidHandle
  else if call.mismatches guarded.table then .capacityMismatch
  else if call.takesSlot ∧ guarded.table.Full then .internalError
  else .ok

/-- Whether the table or the handle stops a call before its missing place is noticed. -/
def overlooks (guarded : Guarded (BurstBuffer α)) (call : BufferCall α) : Bool :=
  call.lacksPlace &&
    (guarded.poisoned || call.handle?.any fun handle => (guarded.table.find? handle).isNone)

/-- How the status of a call compares with the prescribed one. -/
structure Compares (guarded : Guarded (BurstBuffer α)) (call : BufferCall α) (status : Status) :
    Prop where
  /-- It is the prescribed one exactly if no missing place is overlooked. -/
  eq_prescribed_iff : status = call.prescribed guarded ↔ call.overlooks guarded = false
  /-- Instead of the missing place it tells what stopped the call. -/
  of_overlooks : call.overlooks guarded = true →
    call.prescribed guarded = .invalidArgument ∧
      status = if guarded.poisoned then .internalError else .invalidHandle

theorem verdict_of_overlooks_eq_false {guarded : Guarded (BurstBuffer α)} {call : BufferCall α}
    (noticed : call.overlooks guarded = false) :
    call.verdict guarded = call.prescribed guarded := by
  rw [verdict, prescribed]
  cases lacking : call.lacksPlace with
  | false => rw [Bool.or_false, if_neg Bool.false_ne_true]
  | true =>
      rw [overlooks, lacking, Bool.true_and, Bool.or_eq_false_iff] at noticed
      obtain ⟨unpoisoned, live⟩ := noticed
      rw [Bool.or_true, unpoisoned, live]
      simp only [Bool.false_eq_true, if_true, if_false, ite_self]

theorem verdict_of_overlooks {guarded : Guarded (BurstBuffer α)} {call : BufferCall α}
    (overlooked : call.overlooks guarded = true) :
    call.prescribed guarded = .invalidArgument ∧
      call.verdict guarded = if guarded.poisoned then .internalError else .invalidHandle := by
  -- Only a call for a size can lack a place, and it lacks no array.
  cases call with
  | size handle placed =>
      simp only [overlooks, lacksPlace, handle?, Option.any_some, Bool.and_eq_true,
        Bool.or_eq_true, Bool.not_eq_true'] at overlooked
      obtain ⟨rfl, poisoned | dead⟩ := overlooked
      · simp [prescribed, verdict, poisoned]
      · simp [prescribed, verdict, dead]
  | create | destroy | append | layOut => exact nomatch overlooked

theorem compares_verdict (guarded : Guarded (BurstBuffer α)) (call : BufferCall α) :
    call.Compares guarded (call.verdict guarded) := by
  refine ⟨⟨?_, verdict_of_overlooks_eq_false⟩, verdict_of_overlooks⟩
  intro same
  rw [Bool.eq_false_iff]
  intro overlooked
  obtain ⟨missing, stopped⟩ := verdict_of_overlooks overlooked
  rw [missing, stopped] at same
  split at same <;> exact nomatch same

/-! ## What the call leaves alone -/

/-- Whether the call only asks. -/
@[simp] def asks : BufferCall α → Bool
  | size .. | layOut .. => true
  | _ => false

/-- What the caller's destination holds before the call. -/
@[simp] def destination? (output : List α → Output) : BufferCall α → Option Output
  | layOut _ destination => destination.elements.toOption.map output
  | _ => none

/-! ## Call by call -/

variable {guarded : Guarded (BurstBuffer α)} {output : List α → Output}
  {destination : Option Output}

theorem orderly_append (handle : Handle) (elements : Span α) :
    (((append handle elements).operation output).perform guarded none).Orderly
      (if elements.dangling then .invalidArgument
        else if guarded.poisoned then .internalError
        else (guarded.table.find? handle).elim .invalidHandle fun _ => .ok)
      false destination guarded := by
  cases dangles : elements.dangling with
  | true =>
      rw [operation, Span.elements_of_dangling dangles]
      exact orderly_refused .invalidArgument
  | false =>
      obtain ⟨burst, listed⟩ := Span.elements_of_not_dangling dangles
      rw [operation, listed]
      exact orderly_work (.inl rfl) fun _ => orderly_amend fun _ _ =>
        orderly_succeeded (Nat.zero_le 1)

theorem orderly_size (handle : Handle) (placed : Bool) :
    (((size handle placed).operation output).perform guarded none).Orderly
      (if guarded.poisoned then .internalError
        else (guarded.table.find? handle).elim .invalidHandle fun _ =>
          if placed then .ok else .invalidArgument)
      true destination guarded := by
  refine orderly_work (.inl rfl) fun _ => orderly_withValue fun buffer _ => ?_
  cases placed with
  | true =>
      exact orderly_finish (.give _) guarded.table fun failure => absurd rfl failure
  | false => exact orderly_finish (.failed .invalidArgument) guarded.table fun _ => .inl rfl

theorem status_replyLayOut (elements room : List α) :
    (replyLayOut output elements room).status =
      if room.length != elements.length then .capacityMismatch else .ok := by
  unfold replyLayOut
  split
  · next same => simp [same, Reply.give]
  · next other => simp [other]

theorem out_replyLayOut (elements room : List α)
    (failure : (replyLayOut output elements room).status ≠ .ok) :
    (replyLayOut output elements room).out = some (output room) := by
  by_cases same : room.length = elements.length
  · simp [status_replyLayOut, same] at failure
  · rw [replyLayOut, if_neg same]

theorem orderly_layOut (sound : guarded.Sound BurstBuffer.reading) (handle : Handle)
    (destination : Span α) :
    (((layOut handle destination).operation output).perform guarded none).Orderly
      (if destination.dangling then .invalidArgument
        else if guarded.poisoned then .internalError
        else (guarded.table.find? handle).elim .invalidHandle fun buffer =>
          if (destination.elements.toOption.getD []).length != buffer.size
            then .capacityMismatch else .ok)
      true (destination.elements.toOption.map output) guarded := by
  cases dangles : destination.dangling with
  | true =>
      rw [operation, Span.elements_of_dangling dangles]
      exact orderly_refused .invalidArgument
  | false =>
      obtain ⟨room, listed⟩ := Span.elements_of_not_dangling dangles
      rw [operation, listed]
      refine orderly_work (.inl rfl) fun unpoisoned => orderly_withValue fun buffer found => ?_
      have fits : buffer.WellFormed := sound.fits unpoisoned found
      rw [layOut_eq_finish fits]
      refine (orderly_finish _ guarded.table fun failure =>
        .inr (out_replyLayOut buffer.toList room failure)).of_eq ?_
      rw [status_replyLayOut, fits]
      rfl

/-- Every call on buffers ends in the status of the first thing to stand in its way. -/
theorem orderly (call : BufferCall α) (sound : guarded.Sound BurstBuffer.reading) :
    ((call.operation output).perform guarded none).Orderly (call.verdict guarded) call.asks
      (call.destination? output) guarded := by
  cases call with
  | create placed =>
      cases placed with
      | false => exact orderly_refused .invalidArgument
      | true =>
          refine (orderly_work (.inl rfl) fun unpoisoned =>
            orderly_register (sound.wellFormed unpoisoned) .empty).of_eq ?_
          simp [verdict]
  | destroy handle =>
      refine (orderly_work (.inl rfl) fun _ => orderly_release guarded.table handle).of_eq ?_
      cases found : guarded.table.find? handle <;> simp [verdict, found]
  | append handle elements =>
      refine (orderly_append handle elements).of_eq ?_
      cases found : guarded.table.find? handle <;> simp [verdict, found]
  | size handle placed =>
      refine (orderly_size handle placed).of_eq ?_
      cases found : guarded.table.find? handle <;> cases placed <;> simp [verdict, found]
  | layOut handle destination =>
      refine (orderly_layOut sound handle destination).of_eq ?_
      cases found : guarded.table.find? handle <;> simp [verdict, found]

/-- The status of a call on a sound table compares so with the prescribed one. -/
theorem compares_perform (call : BufferCall α) (sound : guarded.Sound BurstBuffer.reading) :
    call.Compares guarded ((call.operation output).perform guarded none).reply.status := by
  rw [(call.orderly sound).status_eq]
  exact call.compares_verdict guarded

end BufferCall

namespace Session

/-- Whatever has happened to a session, as long as its logger is not set to panic a call on buffers
of either kind ends in the prescribed status, except that a missing place for a size is overlooked
if the table is poisoned or the handle names nothing. -/
theorem compares_status (events : List Event) :
    let session := start.run events
    (∀ call : BufferCall Int32,
        call.Compares session.intBuffers (session.disarm.reply (.intBuffer call)).status) ∧
      ∀ call : BufferCall UInt32,
        call.Compares session.floatBuffers (session.disarm.reply (.floatBuffer call)).status := by
  intro session
  have sound : session.Sound := sound_start.run events
  constructor
  · intro call
    exact call.compares_perform (sound .ints)
  · intro call
    exact call.compares_perform (sound .floats)

/-- Asked for the size behind the handle of all zero bits, without a place for the answer, a fresh
session complains of the handle, not of the place. -/
theorem status_ne_prescribed_of_dead_size :
    let call : BufferCall Int32 := .size .zero false
    (start.disarm.reply (.intBuffer call)).status = .invalidHandle ∧
      call.prescribed start.intBuffers = .invalidArgument := by
  decide

end Session

end PackedStore
