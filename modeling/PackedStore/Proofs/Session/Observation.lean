import PackedStore.Proofs.Session.Store

/-!
# What callers observe

Whatever calls were made on a session, every question about a live handle is answered from what the
store holds behind that handle, and a call disturbs nothing behind any other handle.
-/

namespace PackedStore

/-- A call that ended with `reply` disturbs no handle in use but its target, gives none up but by
destroying it, hands out none that is in use, and hands one out for whatever it takes in. -/
structure Undisturbed {ν : Type} (effect : Effect ν) (reply : Reply) (values : Handle → Option ν) :
    Prop where
  /-- Nothing changes behind a handle in use that is not the target. -/
  settle_eq : ∀ handle, values handle ≠ none → effect.target? ≠ some handle →
    reply.settle effect values handle = values handle
  /-- A handle stays in use unless it is given up. -/
  settle_ne_none : ∀ handle, values handle ≠ none → effect ≠ .unbind handle →
    reply.settle effect values handle ≠ none
  /-- A handle that is handed out was not in use, and is from now on. -/
  handed_out : ∀ handle, reply.handle? = some handle →
    values handle = none ∧ reply.settle effect values handle ≠ none
  /-- Something taken in is seen from now on behind a handle that is handed out, and nothing else
  changes. -/
  taken_in : ∀ content, effect = .bind content → reply.status = .ok →
    ∃ handle seen, reply.out = some (.handle handle) ∧ content values = some seen ∧
      reply.settle effect values = Function.update values handle (some seen)

/-- Calls on bit sets are answered from the flags behind each handle; `ask` gives the replies. -/
structure BitSetCall.Answers (ask : BitSetCall → Reply) (values : Handle → Option Snapshot) :
    Prop where
  /-- The number of bits. -/
  size_eq : ∀ handle snapshot, values handle = some snapshot →
    ∃ count, ask (.size handle true) = .give (.count count) ∧
      count.toNat = snapshot.flags.length
  /-- The number of true bits. -/
  cardinality_eq : ∀ handle snapshot, values handle = some snapshot →
    ∃ count, ask (.cardinality handle true) = .give (.count count) ∧
      count.toNat = snapshot.flags.cardinality
  /-- One bit, or a failure past the end and before the start. -/
  get_eq : ∀ handle snapshot (position : Int64), values handle = some snapshot →
    ask (.get handle position true) =
      match position.toInt.toNat?.bind snapshot.flags.get? with
      | some value => .give (.flag value)
      | none => .failed .outOfRange
  /-- The lowest true position from a start on, -1 if there is none. -/
  next_eq : ∀ handle snapshot (start : Int64), values handle = some snapshot → 0 ≤ start.toInt →
    ∃ position, ask (.next handle start true) = .give (.position position) ∧
      position.toInt = ((snapshot.flags.nextOne? start.toInt.toNat).map Int.ofNat).getD (-1)
  /-- A search from before the start fails. -/
  next_of_neg : ∀ handle snapshot (start : Int64), values handle = some snapshot →
    start.toInt < 0 → ask (.next handle start true) = .failed .invalidArgument
  /-- A range is toggled if it ends within the limit. -/
  flip_eq : ∀ handle snapshot (start stop : Int64), values handle = some snapshot →
    0 ≤ start.toInt → start.toInt ≤ stop.toInt →
      ask (.flip handle start stop) =
        if snapshot.limit.maxLength < stop.toInt.toNat then .failed .lengthLimitExceeded else .done
  /-- Calls disturb no other handle. -/
  undisturbed : ∀ call : BitSetCall, Undisturbed call.effect (ask call) values

/-- Calls on buffers are answered from the elements behind each handle. -/
structure BufferCall.Answers {α : Type} (ask : BufferCall α → Reply) (output : List α → Output)
    (values : Handle → Option (List α)) : Prop where
  /-- The number of elements, as a word. -/
  size_eq : ∀ handle elements, values handle = some elements →
    ask (.size handle true) = .give (.count (UInt64.ofNat elements.length))
  /-- All elements in order, in a destination of their number; another destination stays as it
  is. -/
  layOut_eq : ∀ handle elements (destination : Span α) room, values handle = some elements →
    destination.elements = .ok room →
      ask (.layOut handle destination) =
        if room.length = elements.length then .give (output elements)
        else ⟨.capacityMismatch, some (output room)⟩
  /-- Calls disturb no other handle. -/
  undisturbed : ∀ call : BufferCall α, Undisturbed call.effect (ask call) values

/-- Every call of a session is answered as the store says. -/
structure Session.Answers (session : Session) (store : Store) : Prop where
  /-- Calls on bit sets. -/
  bitSets : BitSetCall.Answers (fun call => session.reply (.bitSet call)) store.bitSets
  /-- Calls on integer buffers. -/
  ints : BufferCall.Answers (fun call => session.reply (.intBuffer call)) .ints store.ints
  /-- Calls on single-precision buffers. -/
  floats : BufferCall.Answers (fun call => session.reply (.floatBuffer call)) .floats store.floats

theorem Served.undisturbed {α ν : Type} {reading : Reading α ν} {effect : Effect ν}
    {values : Handle → Option ν} {reply : Reply} {after : Table α}
    (served : Served reading effect values reply after) : Undisturbed effect reply values where
  settle_eq := by
    intro handle bound other
    unfold Reply.settle
    split
    · exact Effect.apply_of_ne other fun given => bound (served.fresh handle given)
    · rfl
  settle_ne_none := fun handle bound kept => served.live handle kept bound
  handed_out := fun handle given => ⟨served.fresh handle given, served.bound handle given⟩
  taken_in := by
    rintro content rfl success
    obtain ⟨handle, out_eq⟩ := served.given rfl success
    have given : reply.handle? = some handle := by
      rw [Reply.handle?, out_eq]
    have settled : reply.settle (.bind content) values =
        Function.update values handle (content values) := by
      rw [Reply.settle, if_pos success, given]
      rfl
    have bound := served.bound handle given
    rw [settled, Function.update_self] at bound
    obtain ⟨seen, content_eq⟩ := Option.ne_none_iff_exists'.mp bound
    exact ⟨handle, seen, out_eq, content_eq, content_eq ▸ settled⟩

namespace Guarded.Holds

open Operation

variable {α ν : Type} {guarded : Guarded α} {reading : Reading α ν} {values : Handle → Option ν}
  {handle : Handle} {seen : ν} {reply : Reply}

theorem reply_perform (holds : guarded.Holds reading values) {body : Step (Table α) Ending}
    (ends : (body.run guarded.table).value = .ok reply) :
    ((work body true).perform guarded none).reply = reply := by
  cases ran : body.run guarded.table with
  | mk value after written =>
      rw [ran] at ends
      obtain rfl : value = .ok reply := ends
      rw [Guarded.eq_of_unpoisoned holds.poisoned_eq, perform_work ran]
      rfl

/-- A question about a handle in use gets the reply that every value seen so gets. -/
theorem reply_withValue (holds : guarded.Holds reading values) (bound : values handle = some seen)
    {next : α → Step (Table α) Ending}
    (ends : ∀ value, reading.Fits value → reading.view value = seen → next value = finish reply) :
    ((work (withValue handle next) true).perform guarded none).reply = reply := by
  obtain ⟨value, found, fits, view_eq⟩ := holds.represents.exists_of_eq_some bound
  apply holds.reply_perform
  rw [run_withValue_of_some found, ends value fits view_eq]
  rfl

/-- A change behind a handle in use gets the reply that changing every value seen so gets. -/
theorem reply_amend (holds : guarded.Holds reading values) (bound : values handle = some seen)
    {change : Step α Ending}
    (ends : ∀ value, reading.Fits value → reading.view value = seen →
      (change.run value).value = .ok reply) :
    ((work (amend handle change) true).perform guarded none).reply = reply := by
  obtain ⟨value, found, fits, view_eq⟩ := holds.represents.exists_of_eq_some bound
  apply holds.reply_perform
  rw [run_amend_of_some found]
  exact ends value fits view_eq

end Guarded.Holds

/-! ## Bit sets -/

namespace BitSetCall

open Operation

theorem length_lt {bits : BitSet} (fits : bits.Fits) : bits.toFlags.length < 2 ^ 64 := by
  rw [BitSet.length_toFlags]
  exact Nat.lt_of_le_of_lt fits.wellFormed.length_le fits.limit_lt

theorem toInt_positionOf {flags : Flags} (below : flags.Below (2 ^ 63)) (start : Nat) :
    (positionOf (flags.nextOne? start)).toInt =
      ((flags.nextOne? start).map Int.ofNat).getD (-1) := by
  have lowest := flags.isLowest_nextOne? start
  cases found : flags.nextOne? start with
  | none => decide
  | some position =>
      rw [found] at lowest
      have one : flags.bit position = true := (Bool.and_eq_true_iff.mp lowest.1).2
      have small := below position one
      exact Int64.toInt_ofNat_of_lt small

/-- Changing a set in place after a record ends as changing it at once. -/
theorem value_record (record : Option Record) (change : Step BitSet Ending) (bits : BitSet) :
    ((do Step.write? record; change : Step BitSet Ending).run bits).value =
      (change.run bits).value := by
  cases record with
  | none => rfl
  | some record => rfl

theorem value_flipRange {bits : BitSet} (fits : bits.Fits) {start stop : Int64}
    (natural : 0 ≤ start.toInt) (ordered : start.toInt ≤ stop.toInt) :
    ((flipRange start stop).run bits).value =
      .ok (if bits.limit.maxLength < stop.toInt.toNat then .failed .lengthLimitExceeded
        else .done) := by
  have natural' : 0 ≤ stop.toInt := Int.le_trans natural ordered
  have ordered' : start.toInt.toNat ≤ stop.toInt.toNat := Int.toNat_le_toNat ordered
  rw [flipRange, withNatural_eq, if_neg (Int.not_lt.mpr natural), withNatural_eq,
    if_neg (Int.not_lt.mpr natural')]
  refine (value_record (bits.flipRecord _ _) _ bits).trans ?_
  split
  · next above =>
      have refused := BitSet.flip_of_limit_lt fits.wellFormed ordered' above
      exact congrArg Trace.value (run_applyUpdate_of_error refused fun _ => nofun)
  · next within =>
      obtain ⟨after, done, -⟩ :=
        BitSet.flip_of_le fits.wellFormed ordered' (Nat.not_lt.mp within)
      exact congrArg Trace.value (run_applyUpdate_of_ok done)

theorem answers {guarded : Guarded BitSet} {values : Handle → Option Snapshot}
    (holds : guarded.Holds BitSet.reading values) :
    Answers (fun call => (call.operation.perform guarded none).reply) values := by
  constructor
  case size_eq =>
    intro handle snapshot bound
    refine ⟨.ofNat snapshot.flags.length, holds.reply_withValue bound ?_, ?_⟩
    · rintro bits - rfl
      exact congrArg (finish <| .give <| .count <| .ofNat ·) (BitSet.length_toFlags bits).symm
    · obtain ⟨bits, -, fits, rfl⟩ := holds.represents.exists_of_eq_some bound
      exact UInt64.toNat_ofNat_of_lt (length_lt fits)
  case cardinality_eq =>
    intro handle snapshot bound
    refine ⟨.ofNat snapshot.flags.cardinality, holds.reply_withValue bound ?_, ?_⟩
    · rintro bits fits rfl
      have counted := fits.wellFormed.cardinality_toFlags
      exact congrArg (finish <| .give <| .count <| .ofNat ·) counted.symm
    · obtain ⟨bits, -, fits, rfl⟩ := holds.represents.exists_of_eq_some bound
      exact UInt64.toNat_ofNat_of_lt (Nat.lt_of_le_of_lt List.count_le_length (length_lt fits))
  case get_eq =>
    intro handle snapshot position bound
    apply holds.reply_withValue bound
    rintro bits fits rfl
    exact get_eq_finish fits position
  case next_eq =>
    intro handle snapshot start bound natural
    refine ⟨positionOf (snapshot.flags.nextOne? start.toInt.toNat),
      holds.reply_withValue bound ?_, ?_⟩
    · rintro bits fits rfl
      refine (next_eq_finish fits start).trans (congrArg finish ?_)
      rw [replyNext, toNat?_eq, if_neg (Int.not_lt.mpr natural)]
      rfl
    · obtain ⟨bits, -, fits, rfl⟩ := holds.represents.exists_of_eq_some bound
      exact toInt_positionOf fits.below _
  case next_of_neg =>
    intro handle snapshot start bound negative
    apply holds.reply_withValue bound
    rintro bits fits rfl
    refine (next_eq_finish fits start).trans (congrArg finish ?_)
    rw [replyNext, toNat?_eq, if_pos negative]
  case flip_eq =>
    intro handle snapshot start stop bound natural ordered
    apply holds.reply_amend bound
    rintro bits fits rfl
    exact value_flipRange fits natural ordered
  case undisturbed =>
    intro call
    obtain ⟨reply, after, records, performed, -, served⟩ := call.serves.perform_eq holds
    rw [performed]
    exact served.undisturbed

end BitSetCall

/-! ## Buffers -/

namespace BufferCall

open Operation

theorem answers {α : Type} {guarded : Guarded (BurstBuffer α)} {values : Handle → Option (List α)}
    (output : List α → Output)
    (plain : ∀ status elements, (Reply.mk status (some (output elements))).handle? = none)
    (holds : guarded.Holds BurstBuffer.reading values) :
    Answers (fun call => ((call.operation output).perform guarded none).reply) output values := by
  constructor
  case size_eq =>
    intro handle elements bound
    apply holds.reply_withValue bound
    rintro buffer fits rfl
    exact congrArg (finish <| .give <| .count <| .ofNat ·) fits
  case layOut_eq =>
    intro handle elements destination room bound listed
    simp only [operation, listed]
    apply holds.reply_withValue bound
    rintro buffer fits rfl
    exact layOut_eq_finish fits output room
  case undisturbed =>
    intro call
    obtain ⟨reply, after, records, performed, -, served⟩ :=
      (call.serves output plain).perform_eq holds
    rw [performed]
    exact served.undisturbed

end BufferCall

/-! ## Sessions -/

namespace Session

theorem Holds.answers {session : Session} {store : Store} (holds : session.Holds store) :
    session.Answers store where
  bitSets := by
    simp only [Session.reply, Session.call, note, holds.trap_eq]
    exact BitSetCall.answers holds.bitSets
  ints := by
    simp only [Session.reply, Session.call, note, holds.trap_eq]
    exact BufferCall.answers .ints (fun _ _ => rfl) holds.ints
  floats := by
    simp only [Session.reply, Session.call, note, holds.trap_eq]
    exact BufferCall.answers .floats (fun _ _ => rfl) holds.floats

/-- After every list of calls to a fresh session whose logger never panics, the session answers as
the store says that the calls and their replies alone tell. -/
theorem answers_replay_history (calls : List Call) :
    (start.run (calls.map .call)).Answers (Store.empty.replay (start.history calls)) :=
  (holds_start.run calls).answers

end Session

end PackedStore
