import PackedStore.Proofs.Session.BitSetService
import PackedStore.Proofs.Session.BufferService
import PackedStore.Session.Basic

/-!
# A session as a store

A session is a store that gives flags and elements to handles, however it packs, recycles and copies
them. The store is read off the calls and their replies alone: only a call that ends well changes
it, and only behind the handle that the call names as its target or hands out.
-/

namespace PackedStore

/-- What is seen behind each handle of a session. -/
structure Store where
  /-- The flags and the limit of each bit set. -/
  bitSets : Handle → Option Snapshot
  /-- The elements of each integer buffer. -/
  ints : Handle → Option (List Int32)
  /-- The elements of each single-precision buffer. -/
  floats : Handle → Option (List UInt32)

/-- A table is within reach of a caller, and `values` tells what is seen of it. -/
structure Guarded.Holds {α ν : Type} (guarded : Guarded α) (reading : Reading α ν)
    (values : Handle → Option ν) : Prop where
  /-- No call was cut short. -/
  poisoned_eq : guarded.poisoned = false
  /-- What is seen behind each handle. -/
  represents : guarded.table.Represents reading values

theorem Operation.Serves.perform_eq {α ν : Type} {operation : Operation α} {reading : Reading α ν}
    {effect : Effect ν} (serves : operation.Serves reading effect) {guarded : Guarded α}
    {values : Handle → Option ν} (holds : guarded.Holds reading values) :
    ∃ reply after records,
      operation.perform guarded none = ⟨after, reply, records, none, none⟩ ∧
        after.Holds reading (reply.settle effect values) ∧
        Served reading effect values reply after.table := by
  obtain ⟨reply, after, records, performed, served⟩ := serves _ _ holds.represents
  refine ⟨reply, ⟨after, false⟩, records, ?_, ⟨rfl, served.represents⟩, served⟩
  rw [Guarded.eq_of_unpoisoned holds.poisoned_eq]
  exact performed

namespace Store

/-- Nothing is seen behind any handle. -/
def empty : Store :=
  ⟨fun _ => none, fun _ => none, fun _ => none⟩

/-- The store after a call, as its reply tells. -/
def note (store : Store) (call : Call) (reply : Reply) : Store :=
  match call with
  | .bitSet call => { store with bitSets := reply.settle call.effect store.bitSets }
  | .intBuffer call => { store with ints := reply.settle call.effect store.ints }
  | .floatBuffer call => { store with floats := reply.settle call.effect store.floats }

/-- The store after a history of calls and replies. -/
def replay (store : Store) (history : List (Call × Reply)) : Store :=
  history.foldl (fun current entry => current.note entry.1 entry.2) store

end Store

namespace Session

/-- What the caller of a call sees. -/
def reply (session : Session) (call : Call) : Reply :=
  (session.call call).2.reply

/-- A list of calls, each with its reply. -/
def history (session : Session) : List Call → List (Call × Reply)
  | [] => []
  | call :: calls => (call, session.reply call) :: (session.call call).1.history calls

/-- The store tells what is seen of the tables, all of which are within reach of a caller, and the
logger takes every record. -/
structure Holds (session : Session) (store : Store) : Prop where
  /-- What is seen of the bit sets. -/
  bitSets : session.bitSets.Holds BitSet.reading store.bitSets
  /-- What is seen of the integer buffers. -/
  ints : session.intBuffers.Holds BurstBuffer.reading store.ints
  /-- What is seen of the single-precision buffers. -/
  floats : session.floatBuffers.Holds BurstBuffer.reading store.floats
  /-- No panic is set. -/
  trap_eq : session.trap = none

theorem holds_start : start.Holds .empty where
  bitSets := ⟨rfl, .empty _ _ _⟩
  ints := ⟨rfl, .empty _ _ _⟩
  floats := ⟨rfl, .empty _ _ _⟩
  trap_eq := rfl

/-! ## One call -/

variable {session : Session} {store : Store}

theorem serves_ints (call : BufferCall Int32) :
    (call.operation .ints).Serves BurstBuffer.reading call.effect :=
  call.serves .ints fun _ _ => rfl

theorem serves_floats (call : BufferCall UInt32) :
    (call.operation .floats).Serves BurstBuffer.reading call.effect :=
  call.serves .floats fun _ _ => rfl

/-- A call keeps the store true to the session. -/
theorem Holds.call (holds : session.Holds store) (call : Call) :
    (session.call call).1.Holds (store.note call (session.reply call)) := by
  cases call with
  | bitSet call =>
      obtain ⟨reply, after, records, performed, kept, -⟩ := call.serves.perform_eq holds.bitSets
      simp only [Session.reply, Session.call, holds.trap_eq, performed, note, Store.note]
      exact ⟨kept, holds.ints, holds.floats, rfl⟩
  | intBuffer call =>
      obtain ⟨reply, after, records, performed, kept, -⟩ :=
        (serves_ints call).perform_eq holds.ints
      simp only [Session.reply, Session.call, holds.trap_eq, performed, note, Store.note]
      exact ⟨holds.bitSets, kept, holds.floats, rfl⟩
  | floatBuffer call =>
      obtain ⟨reply, after, records, performed, kept, -⟩ :=
        (serves_floats call).perform_eq holds.floats
      simp only [Session.reply, Session.call, holds.trap_eq, performed, note, Store.note]
      exact ⟨holds.bitSets, holds.ints, kept, rfl⟩

/-- Calls keep the store true to the session. -/
theorem Holds.run (holds : session.Holds store) (calls : List Call) :
    (session.run (calls.map .call)).Holds (store.replay (session.history calls)) := by
  induction calls generalizing session store with
  | nil => exact holds
  | cons call calls induction => exact induction (holds.call call)

end Session

end PackedStore
