import PackedStore.Session.BitSetCall
import PackedStore.Session.BufferCall

/-!
# Sessions

A session owns three tables, one of bit sets, one of integer buffers and one of single-precision
buffers, each under a lock of its own. It takes calls one after another, and keeps the text of the
latest panic.
-/

namespace PackedStore

/-- A call on one of the three tables. -/
inductive Call where
  /-- A call on the bit sets. -/
  | bitSet (call : BitSetCall)
  /-- A call on the integer buffers. -/
  | intBuffer (call : BufferCall Int32)
  /-- A call on the single-precision buffers, whose elements are IEEE 754 bit patterns. -/
  | floatBuffer (call : BufferCall UInt32)
deriving DecidableEq, Repr

/-- Something that happens to a session. -/
inductive Event where
  /-- A call is made. -/
  | call (call : Call)
  /-- The host sets its logger to panic. -/
  | arm (trap : Trap)
deriving DecidableEq, Repr

/-- The reply to a call and the records the logger took during it. -/
structure Answer where
  /-- What the caller sees. -/
  reply : Reply
  /-- The records, oldest first. -/
  records : List Record
deriving DecidableEq, Repr

/-- The three tables, the latest panic and the state of the host's logger. -/
structure Session where
  /-- The bit sets. -/
  bitSets : Guarded BitSet := ⟨.empty "bitset" 1, false⟩
  /-- The integer buffers. -/
  intBuffers : Guarded (BurstBuffer Int32) := ⟨.empty "int buffer" 2, false⟩
  /-- The single-precision buffers. -/
  floatBuffers : Guarded (BurstBuffer UInt32) := ⟨.empty "float buffer" 3, false⟩
  /-- The text of the latest panic, empty before the first. -/
  panicText : String := ""
  /-- The panic that the logger is set to, if it is. -/
  trap : Option Trap := none
deriving DecidableEq, Repr

namespace Session

/-- A session before its first call. -/
def start : Session := {}

/-- Notes what a call left behind beside its table. -/
def note {α : Type} (session : Session) (outcome : Outcome α) : Session × Answer :=
  ({ session with
      panicText := outcome.panic.getD session.panicText
      trap := outcome.trap },
    ⟨outcome.reply, outcome.records⟩)

/-- Makes a call. -/
def call (session : Session) : Call → Session × Answer
  | .bitSet call =>
      let outcome := call.operation.perform session.bitSets session.trap
      { session with bitSets := outcome.guarded }.note outcome
  | .intBuffer call =>
      let outcome := (call.operation .ints).perform session.intBuffers session.trap
      { session with intBuffers := outcome.guarded }.note outcome
  | .floatBuffer call =>
      let outcome := (call.operation .floats).perform session.floatBuffers session.trap
      { session with floatBuffers := outcome.guarded }.note outcome

/-- Lets an event happen; only a call has an answer. -/
def handle (session : Session) : Event → Session × Option Answer
  | .call call =>
      let (next, answer) := session.call call
      (next, some answer)
  | .arm trap => ({ session with trap := some trap }, none)

/-- The session after a list of events. -/
def run (session : Session) (events : List Event) : Session :=
  events.foldl (fun current event => (current.handle event).1) session

@[simp] theorem run_nil (session : Session) : session.run [] = session := rfl

@[simp] theorem run_cons (session : Session) (event : Event) (events : List Event) :
    session.run (event :: events) = (session.handle event).1.run events := rfl

theorem run_append (session : Session) (earlier later : List Event) :
    session.run (earlier ++ later) = (session.run earlier).run later :=
  List.foldl_append

end Session

end PackedStore
