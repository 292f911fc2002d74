import PackedStore.Proofs.Session.Store

/-!
# Kinds of values

A session keeps one table for each kind of values, and a call works on the table of its kind alone.
What holds of every call is stated once, whatever the kind.
-/

namespace PackedStore

/-- The kinds of values that a session keeps. -/
inductive Kind where
  /-- Bit sets. -/
  | bitSets
  /-- Buffers of integers. -/
  | ints
  /-- Buffers of single-precision patterns. -/
  | floats
deriving DecidableEq, Repr

namespace Kind

/-- The values of a kind. -/
abbrev Value : Kind → Type
  | bitSets => BitSet
  | ints => BurstBuffer Int32
  | floats => BurstBuffer UInt32

/-- What a caller sees of a value of a kind. -/
abbrev Seen : Kind → Type
  | bitSets => Snapshot
  | ints => List Int32
  | floats => List UInt32

/-- How the values of a kind are seen. -/
def reading : (kind : Kind) → Reading kind.Value kind.Seen
  | bitSets => BitSet.reading
  | ints => BurstBuffer.reading
  | floats => BurstBuffer.reading

end Kind

namespace Call

/-- The kind of the values that a call works on. -/
def kind : Call → Kind
  | bitSet _ => .bitSets
  | intBuffer _ => .ints
  | floatBuffer _ => .floats

/-- What a call does to the table of its kind. -/
def operation : (call : Call) → Operation call.kind.Value
  | bitSet call => call.operation
  | intBuffer call => call.operation .ints
  | floatBuffer call => call.operation .floats

/-- What a call does to what is seen of its kind. -/
def effect : (call : Call) → Effect call.kind.Seen
  | bitSet call => call.effect
  | intBuffer call => call.effect
  | floatBuffer call => call.effect

/-- Every call serves its caller. -/
theorem serves (call : Call) : call.operation.Serves call.kind.reading call.effect := by
  cases call with
  | bitSet call => exact call.serves
  | intBuffer call => exact Session.serves_ints call
  | floatBuffer call => exact Session.serves_floats call

end Call

namespace Session

/-- The guarded table of a kind. -/
def guarded (session : Session) : (kind : Kind) → Guarded kind.Value
  | .bitSets => session.bitSets
  | .ints => session.intBuffers
  | .floats => session.floatBuffers

/-- Everything that a call leaves behind. -/
def outcome (session : Session) (call : Call) : Outcome call.kind.Value :=
  call.operation.perform (session.guarded call.kind) session.trap

/-- What the logger is set to is no matter of any table. -/
@[simp] theorem guarded_withTrap (session : Session) (trap : Option Trap) (kind : Kind) :
    ({ session with trap := trap } : Session).guarded kind = session.guarded kind := by
  cases kind <;> rfl

theorem eq_of_guarded {left right : Session}
    (guarded_eq : ∀ kind, left.guarded kind = right.guarded kind)
    (panicText_eq : left.panicText = right.panicText) (trap_eq : left.trap = right.trap) :
    left = right := by
  have bitSets_eq : left.bitSets = right.bitSets := guarded_eq .bitSets
  have ints_eq : left.intBuffers = right.intBuffers := guarded_eq .ints
  have floats_eq : left.floatBuffers = right.floatBuffers := guarded_eq .floats
  cases left
  cases right
  simp only at *
  rw [bitSets_eq, ints_eq, floats_eq, panicText_eq, trap_eq]

/-- The session with a logger that is not set to panic. -/
def disarm (session : Session) : Session :=
  { session with trap := none }

@[simp] theorem guarded_disarm (session : Session) (kind : Kind) :
    session.disarm.guarded kind = session.guarded kind :=
  guarded_withTrap session none kind

/-! ## What a call leaves behind -/

variable (session : Session) (call : Call)

theorem guarded_call_self :
    (session.call call).1.guarded call.kind = (session.outcome call).guarded := by
  cases call <;> rfl

variable {call} in
theorem guarded_call_of_ne {kind : Kind} (apart : kind ≠ call.kind) :
    (session.call call).1.guarded kind = session.guarded kind := by
  cases call with
  | bitSet => cases kind <;> first | rfl | exact absurd rfl apart
  | intBuffer => cases kind <;> first | rfl | exact absurd rfl apart
  | floatBuffer => cases kind <;> first | rfl | exact absurd rfl apart

theorem panicText_call :
    (session.call call).1.panicText =
      (session.outcome call).panic.getD session.panicText := by
  cases call <;> rfl

theorem trap_call : (session.call call).1.trap = (session.outcome call).trap := by
  cases call <;> rfl

theorem answer_call :
    (session.call call).2 = ⟨(session.outcome call).reply, (session.outcome call).records⟩ := by
  cases call <;> rfl

theorem reply_eq : session.reply call = (session.outcome call).reply := by
  rw [reply, answer_call]

end Session

end PackedStore
