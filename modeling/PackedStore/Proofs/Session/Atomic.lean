import PackedStore.Proofs.Session.BufferVerdict

/-!
# Failures leave no trace

A call that fails without being cut short leaves all tables and the text of the latest panic as they
were, whatever the logger is set to, and so does a call that only asks.
-/

namespace PackedStore

namespace Call

/-- The status of a call on the table of its kind: that of the first thing to stand in its way. -/
def verdict : (call : Call) → Guarded call.kind.Value → Status
  | bitSet call, guarded => call.verdict guarded
  | intBuffer call, guarded => call.verdict guarded
  | floatBuffer call, guarded => call.verdict guarded

/-- Whether the call only asks. -/
def asks : Call → Bool
  | bitSet call => call.asks
  | intBuffer call => call.asks
  | floatBuffer call => call.asks

/-- What the caller's destination of a layout holds before the call. -/
def destination? : Call → Option Output
  | bitSet _ => none
  | intBuffer call => call.destination? .ints
  | floatBuffer call => call.destination? .floats

/-- Every call ends in the status of the first thing to stand in its way. -/
theorem orderly (call : Call) {guarded : Guarded call.kind.Value}
    (sound : guarded.Sound call.kind.reading) :
    (call.operation.perform guarded none).Orderly (call.verdict guarded) call.asks
      call.destination? guarded := by
  cases call with
  | bitSet call => exact call.orderly sound
  | intBuffer call => exact call.orderly sound
  | floatBuffer call => exact call.orderly sound

theorem verdict_ne_panicked (call : Call) (guarded : Guarded call.kind.Value) :
    call.verdict guarded ≠ .panicked := by
  cases call with
  | bitSet call => exact call.verdict_ne_panicked guarded
  | intBuffer call => exact call.verdict_ne_panicked guarded
  | floatBuffer call => exact call.verdict_ne_panicked guarded

end Call

namespace Session

/-- The logger panics at the very next record. -/
def Armed (session : Session) : Prop :=
  ∃ payload, session.trap = some ⟨0, payload⟩

variable {session : Session}

theorem outcome_disarm (session : Session) (call : Call) :
    session.disarm.outcome call =
      call.operation.perform (session.guarded call.kind) none := by
  rw [outcome, guarded_disarm]
  rfl

/-- A call ends as with a logger that is not set to panic, unless it is cut short at its only
record. -/
theorem outcome_cases (sound : session.Sound) (call : Call) :
    (¬(session.Armed ∧ (session.disarm.outcome call).records ≠ []) ∧
        ∃ trap, session.outcome call = { session.disarm.outcome call with trap := trap }) ∨
      (session.Armed ∧ (session.disarm.outcome call).records ≠ []) ∧
        (session.guarded call.kind).poisoned = false ∧
        ∃ store records message,
          session.outcome call = Operation.cutShort store records none message := by
  have orderly := call.orderly (sound call.kind)
  rw [outcome_disarm, outcome]
  cases set : session.trap with
  | none =>
      refine .inl ⟨?_, _, rfl⟩
      rintro ⟨⟨payload, armed⟩, -⟩
      exact nomatch set.symm.trans armed
  | some trap =>
      rcases Nat.lt_or_ge trap.spared
          (call.operation.perform (session.guarded call.kind) none).records.length with
        short | enough
      · obtain ⟨unpoisoned, store, records, cut⟩ := Operation.perform_of_lt orderly.panic_eq short
        obtain ⟨spared, payload⟩ := trap
        -- Since there is but one record, the logger has spared none.
        obtain rfl : spared = 0 := Nat.lt_one_iff.mp (Nat.lt_of_lt_of_le short orderly.brief)
        refine .inr ⟨⟨⟨payload, set⟩, ?_⟩, unpoisoned, store, records, _, cut⟩
        exact List.ne_nil_of_length_pos short
      · refine .inl ⟨?_, _, Operation.perform_of_le orderly.panic_eq enough⟩
        rintro ⟨⟨payload, armed⟩, writes⟩
        obtain rfl := Option.some_inj.mp (set.symm.trans armed)
        exact writes (List.eq_nil_of_length_eq_zero (Nat.le_zero.mp enough))

/-- The tables, with all they hold and whether a panic has poisoned them, are as before, and so is
the text of the latest panic. -/
structure Unchanged (before after : Session) : Prop where
  /-- The table of each kind. -/
  guarded_eq : ∀ kind, after.guarded kind = before.guarded kind
  /-- The text of the latest panic. -/
  panicText_eq : after.panicText = before.panicText

/-- A call that is not cut short and leaves its own table as it was changes nothing. -/
theorem unchanged_call {call : Call} (calm : (session.outcome call).panic = none)
    (kept : (session.outcome call).guarded = session.guarded call.kind) :
    session.Unchanged (session.call call).1 where
  guarded_eq := by
    intro kind
    rcases eq_or_ne kind call.kind with rfl | apart
    · rw [guarded_call_self, kept]
    · exact guarded_call_of_ne session apart
  panicText_eq := by
    rw [panicText_call, calm]
    rfl

/-- Whatever has happened to a session and whatever its logger is set to, a call that fails without
being cut short changes nothing and hands back nothing but its caller's own destination as it was;
and a call that only asks changes nothing when it succeeds. -/
theorem unchanged_of_failure_or_question (events : List Event) (call : Call) :
    let session := start.run events
    let reply := session.reply call
    let next := (session.call call).1
    (reply.status ≠ .ok → reply.status ≠ .panicked →
        session.Unchanged next ∧ (reply.out = none ∨ reply.out = call.destination?)) ∧
      (call.asks = true → reply.status = .ok → session.Unchanged next) := by
  intro session reply next
  have sound : session.Sound := sound_start.run events
  have orderly := call.orderly (sound call.kind)
  have reply_eq : reply = (session.outcome call).reply := session.reply_eq call
  rcases outcome_cases sound call with ⟨-, trap, completed⟩ | ⟨-, -, store, records, message, cut⟩
  · rw [outcome_disarm] at completed
    have status_eq : reply.status = call.verdict (session.guarded call.kind) := by
      rw [reply_eq, completed]
      exact orderly.status_eq
    have calm : (session.outcome call).panic = none := by
      rw [completed]
      exact orderly.panic_eq
    have kept : reply.status ≠ .ok ∨ call.asks = true →
        (session.outcome call).guarded = session.guarded call.kind := by
      rw [status_eq, completed]
      exact orderly.guarded_eq
    have untouched : reply.status ≠ .ok → reply.out = none ∨ reply.out = call.destination? := by
      rw [status_eq, reply_eq, completed]
      exact orderly.untouched
    exact ⟨fun failure _ => ⟨unchanged_call calm (kept (.inl failure)), untouched failure⟩,
      fun question _ => unchanged_call calm (kept (.inr question))⟩
  · have status_eq : reply.status = .panicked := by
      rw [reply_eq, cut]
      rfl
    exact ⟨fun _ whole => absurd status_eq whole,
      fun _ success => nomatch status_eq.symm.trans success⟩

/-- A layout into a destination of the wrong size, under a logger that would panic at any record. -/
theorem unchanged_of_mismatched_layOut :
    let session := start.run
      [.call (.intBuffer (.create true)),
        .call (.intBuffer (.append (.pack 2 0 1) ⟨some [1, 2], 2⟩)), .arm ⟨0, .other⟩]
    let call : Call := .intBuffer (.layOut (.pack 2 0 1) ⟨some [7, 7, 7], 3⟩)
    session.reply call = ⟨.capacityMismatch, some (.ints [7, 7, 7])⟩ ∧
      session.Unchanged (session.call call).1 := by
  intro session call
  have mismatch : session.reply call = ⟨.capacityMismatch, some (.ints [7, 7, 7])⟩ := by decide
  have failure : (session.reply call).status ≠ .ok := by
    rw [mismatch]
    exact nofun
  have whole : (session.reply call).status ≠ .panicked := by
    rw [mismatch]
    exact nofun
  exact ⟨mismatch, ((unchanged_of_failure_or_question _ call).1 failure whole).1⟩

end Session

end PackedStore
