import PackedStore.Proofs.Machine.BitSet
import PackedStore.Proofs.Machine.Store
import PackedStore.Proofs.Session.Atomic
import PackedStore.Session.PanicText

/-!
# Sessions that nothing stops

If the logger never panics, nothing else does. Calls may name any handle, position, bound and
length, and yet no index they come to lies outside its store, and nothing they count, subtract or
shift leaves the range of the machine.
-/

namespace PackedStore

namespace Session

/-- Nothing that a call can do to the tables of a session and to the values in them stops the
machine. -/
structure Steady (session : Session) : Prop where
  /-- Tables of every kind. -/
  tables : ∀ kind, (session.guarded kind).table.Steady
  /-- Bit sets. -/
  bitSets : ∀ handle bits, session.bitSets.table.find? handle = some bits → bits.Steady
  /-- Two bit sets. -/
  combines : ∀ handle other bits beside, session.bitSets.table.find? handle = some bits →
    session.bitSets.table.find? other = some beside → bits.Combines beside
  /-- Buffers of integers. -/
  ints : ∀ handle buffer, session.intBuffers.table.find? handle = some buffer → buffer.Steady
  /-- Buffers of single-precision patterns. -/
  floats : ∀ handle buffer, session.floatBuffers.table.find? handle = some buffer → buffer.Steady

variable {session : Session} {store : Store}

theorem Holds.steady (holds : session.Holds store) : session.Steady where
  tables := by
    intro kind
    cases kind with
    | bitSets => exact holds.bitSets.represents.wellFormed.steady
    | ints => exact holds.ints.represents.wellFormed.steady
    | floats => exact holds.floats.represents.wellFormed.steady
  bitSets := by
    intro handle bits found
    have fits : bits.Fits := holds.bitSets.represents.fits handle bits found
    exact fits.wellFormed.steady fits.limit_lt
  combines := by
    intro handle other bits beside found foundBeside
    have fits : bits.Fits := holds.bitSets.represents.fits handle bits found
    have fitsBeside : beside.Fits := holds.bitSets.represents.fits other beside foundBeside
    exact fits.wellFormed.combines fitsBeside.wellFormed
  ints := by
    intro handle buffer found
    exact BurstBuffer.WellFormed.steady (holds.ints.represents.fits handle buffer found)
  floats := by
    intro handle buffer found
    exact BurstBuffer.WellFormed.steady (holds.floats.represents.fits handle buffer found)

/-- With a logger that is not set to panic, a call on a sound session ends without a panic. -/
theorem Sound.calm_call (sound : session.Sound) (unset : session.trap = none) (call : Call) :
    (session.reply call).status ≠ .panicked ∧
      (session.call call).1.panicText = session.panicText ∧ (session.call call).1.trap = none := by
  have orderly := call.orderly (sound call.kind)
  rw [reply_eq, panicText_call, trap_call, outcome, unset, orderly.status_eq, orderly.panic_eq]
  exact ⟨call.verdict_ne_panicked _, rfl, Operation.trap_perform_none _ _⟩

/-- Without a panic the text of the latest panic stays what it was. -/
theorem Sound.panicText_run (sound : session.Sound) (unset : session.trap = none)
    (calls : List Call) : (session.run (calls.map .call)).panicText = session.panicText := by
  induction calls generalizing session with
  | nil => rfl
  | cons call calls induction =>
      obtain ⟨-, same, still_unset⟩ := sound.calm_call unset call
      exact (induction (sound.call call) still_unset).trans same

/-- After every list of calls to a fresh session whose logger never panics, no call panics, there is
no panic to report, and nothing that a call can do stops the machine. -/
theorem status_ne_panicked_and_steady (calls : List Call) :
    let session := start.run (calls.map .call)
    (∀ call, (session.reply call).status ≠ .panicked) ∧
      (∀ capacity buffer, (session.readPanic capacity buffer).1 = 0) ∧ session.Steady := by
  intro session
  have sound : session.Sound := sound_start.run (calls.map .call)
  have holds : session.Holds (.replay .empty (start.history calls)) := holds_start.run calls
  have silent : session.panicText = "" := sound_start.panicText_run rfl calls
  refine ⟨fun call => (sound.calm_call holds.trap_eq call).1, ?_, holds.steady⟩
  intro capacity buffer
  simp [readPanic, silent, PanicText.reported, PanicText.bytes]

end Session

end PackedStore
