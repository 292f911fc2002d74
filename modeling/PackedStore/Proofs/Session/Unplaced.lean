import PackedStore.Proofs.Session.Containment

/-!
# Queries without a place for the answer

A query on a bit set that has no place for its answer is refused, but only once its handle has been
looked up. A handle that names nothing is warned of all the same, and a logger that panics at the
warning poisons the table.
-/

namespace PackedStore

namespace Operation

variable {α : Type} {table : Table α} {handle : Handle}

theorem perform_unplaced_of_some {value : α} {reply : Reply} {next : α → Step (Table α) Ending}
    (found : table.find? handle = some value) (ends : next value = finish reply)
    (trap : Option Trap) :
    (work (withValue handle next) false).perform ⟨table, false⟩ trap =
      ⟨⟨table, false⟩, .failed .invalidArgument, [], trap, none⟩ := by
  have ran : (withValue handle next).run table = ⟨.ok reply, table, []⟩ := by
    rw [run_withValue_of_some found, ends]
    rfl
  exact perform_work_silent ran false trap

theorem perform_unplaced_of_none (missing : table.find? handle = none)
    (next : α → Step (Table α) Ending) {trap : Option Trap}
    (unarmed : ∀ payload, trap ≠ some ⟨0, payload⟩) :
    ∃ spent, (work (withValue handle next) false).perform ⟨table, false⟩ trap =
      ⟨⟨table, false⟩, .failed .invalidArgument, [table.refusal handle], spent, none⟩ := by
  have ran := run_withValue_of_none missing next
  match trap with
  | none => exact ⟨none, perform_work ran false⟩
  | some ⟨0, payload⟩ => exact absurd rfl (unarmed payload)
  | some ⟨spared + 1, payload⟩ =>
      exact ⟨some ⟨spared, payload⟩, perform_work_of_le ran false (Nat.le_add_left 1 spared)⟩

theorem perform_unplaced_of_armed (missing : table.find? handle = none)
    (next : α → Step (Table α) Ending) (payload : Payload) :
    (work (withValue handle next) false).perform ⟨table, false⟩ (some ⟨0, payload⟩) =
      cutShort table [] none payload.message := by
  simp [perform, run_withValue_of_none missing, deliver]

end Operation

namespace BitSetCall

open Operation

/-- Whether the call looks a handle up that names nothing. -/
def stumbles (guarded : Guarded BitSet) (call : BitSetCall) : Bool :=
  !guarded.poisoned && call.handles.any fun handle => (guarded.table.find? handle).isNone

variable {guarded : Guarded BitSet} {call : BitSetCall} {handle : Handle}

theorem stumbles_eq_true_iff (named : call.handles = [handle]) :
    call.stumbles guarded = true ↔
      guarded.poisoned = false ∧ guarded.table.find? handle = none := by
  rw [stumbles, named]
  simp

/-- A query without a place looks one handle up and answers from the set behind it. -/
theorem exists_operation_eq (asks : call.asks = true) (unplaced : call.lacksPointer = true) :
    ∃ (handle : Handle) (next : BitSet → Step (Table BitSet) Ending) (reply : BitSet → Reply),
      call.handles = [handle] ∧ call.operation = .work (withValue handle next) false ∧
        ∀ bits, bits.Fits → next bits = finish (reply bits) := by
  cases call with
  | size handle placed =>
      obtain rfl : placed = false := by simpa using unplaced
      exact ⟨handle, _, _, rfl, rfl, fun _ _ => rfl⟩
  | cardinality handle placed =>
      obtain rfl : placed = false := by simpa using unplaced
      exact ⟨handle, _, _, rfl, rfl, fun _ _ => rfl⟩
  | get handle position placed =>
      obtain rfl : placed = false := by simpa using unplaced
      exact ⟨handle, _, _, rfl, rfl, fun _ fits => get_eq_finish fits position⟩
  | next handle start placed =>
      obtain rfl : placed = false := by simpa using unplaced
      exact ⟨handle, _, _, rfl, rfl, fun _ fits => next_eq_finish fits start⟩
  | create | clone | destroy | set | clear | setInts | setLongs | flip | intersect | unite =>
      exact nomatch asks

end BitSetCall

namespace Session

/-- The call is refused for its arguments before anything else: no record is written, and all tables
and the text of the latest panic are as before. -/
structure RefusesFirst (session : Session) (call : Call) : Prop where
  /-- The answer. -/
  answer_eq : (session.call call).2 = ⟨.failed .invalidArgument, []⟩
  /-- Nothing changes. -/
  unchanged : session.Unchanged (session.call call).1

variable {session : Session} {call : BitSetCall}

theorem refusesFirst_of_call_eq {call : Call}
    (refused : session.call call = (session, ⟨.failed .invalidArgument, []⟩)) :
    session.RefusesFirst call := by
  refine ⟨by rw [refused], ?_⟩
  rw [refused]
  exact ⟨fun _ => rfl, rfl⟩

/-- On a poisoned table, or behind a live handle, there is nothing to warn of. -/
theorem Sound.refusesFirst (sound : session.Sound) (asks : call.asks = true)
    (unplaced : call.lacksPointer = true) (clear : call.stumbles session.bitSets = false) :
    session.RefusesFirst (.bitSet call) := by
  apply refusesFirst_of_call_eq
  cases poisoned : session.bitSets.poisoned with
  | true =>
      have barred : Call.barred (.bitSet call) = .invalidArgument := if_pos unplaced
      rw [← barred]
      exact call_of_poisoned poisoned
  | false =>
      obtain ⟨handle, next, reply, named, operation_eq, ends⟩ :=
        BitSetCall.exists_operation_eq asks unplaced
      have live : session.bitSets.table.find? handle ≠ none := by
        intro missing
        rw [(BitSetCall.stumbles_eq_true_iff named).mpr ⟨poisoned, missing⟩] at clear
        exact nomatch clear
      obtain ⟨bits, found⟩ := Option.ne_none_iff_exists'.mp live
      have fits : bits.Fits := Guarded.Sound.fits (sound .bitSets) poisoned found
      apply call_of_idle
      have performed := Operation.perform_unplaced_of_some found (ends bits fits) session.trap
      rw [← operation_eq, ← Guarded.eq_of_unpoisoned poisoned] at performed
      exact performed

section Stumbles

variable (asks : call.asks = true) (unplaced : call.lacksPointer = true)
  (stumbles : call.stumbles session.bitSets = true)

include asks unplaced stumbles

theorem exists_outcome_eq_of_stumbles :
    ∃ (handle : Handle) (next : BitSet → Step (Table BitSet) Ending),
      call.handles = [handle] ∧ session.bitSets.poisoned = false ∧
        session.bitSets.table.find? handle = none ∧
        session.outcome (.bitSet call) =
          (Operation.work (Operation.withValue handle next) false).perform
            ⟨session.bitSets.table, false⟩ session.trap := by
  obtain ⟨handle, next, reply, named, operation_eq, -⟩ :=
    BitSetCall.exists_operation_eq asks unplaced
  obtain ⟨unpoisoned, missing⟩ := (BitSetCall.stumbles_eq_true_iff named).mp stumbles
  refine ⟨handle, next, named, unpoisoned, missing, ?_⟩
  rw [← operation_eq, ← unpoisoned]
  rfl

theorem answer_of_stumbles (unarmed : ¬session.Armed) :
    (session.call (.bitSet call)).2 =
        ⟨.failed .invalidArgument, call.handles.map session.bitSets.table.refusal⟩ ∧
      session.Unchanged (session.call (.bitSet call)).1 := by
  obtain ⟨handle, next, named, unpoisoned, missing, outcome_eq⟩ :=
    exists_outcome_eq_of_stumbles asks unplaced stumbles
  have untrapped : ∀ payload, session.trap ≠ some ⟨0, payload⟩ := fun payload set =>
    unarmed ⟨payload, set⟩
  obtain ⟨spent, performed⟩ := Operation.perform_unplaced_of_none missing next untrapped
  rw [performed] at outcome_eq
  constructor
  · rw [answer_call, outcome_eq, named]
    rfl
  · apply unchanged_call
    · rw [outcome_eq]
    · rw [outcome_eq, ← unpoisoned]
      rfl

theorem answer_of_stumbles_of_armed {payload : Payload}
    (armed : session.trap = some ⟨0, payload⟩) :
    (session.call (.bitSet call)).2 = ⟨.failed .panicked, [.caught payload.message]⟩ ∧
      (session.call (.bitSet call)).1.bitSets = ⟨session.bitSets.table, true⟩ ∧
      session.Contained (.bitSet call) := by
  obtain ⟨handle, next, named, unpoisoned, missing, outcome_eq⟩ :=
    exists_outcome_eq_of_stumbles asks unplaced stumbles
  rw [armed, Operation.perform_unplaced_of_armed missing next payload] at outcome_eq
  refine ⟨?_, ?_, contained_of_cutShort unpoisoned outcome_eq⟩
  · rw [answer_call, outcome_eq]
    rfl
  · exact (session.guarded_call_self (.bitSet call)).trans (congrArg Outcome.guarded outcome_eq)

end Stumbles

/-- Whatever has happened to a session and whatever its logger is set to, a query without a place
for its answer is refused before anything else exactly if it does not look a handle up that names
nothing. If it does, it is refused after a warning about the handle, or cut short by a logger that
panics there. -/
theorem refusesFirst_iff_and_stumbles (events : List Event) {call : BitSetCall}
    (asks : call.asks = true) (unplaced : call.lacksPointer = true) :
    let session := start.run events
    let answer := (session.call (.bitSet call)).2
    let next := (session.call (.bitSet call)).1
    (session.RefusesFirst (.bitSet call) ↔ call.stumbles session.bitSets = false) ∧
      (call.stumbles session.bitSets = true →
        (¬session.Armed →
            answer = ⟨.failed .invalidArgument,
                call.handles.map session.bitSets.table.refusal⟩ ∧
              session.Unchanged next) ∧
          ∀ payload, session.trap = some ⟨0, payload⟩ →
            answer = ⟨.failed .panicked, [.caught payload.message]⟩ ∧
              next.bitSets = ⟨session.bitSets.table, true⟩ ∧
              session.Contained (.bitSet call)) := by
  intro session answer next
  have sound : session.Sound := sound_start.run events
  refine ⟨⟨fun refuses => ?_, sound.refusesFirst asks unplaced⟩, fun stumbles =>
    ⟨answer_of_stumbles asks unplaced stumbles,
      fun _ => answer_of_stumbles_of_armed asks unplaced stumbles⟩⟩
  rw [Bool.eq_false_iff]
  intro stumbles
  by_cases armed : session.Armed
  · obtain ⟨payload, set⟩ := armed
    have cut := (answer_of_stumbles_of_armed asks unplaced stumbles set).1
    exact nomatch refuses.answer_eq.symm.trans cut
  · have warned := (answer_of_stumbles asks unplaced stumbles armed).1
    have silent := congrArg Answer.records (refuses.answer_eq.symm.trans warned)
    have handleless : call.handles = [] := List.map_eq_nil_iff.mp silent.symm
    rw [BitSetCall.stumbles, handleless, List.any_nil, Bool.and_false] at stumbles
    exact nomatch stumbles

/-- A bit of a live set, asked for beyond its end while the logger would panic at any record. -/
theorem refusesFirst_of_live_get :
    let session := start.run [.call (.bitSet (.create 8 none true)), .arm ⟨0, .other⟩]
    session.RefusesFirst (.bitSet (.get (.pack 1 0 1) 9 false)) := by
  intro session
  have clear : (BitSetCall.get (.pack 1 0 1) 9 false).stumbles session.bitSets = false := by decide
  exact (refusesFirst_iff_and_stumbles _ rfl rfl).1.mpr clear

/-- Asked for the size behind the handle of all zero bits, without a place for the answer, a fresh
session warns of the handle, and if its logger panics there the table is lost. -/
theorem not_refusesFirst_of_dead_size :
    let call : Call := .bitSet (.size .zero false)
    ¬start.RefusesFirst call ∧
      (start.call call).2 = ⟨.failed .invalidArgument, [.foreign "bitset" .zero]⟩ ∧
      (start.run [.arm ⟨0, .other⟩, .call call]).bitSets.poisoned = true := by
  intro call
  have warned : (start.call call).2 =
      ⟨.failed .invalidArgument, [.foreign "bitset" .zero]⟩ := by decide
  refine ⟨?_, warned, by decide⟩
  rintro ⟨silent, -⟩
  exact nomatch silent.symm.trans warned

end Session

end PackedStore
