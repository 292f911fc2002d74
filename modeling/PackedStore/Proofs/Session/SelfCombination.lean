import PackedStore.Proofs.BitSet.Algebra
import PackedStore.Proofs.Session.Containment

/-!
# A set combined with itself

A call that combines a set with itself looks the set up and does nothing more. It ends as the general
way ends, which combines the set with a copy: combining a set with a copy of it leaves the set as it
was, and the copy can be given up again.
-/

namespace PackedStore

namespace BitSet

/-- The two ways to combine two sets. -/
inductive Combination where
  /-- The conjunction. -/
  | intersect
  /-- The disjunction. -/
  | unite
deriving DecidableEq, Repr

namespace Combination

/-- Combines a set with another in place. -/
def update : Combination → BitSet → Update Unit
  | intersect => BitSet.intersect
  | unite => BitSet.unite

/-- What a combination does to two bits. -/
def operation : Combination → Bool → Bool → Bool
  | intersect => (· && ·)
  | unite => (· || ·)

theorem bitwise (combination : Combination) : Bitwise combination.update combination.operation := by
  cases combination with
  | intersect => exact bitwise_intersect
  | unite => exact bitwise_unite

theorem operation_self (combination : Combination) (value : Bool) :
    combination.operation value value = value := by
  cases combination with
  | intersect => exact Bool.and_self value
  | unite => exact Bool.or_self value

/-- The call that combines the set behind `handle` with the one behind `other`. -/
def request (combination : Combination) (handle other : Handle) : BitSetCall :=
  match combination with
  | intersect => .intersect handle other
  | unite => .unite handle other

theorem operation_request (combination : Combination) (handle other : Handle) :
    (combination.request handle other).operation =
      .work (BitSetCall.combine combination.update handle other) true := by
  cases combination <;> rfl

/-- A set combined with a copy of it stays as it is. -/
theorem update_self (combination : Combination) {bits : BitSet} (wellFormed : bits.WellFormed) :
    combination.update bits bits = .ok () bits :=
  combination.bitwise.combine_self combination.operation_self wellFormed

end Combination

end BitSet

namespace Session

open BitSet (Combination)

/-- Copies the set behind `handle`, combines the set with the copy and gives the copy up. The status
is that of the first call that fails; no call is made for want of a copy. -/
def combineCopy (session : Session) (combination : Combination) (handle : Handle) :
    Session × Status :=
  let (copied, cloning) := session.call (.bitSet (.clone handle true))
  match cloning.reply.handle? with
  | none => (copied, cloning.reply.status)
  | some copy =>
      let (combined, combining) := copied.call (.bitSet (combination.request handle copy))
      let (cleared, destroying) := combined.call (.bitSet (.destroy copy))
      (cleared,
        if combining.reply.status = .ok then destroying.reply.status
        else combining.reply.status)

section Calls

variable {session : Session} {handle copy : Handle} {bits : BitSet}

theorem combineCopy_of_calls {copied combined cleared : Session} {combination : Combination}
    {cloneRecords combineRecords destroyRecords : List Record}
    (cloning : session.call (.bitSet (.clone handle true)) =
      (copied, ⟨.give (.handle copy), cloneRecords⟩))
    (combining : copied.call (.bitSet (combination.request handle copy)) =
      (combined, ⟨.done, combineRecords⟩))
    (destroying : combined.call (.bitSet (.destroy copy)) = (cleared, ⟨.done, destroyRecords⟩)) :
    session.combineCopy combination handle = (cleared, .ok) := by
  simp [combineCopy, cloning, Reply.handle?, Reply.give, combining, Reply.done, destroying]

/-- With a logger that is not set to panic, a call leaves what its work leaves. -/
theorem call_of_calm {call : BitSetCall} {body : Step (Table BitSet) Ending}
    {after : Table BitSet} {reply : Reply} {written : List (Entry (Table BitSet))}
    (calm : session.trap = none) (unpoisoned : session.bitSets.poisoned = false)
    (operation_eq : call.operation = .work body true)
    (ran : body.run session.bitSets.table = ⟨.ok reply, after, written⟩) :
    session.call (.bitSet call) =
      ({ session with bitSets := ⟨after, false⟩ }, ⟨reply, written.map (·.record)⟩) := by
  apply call_of_perform unpoisoned operation_eq
  rw [calm]
  exact Operation.perform_work ran true

variable (calm : session.trap = none) (unpoisoned : session.bitSets.poisoned = false)
include calm unpoisoned

/-- A combination that leaves the table as it was leaves the session as it was. -/
theorem call_request (combination : Combination) {other : Handle} {reply : Reply}
    {written : List (Entry (Table BitSet))}
    (ran : (BitSetCall.combine combination.update handle other).run session.bitSets.table =
      ⟨.ok reply, session.bitSets.table, written⟩) :
    session.call (.bitSet (combination.request handle other)) =
      (session, ⟨reply, written.map (·.record)⟩) := by
  rw [call_of_calm calm unpoisoned (combination.operation_request handle other) ran, ← unpoisoned]

theorem call_self_of_some (combination : Combination)
    (found : session.bitSets.table.find? handle = some bits) :
    session.call (.bitSet (combination.request handle handle)) = (session, ⟨.done, []⟩) := by
  have ran : (BitSetCall.combine combination.update handle handle).run session.bitSets.table =
      ⟨.ok .done, session.bitSets.table, []⟩ := by
    rw [BitSetCall.combine, if_pos rfl, Operation.run_withValue_of_some found]
    rfl
  exact call_request calm unpoisoned combination ran

theorem call_self_of_none (combination : Combination)
    (missing : session.bitSets.table.find? handle = none) :
    session.call (.bitSet (combination.request handle handle)) =
      (session, ⟨.failed .invalidHandle, [session.bitSets.table.refusal handle]⟩) := by
  have ran : (BitSetCall.combine combination.update handle handle).run session.bitSets.table =
      ⟨.ok (.failed .invalidHandle), session.bitSets.table,
        [⟨session.bitSets.table.refusal handle, session.bitSets.table⟩]⟩ := by
    rw [BitSetCall.combine, if_pos rfl, Operation.run_withValue_of_none missing]
  exact call_request calm unpoisoned combination ran

/-- Combining a set with another that has its value leaves the session as it was. -/
theorem call_copy (combination : Combination)
    (found : session.bitSets.table.find? handle = some bits)
    (beside : session.bitSets.table.find? copy = some bits) (distinct : handle ≠ copy)
    (wellFormed : bits.WellFormed) :
    session.call (.bitSet (combination.request handle copy)) = (session, ⟨.done, []⟩) := by
  have stays := BitSetCall.run_applyUpdate_of_ok (combination.update_self wellFormed)
  have ran := Operation.run_amendFrom_of_some found beside distinct fun source =>
    BitSetCall.applyUpdate (combination.update source)
  simp only [stays, Table.fill_eq_self found, List.map_nil] at ran
  have general : BitSetCall.combine combination.update handle copy =
      Operation.amendFrom handle copy fun source =>
        BitSetCall.applyUpdate (combination.update source) := if_neg distinct
  rw [← general] at ran
  exact call_request calm unpoisoned combination ran

theorem combineCopy_of_none (combination : Combination)
    (missing : session.bitSets.table.find? handle = none) :
    session.combineCopy combination handle = (session, .invalidHandle) := by
  have ran := Operation.run_withValue_of_none missing Operation.register
  have called : session.call (.bitSet (.clone handle true)) = _ :=
    call_of_calm calm unpoisoned rfl ran
  rw [combineCopy, called, ← unpoisoned]
  rfl

/-- A copy that is combined into its original and given up again leaves no trace in what the handles
name. -/
theorem combineCopy_of_some (sound : session.Sound) (combination : Combination)
    (found : session.bitSets.table.find? handle = some bits) (room : ¬session.bitSets.table.Full) :
    (session.combineCopy combination handle).2 = .ok ∧
      (session.combineCopy combination handle).1.bitSets.table.find? =
        session.bitSets.table.find? := by
  have fits : bits.Fits := Guarded.Sound.fits (sound .bitSets) unpoisoned found
  have ready : session.bitSets.table.WellFormed :=
    Guarded.Sound.wellFormed (sound .bitSets) unpoisoned
  obtain ⟨-, copy, after, registered, afterReady, fresh, find?_eq⟩ | ⟨full, -⟩ :=
    Operation.run_register ready bits
  case inr => exact absurd full room
  have distinct : handle ≠ copy := by
    rintro rfl
    exact nomatch found.symm.trans fresh
  have foundStill : after.find? handle = some bits := by
    rw [find?_eq, Function.update_of_ne distinct, found]
  have foundCopy : after.find? copy = some bits := by
    rw [find?_eq, Function.update_self]
  have ran := Operation.run_withValue_of_some found Operation.register
  rw [registered] at ran
  let copied : Session := { session with bitSets := ⟨after, false⟩ }
  have stillCalm : copied.trap = none := calm
  have ended := combineCopy_of_calls (call_of_calm calm unpoisoned rfl ran)
    (call_copy stillCalm rfl combination foundStill foundCopy distinct fits.wellFormed)
    (call_of_calm stillCalm rfl rfl (Operation.run_release_of_some foundCopy))
  rw [ended]
  refine ⟨rfl, ?_⟩
  -- The handle of the copy was not bound before, so unbinding it brings back what was bound.
  rw [Table.find?_vacate afterReady foundCopy, find?_eq, Function.update_idem, ← fresh,
    Function.update_eq_self]

end Calls

/-- At the end of every history a set combined with a copy of it stays as it is. Whatever has
happened to a session whose logger is not set to panic, a set combined with itself is only looked
up: the call succeeds if the handle is live and changes nothing. It ends as combining the set with a
copy ends, as long as there is a slot for the copy. -/
theorem combineCopy_eq_shortcut :
    (∀ (history : BitSet.History) (combination : Combination),
        (combination.update (BitSet.History.clone history).bits).run history.bits =
          .ok () history.bits) ∧
      ∀ (events : List Event) (combination : Combination) (handle : Handle),
        let session := start.run events
        let shortcut := session.call (.bitSet (combination.request handle handle))
        let general := session.combineCopy combination handle
        session.trap = none → session.bitSets.poisoned = false →
          shortcut.2.reply =
              (if (session.bitSets.table.find? handle).isSome then .done
                else .failed .invalidHandle) ∧
            shortcut.1 = session ∧
            (¬session.bitSets.table.Full →
              general.2 = shortcut.2.reply.status ∧
                general.1.bitSets.table.find? = shortcut.1.bitSets.table.find?) := by
  constructor
  · intro history combination
    exact combination.update_self history.wellFormed
  intro events combination handle session shortcut general calm unpoisoned
  have sound : session.Sound := sound_start.run events
  cases found : session.bitSets.table.find? handle with
  | some bits =>
      have called : shortcut = (session, ⟨.done, []⟩) :=
        call_self_of_some calm unpoisoned combination found
      rw [called]
      exact ⟨rfl, rfl, combineCopy_of_some calm unpoisoned sound combination found⟩
  | none =>
      have called : shortcut = (session, ⟨.failed .invalidHandle, _⟩) :=
        call_self_of_none calm unpoisoned combination found
      have copied : general = (session, .invalidHandle) :=
        combineCopy_of_none calm unpoisoned combination found
      rw [called, copied]
      exact ⟨rfl, rfl, fun _ => ⟨rfl, rfl⟩⟩

/-- A set of seventy bits that ends in ones, with an emptied slot to take the copy. -/
theorem combineCopy_of_flipped_set :
    let handle := Handle.pack 1 0 1
    let session := start.run
      [.call (.bitSet (.create 70 (some 90) true)), .call (.bitSet (.create 3 none true)),
        .call (.bitSet (.flip handle 60 70)), .call (.bitSet (.destroy (.pack 1 1 1)))]
    let general := session.combineCopy .intersect handle
    session.trap = none ∧ session.bitSets.poisoned = false ∧ ¬session.bitSets.table.Full ∧
      session.reply (.bitSet (.intersect handle handle)) = .done ∧ general.2 = .ok ∧
        general.1.bitSets.table.find? handle = session.bitSets.table.find? handle := by
  intro handle session general
  have calm : session.trap = none := by decide
  have unpoisoned : session.bitSets.poisoned = false := by decide
  have room : ¬session.bitSets.table.Full := by decide
  have live : (session.bitSets.table.find? handle).isSome := by decide
  obtain ⟨reply_eq, unchanged, agrees⟩ :=
    combineCopy_eq_shortcut.2 _ .intersect handle calm unpoisoned
  rw [if_pos live] at reply_eq
  obtain ⟨status_eq, find?_eq⟩ := agrees room
  refine ⟨calm, unpoisoned, room, reply_eq, ?_, ?_⟩
  · rw [status_eq, reply_eq]
    rfl
  · rw [find?_eq, unchanged]

end Session

end PackedStore
