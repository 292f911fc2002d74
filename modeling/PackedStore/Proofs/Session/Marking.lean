import PackedStore.Proofs.BitSet.Marking
import PackedStore.Proofs.Session.Unplaced

/-!
# Calls that mark all listed positions

The two calls that make listed bits true differ in the width of the listed integers only. Each works
on the entries up to the length it is given. An entry that is no position of the set, wherever it
stands, makes the call fail and nothing change.
-/

namespace PackedStore

theorem Span.elements_of_some {ι : Type} (array : List ι) (length : UInt64) :
    (Span.mk (some array) length).elements = .ok (array.take length.toNat) := by
  rw [elements]
  split
  · next none =>
      have none' : length.toNat = 0 := congrArg UInt64.toNat none
      rw [none', List.take_zero]
  · rfl

namespace BitSetCall

open Operation

/-! ## What the calls read of their arrays -/

section Arrays

variable (handle : Handle) (length : UInt64)

theorem setSpan_of_some {ι : Type} (array : List ι) (toInt : ι → Int) :
    setSpan handle ((Span.mk (some array) length).elements.map (·.map toInt)) =
      .work (amend handle (setAll ((array.take length.toNat).map toInt))) true := by
  rw [Span.elements_of_some]
  rfl

theorem operation_setInts (array : List Int32) :
    (setInts handle ⟨some array, length⟩).operation =
      .work (amend handle (setAll ((array.take length.toNat).map (·.toInt)))) true :=
  setSpan_of_some handle length array (·.toInt)

theorem operation_setLongs (array : List Int64) :
    (setLongs handle ⟨some array, length⟩).operation =
      .work (amend handle (setAll ((array.take length.toNat).map (·.toInt)))) true :=
  setSpan_of_some handle length array (·.toInt)

/-- The same integers in the wider type are the same positions. -/
theorem operation_setLongs_toInt64 (array : List Int32) :
    (setLongs handle ⟨some (array.map (·.toInt64)), length⟩).operation =
      (setInts handle ⟨some array, length⟩).operation := by
  have same : ((array.map (·.toInt64)).take length.toNat).map (·.toInt) =
      (array.take length.toNat).map (·.toInt) := by
    rw [← List.map_take, List.map_map]
    exact List.map_congr_left fun entry _ => entry.toInt_toInt64
  rw [operation_setInts, operation_setLongs, same]

end Arrays

end BitSetCall

namespace Session

/-- The call marks the positions `used` in `bits`, the set behind `handle`, unless one of them is
none of the set. -/
structure Marks (session : Session) (handle : Handle) (bits : BitSet) (call : Call)
    (used : List Int) : Prop where
  /-- A stray position, negative or too large, is the only reason to refuse the call for one. -/
  outOfRange_iff : (session.reply call).status = .outOfRange ↔
    ∃ position ∈ used, position < 0 ∨ bits.length ≤ position
  /-- A call refused for a stray position changes nothing and writes nothing. -/
  refused : (session.reply call).status = .outOfRange →
    session.call call = (session, ⟨.failed .outOfRange, []⟩)
  /-- A call that is not marks the positions in the set, and nothing else changes. -/
  accepted : (session.reply call).status ≠ .outOfRange →
    ∃ after table, (BitSet.setAll (used.map Int.toNat)).run bits = .ok () after ∧
      table = session.bitSets.table.fill handle.parts.slot after ∧
      table.find? = Function.update session.bitSets.table.find? handle (some after) ∧
      session.call call = ({ session with bitSets := ⟨table, false⟩ }, ⟨.done, []⟩)

section Calls

variable {session : Session} {handle : Handle} {bits : BitSet}

/-- A call that writes no record ends the same way, whatever the logger is set to. -/
theorem call_of_silent {call : BitSetCall} {body : Step (Table BitSet) Ending}
    {after : Table BitSet} {reply : Reply} (unpoisoned : session.bitSets.poisoned = false)
    (operation_eq : call.operation = .work body true)
    (ran : body.run session.bitSets.table = ⟨.ok reply, after, []⟩) :
    session.call (.bitSet call) = ({ session with bitSets := ⟨after, false⟩ }, ⟨reply, []⟩) :=
  call_of_perform unpoisoned operation_eq (Operation.perform_work_silent ran true session.trap)

theorem call_congr {call other : BitSetCall} (same : call.operation = other.operation) :
    session.call (.bitSet call) = session.call (.bitSet other) := by
  rw [Session.call, Session.call, same]

theorem Sound.marks (sound : session.Sound) (unpoisoned : session.bitSets.poisoned = false)
    (found : session.bitSets.table.find? handle = some bits) {call : BitSetCall} {used : List Int}
    (operation_eq : call.operation =
      .work (Operation.amend handle (BitSetCall.setAll used)) true) :
    session.Marks handle bits (.bitSet call) used := by
  have fits : bits.Fits := Guarded.Sound.fits (sound .bitSets) unpoisoned found
  have wellFormed : session.bitSets.table.WellFormed :=
    Guarded.Sound.wellFormed (sound .bitSets) unpoisoned
  have ran := Operation.run_amend_of_some found (BitSetCall.setAll used)
  rcases BitSetCall.run_setAll fits.wellFormed used with
    ⟨⟨position, member, lacking⟩, stopped⟩ | ⟨inside, after, done, marked⟩
  · have called : session.call (.bitSet call) = (session, ⟨.failed .outOfRange, []⟩) := by
      simp only [stopped, Table.fill_eq_self found, List.map_nil] at ran
      rw [call_of_silent unpoisoned operation_eq ran, ← unpoisoned]
    have status_eq : (session.reply (.bitSet call)).status = .outOfRange := by
      rw [reply, called]
      rfl
    refine ⟨iff_of_true status_eq ?_, fun _ => called, fun fine => absurd status_eq fine⟩
    exact ⟨position, member, BitSet.lacks_iff.mp lacking⟩
  · simp only [marked, List.map_nil] at ran
    have called := call_of_silent unpoisoned operation_eq ran
    have status_ne : (session.reply (.bitSet call)).status ≠ .outOfRange := by
      simp [reply, called, Reply.done]
    refine ⟨iff_of_false status_ne ?_, fun stray => absurd stray status_ne, fun _ => ?_⟩
    · rintro ⟨position, member, lacking⟩
      exact inside position member (BitSet.lacks_iff.mpr lacking)
    · exact ⟨after, _, done, rfl, Table.find?_fill wellFormed found after, called⟩

end Calls

/-- At the end of every history, marking listed positions works on all of them or on none, and only
which positions are listed matters. Whatever has happened to a session and whatever its logger is
set to, a call on a live set marks the entries of its array up to the length it is given, or is
refused for a stray one among them. It ends as it does with the entries in the wider type, and what
stands behind that length makes no difference. -/
theorem marksAllOrNone_and_marks :
    (∀ (history : BitSet.History) (positions : List Nat),
        history.bits.MarksAllOrNone positions) ∧
      ∀ (events : List Event) (handle : Handle) (bits : BitSet) (length : UInt64),
        let session := start.run events
        let setInts (array : List Int32) : Call := .bitSet (.setInts handle ⟨some array, length⟩)
        let setLongs (array : List Int64) : Call := .bitSet (.setLongs handle ⟨some array, length⟩)
        session.bitSets.poisoned = false → session.bitSets.table.find? handle = some bits →
          (∀ array,
            session.Marks handle bits (setInts array)
                ((array.take length.toNat).map (·.toInt)) ∧
              session.call (setInts array) = session.call (setLongs (array.map (·.toInt64))) ∧
              ∀ other, other.take length.toNat = array.take length.toNat →
                session.call (setInts other) = session.call (setInts array)) ∧
          ∀ array,
            session.Marks handle bits (setLongs array)
                ((array.take length.toNat).map (·.toInt)) ∧
              ∀ other, other.take length.toNat = array.take length.toNat →
                session.call (setLongs other) = session.call (setLongs array) := by
  constructor
  · intro history positions
    exact BitSet.marksAllOrNone history.wellFormed positions
  intro events handle bits length session setInts setLongs unpoisoned found
  have sound : session.Sound := sound_start.run events
  constructor
  · intro array
    refine ⟨sound.marks unpoisoned found (BitSetCall.operation_setInts handle length array),
      call_congr (BitSetCall.operation_setLongs_toInt64 handle length array).symm, ?_⟩
    intro other same
    apply call_congr
    rw [BitSetCall.operation_setInts, BitSetCall.operation_setInts, same]
  · intro array
    refine ⟨sound.marks unpoisoned found (BitSetCall.operation_setLongs handle length array), ?_⟩
    intro other same
    apply call_congr
    rw [BitSetCall.operation_setLongs, BitSetCall.operation_setLongs, same]

/-- An array with a negative entry and one that is too large behind three good ones, under a logger
that would panic at any record: its first three entries are marked, and its first four are not. -/
theorem marks_up_to_first_stray :
    let session := start.run [.call (.bitSet (.create 70 none true)), .arm ⟨0, .other⟩]
    let handle := Handle.pack 1 0 1
    let bits : BitSet := ⟨#[0, 0], 70, {}⟩
    let entries : List Int32 := [3, 69, 3, -1, 70]
    session.bitSets.poisoned = false ∧ session.bitSets.table.find? handle = some bits ∧
      (∃ after, (BitSet.setAll [3, 69, 3]).run bits = .ok () after ∧
        (session.call (.bitSet (.setInts handle ⟨some entries, 3⟩))).1.bitSets.table.find? handle =
          some after) ∧
      session.call (.bitSet (.setInts handle ⟨some entries, 4⟩)) =
        (session, ⟨.failed .outOfRange, []⟩) := by
  intro session handle bits entries
  have unpoisoned : session.bitSets.poisoned = false := rfl
  have found : session.bitSets.table.find? handle = some bits := by decide
  have marks := fun length =>
    ((marksAllOrNone_and_marks.2 _ handle bits length unpoisoned found).1 entries).1
  refine ⟨unpoisoned, found, ?_, ?_⟩
  · have good : ¬∃ position ∈ (entries.take 3).map Int32.toInt,
        position < 0 ∨ (bits.length : Int) ≤ position := by decide
    obtain ⟨after, table, done, -, find?_eq, called⟩ :=
      (marks 3).accepted (mt (marks 3).outOfRange_iff.mp good)
    refine ⟨after, done, ?_⟩
    rw [called, find?_eq, Function.update_self]
  · exact (marks 4).refused ((marks 4).outOfRange_iff.mpr ⟨-1, by decide, by decide⟩)

end Session

end PackedStore
