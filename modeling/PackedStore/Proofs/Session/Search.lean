import PackedStore.Proofs.BitSet.Enumeration
import PackedStore.Proofs.Session.Observation
import PackedStore.Proofs.Session.Stored

/-!
# Searching behind a handle

A search hands back a signed word, and -1 if it finds nothing. A set may well have more bits than
signed words can number, but no call makes one of the bits beyond true: single positions and the
ends of ranges are signed words themselves, and every other true bit comes from another set. So the
word handed back is the position found.
-/

namespace PackedStore

namespace BitSet

variable {bits : BitSet}

/-- The word that a search from `first` on hands back tells exactly what there is to find. -/
structure Locates (bits : BitSet) (first found : Int64) : Prop where
  /-- It is -1 if no bit from there on reads true, and only then. -/
  eq_neg_one_iff : found = -1 ↔ ∀ index : Nat, first.toInt ≤ index → bits.get index ≠ .ok true
  /-- Otherwise it is the least position from there on that reads true. -/
  isLeast : found ≠ -1 → ∃ position : Nat, found.toInt = position ∧
    IsLeast {index : Nat | first.toInt ≤ index ∧ bits.get index = .ok true} position

theorem Fits.lt_of_get (fits : bits.Fits) {index : Nat} (one : bits.get index = .ok true) :
    index < 2 ^ 63 := by
  rw [fits.wellFormed.get_eq_ok_true_iff, ← fits.wellFormed.bit_toFlags] at one
  exact fits.below index one

/-- The found position as a signed word is that position, since all true bits are at positions that
signed words can name. -/
theorem Fits.locates (fits : bits.Fits) (first : Int64) :
    bits.Locates first (BitSetCall.positionOf (bits.toFlags.nextOne? first.toInt.toNat)) := by
  have lowest := bits.toFlags.isLowest_nextOne? first.toInt.toNat
  have word := BitSetCall.toInt_positionOf fits.below first.toInt.toNat
  have view : ∀ index : Nat,
      (decide (first.toInt.toNat ≤ index) && bits.toFlags.bit index) = true ↔
        first.toInt ≤ index ∧ bits.get index = .ok true := by
    intro index
    rw [Bool.and_eq_true, decide_eq_true_eq, Int.toNat_le, fits.wellFormed.bit_toFlags,
      fits.wellFormed.get_eq_ok_true_iff]
  cases found : bits.toFlags.nextOne? first.toInt.toNat with
  | none =>
      rw [found, isLowest_none_iff] at lowest
      have absent : ∀ index : Nat, first.toInt ≤ index → bits.get index ≠ .ok true := by
        intro index behind one
        have member : index ∈ {index : Nat |
            (decide (first.toInt.toNat ≤ index) && bits.toFlags.bit index) = true} :=
          (view index).mpr ⟨behind, one⟩
        rw [lowest] at member
        exact member
      exact ⟨iff_of_true rfl absent, fun other => absurd rfl other⟩
  | some position =>
      rw [found] at lowest word
      rw [isLowest_some_iff] at lowest
      simp only [view] at lowest
      have exact_word : (BitSetCall.positionOf (some position)).toInt = position := word
      have other : BitSetCall.positionOf (some position) ≠ -1 := by
        intro same
        have negative : (-1 : Int64).toInt = -1 := by decide
        rw [same] at exact_word
        omega
      refine ⟨iff_of_false other fun absent => ?_, fun _ => ⟨position, exact_word, lowest⟩⟩
      exact absent position lowest.1.1 lowest.1.2

end BitSet

namespace Session

variable {session : Session} {handle : Handle} {bits : BitSet}

/-- A search behind a live handle writes no record, so it is answered whatever the logger is set
to. -/
theorem reply_next (found : session.bitSets.table.find? handle = some bits) (fits : bits.Fits)
    (unpoisoned : session.bitSets.poisoned = false) (first : Int64) (placed : Bool) :
    session.reply (.bitSet (.next handle first placed)) =
      Operation.settle placed (BitSetCall.replyNext bits.toFlags first) := by
  have ran := Operation.run_withValue_of_some found fun bits : BitSet =>
    BitSetCall.withNatural first .invalidArgument fun start =>
      BitSetCall.answer (bits.nextOne? start) fun found =>
        .position (BitSetCall.positionOf found)
  rw [BitSetCall.next_eq_finish fits first] at ran
  have performed := Operation.perform_work_silent ran placed session.trap
  rw [← Guarded.eq_of_unpoisoned unpoisoned] at performed
  rw [reply_eq]
  exact congrArg Outcome.reply performed

theorem reply_next_of_poisoned (poisoned : session.bitSets.poisoned = true) (first : Int64)
    (placed : Bool) :
    session.reply (.bitSet (.next handle first placed)) =
      Operation.settle placed (.failed .internalError) := by
  rw [reply_eq]
  exact congrArg Outcome.reply (Operation.perform_of_poisoned poisoned placed session.trap)

/-- A search behind a live handle ends well exactly if there is a place for the answer, the table is
not poisoned and the search does not begin at a negative position. -/
theorem status_reply_next (found : session.bitSets.table.find? handle = some bits)
    (fits : bits.Fits) (first : Int64) (placed : Bool) :
    (session.reply (.bitSet (.next handle first placed))).status = .ok ↔
      placed = true ∧ session.bitSets.poisoned = false ∧ 0 ≤ first.toInt := by
  cases poisoned : session.bitSets.poisoned with
  | true =>
      rw [reply_next_of_poisoned poisoned]
      cases placed <;> exact iff_of_false nofun nofun
  | false =>
      rw [reply_next found fits poisoned]
      cases placed with
      | false => exact iff_of_false nofun nofun
      | true =>
          rw [Operation.settle, if_pos rfl, BitSetCall.status_replyNext]
          rcases Int.lt_or_le first.toInt 0 with negative | natural
          · rw [if_pos negative]
            exact iff_of_false nofun fun ready => by omega
          · rw [if_neg (Int.not_lt.mpr natural)]
            exact iff_of_true rfl ⟨rfl, rfl, natural⟩

theorem out_reply_next (found : session.bitSets.table.find? handle = some bits) (fits : bits.Fits)
    {first : Int64} {placed : Bool}
    (success : (session.reply (.bitSet (.next handle first placed))).status = .ok) :
    (session.reply (.bitSet (.next handle first placed))).out =
      some (.position (BitSetCall.positionOf (bits.toFlags.nextOne? first.toInt.toNat))) := by
  obtain ⟨rfl, unpoisoned, natural⟩ := (status_reply_next found fits first placed).mp success
  rw [reply_next found fits unpoisoned, Operation.settle, if_pos rfl, BitSetCall.replyNext,
    BitSetCall.toNat?_eq, if_neg (Int.not_lt.mpr natural)]
  rfl

/-- Whatever has happened to a session, every true bit of every set in its table is at a position
that a signed word can name, also if a panic has poisoned the table. A search behind a live handle
ends well exactly if there is a place for the answer, the table is not poisoned and the search does
not begin at a negative position; and then it hands back exactly what there is to find. -/
theorem next_locates (events : List Event) :
    let session := start.run events
    (∀ (index : Nat) (generation : UInt32) (bits : BitSet),
      session.bitSets.table.slots[index]? = some ⟨generation, some bits⟩ →
        ∀ position, bits.get position = .ok true → position < 2 ^ 63) ∧
      ∀ (handle : Handle) (bits : BitSet) (first : Int64) (placed : Bool),
        session.bitSets.table.find? handle = some bits →
          let reply := session.reply (.bitSet (.next handle first placed))
          (reply.status = .ok ↔
              placed = true ∧ session.bitSets.poisoned = false ∧ 0 ≤ first.toInt) ∧
            (reply.status = .ok →
              ∃ found, reply.out = some (.position found) ∧ bits.Locates first found) := by
  intro session
  have stores : session.bitSets.table.Stores BitSet.Fits :=
    stores_run (Table.stores_empty _ _ _) events
  refine ⟨fun index generation bits stored _ => (stores index generation bits stored).lt_of_get, ?_⟩
  intro handle bits first placed found reply
  have fits : bits.Fits := stores.of_find? found
  exact ⟨status_reply_next found fits first placed,
    fun success => ⟨_, out_reply_next found fits success, fits.locates first⟩⟩

/-- Beside a set of more than `2 ^ 63` bits, a search in a set of seventy. -/
theorem next_locates_of_two_sets :
    let session := start.run
      [.call (.bitSet (.create 0x8000000000000040 (some 0xffffffffffffffff) true)),
        .call (.bitSet (.create 70 none true)), .call (.bitSet (.set (.pack 1 1 1) 69))]
    let reply := session.reply (.bitSet (.next (.pack 1 1 1) 3 true))
    (session.bitSets.table.find? (.pack 1 0 1)).map (·.length) = some (2 ^ 63 + 64) ∧
      session.bitSets.table.find? (.pack 1 1 1) = some ⟨#[0, 32], 70, {}⟩ ∧
      reply.status = .ok ∧ reply.out = some (.position 69) := by
  intro session reply
  have live : session.bitSets.table.find? (.pack 1 1 1) = some ⟨#[0, 32], 70, {}⟩ := by rfl
  obtain ⟨succeeds, exact_position⟩ := (next_locates _).2 _ _ 3 true live
  have success : reply.status = .ok := succeeds.mpr ⟨rfl, rfl, by decide⟩
  obtain ⟨found, handed_out, locates⟩ := exact_position success
  have one : (⟨#[0, 32], 70, {}⟩ : BitSet).get 69 = .ok true := by decide
  have earlier : ∀ index < 69, (⟨#[0, 32], 70, {}⟩ : BitSet).get index ≠ .ok true := by decide
  have something : found ≠ -1 := fun same =>
    locates.eq_neg_one_iff.mp same 69 (by decide) one
  obtain ⟨position, word, least⟩ := locates.isLeast something
  obtain rfl : position = 69 := by
    refine Nat.le_antisymm (least.2 ⟨by decide, one⟩) (Nat.le_of_not_lt fun below => ?_)
    exact earlier position below least.1.2
  obtain rfl : found = 69 := Int64.toInt_inj.mp word
  exact ⟨rfl, live, success, handed_out⟩

end Session

end PackedStore
