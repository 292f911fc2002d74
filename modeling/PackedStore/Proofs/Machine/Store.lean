import PackedStore.Proofs.Layout
import PackedStore.Proofs.Machine.Arithmetic
import PackedStore.Proofs.Table.Request

/-!
# Tables and buffers on the machine

Taking a value into a table, finding two values of a table at once, appending to a buffer and laying
a buffer out, each written out with every index, slice and sum of the machine. None of them stops
the machine on a well-formed table or a well-formed buffer, as long as the elements of the buffer
can be counted.
-/

namespace PackedStore

variable {α : Type}

/-! ## Tables -/

namespace Table

/-- The handle of a slot, if the index of the slot fits in its field. -/
def packChecked (tag : UInt8) (index : Nat) (generation : UInt32) : Option Handle :=
  if index < 2 ^ 24 then some (.pack tag index generation) else none

/-- Takes a value in, on the machine. -/
def insertChecked (value : α) (table : Table α) :
    Option (Trace (Table α) (Except Error Handle)) :=
  match table.free with
  | index :: free => do
      let slot ← table.slots[index]?
      let handle ← packChecked table.tag index slot.generation
      let after := { table.fill index value with free }
      return ⟨.ok handle, after, [⟨.created table.kind handle, after⟩]⟩
  | [] =>
      if maxSlots ≤ table.slots.size then
        return ⟨.error .full, table, [⟨.full table.kind maxSlots, table⟩]⟩
      else do
        let handle ← packChecked table.tag table.slots.size 1
        let after := { table with slots := table.slots.push ⟨1, some value⟩ }
        return ⟨.ok handle, after, [⟨.created table.kind handle, after⟩]⟩

/-- The slots at two different places, each taken from its side of a cut at the greater one. -/
def slotPairChecked (slots : Array (Slot α)) (target source : Nat) : Option (Slot α × Slot α) :=
  if target < source then do
    let low ← Machine.slice slots 0 source
    let high ← Machine.slice slots source slots.size
    return (← low[target]?, ← high[0]?)
  else do
    let low ← Machine.slice slots 0 target
    let high ← Machine.slice slots target slots.size
    return (← high[0]?, ← low[source]?)

/-- The values that two handles name, found on the machine. -/
def pairChecked (target source : Handle) (table : Table α) :
    Option (Trace (Table α) (Option (α × α))) :=
  if target.parts.tag ≠ table.tag then
    some ⟨none, table, [⟨table.refusal target, table⟩]⟩
  else if source.parts.tag ≠ table.tag then
    some ⟨none, table, [⟨table.refusal source, table⟩]⟩
  else if target.parts.slot = source.parts.slot then
    some ⟨none, table, []⟩
  else if table.slots.size ≤ target.parts.slot ∨ table.slots.size ≤ source.parts.slot then
    let refused := if target.parts.slot < table.slots.size then source else target
    some ⟨none, table, [⟨table.refusal refused, table⟩]⟩
  else do
    let (targetSlot, sourceSlot) ←
      slotPairChecked table.slots target.parts.slot source.parts.slot
    match targetSlot.live? target.parts.generation, sourceSlot.live? source.parts.generation with
    | some targetValue, some sourceValue => return ⟨some (targetValue, sourceValue), table, []⟩
    | _, _ => return ⟨none, table, [⟨.stalePair table.kind target source, table⟩]⟩

theorem insertChecked_eq {table : Table α} (wellFormed : table.WellFormed) (value : α) :
    table.insertChecked value = some ((insert value).run table) := by
  rw [insertChecked]
  cases top : table.free with
  | cons index free =>
      obtain ⟨generation, -, present⟩ := wellFormed.present_of_free top
      have small : index < 2 ^ 24 := wellFormed.index_lt present
      rw [run_insert_of_free top present]
      simp only [present, packChecked, if_pos small]
      rfl
  | nil =>
      rcases Nat.lt_or_ge table.slots.size maxSlots with room | full
      · rw [run_insert_of_room top room]
        have small : table.slots.size < 2 ^ 24 := room
        simp only [if_neg (Nat.not_le.mpr room), packChecked, if_pos small, ← top]
        rfl
      · rw [run_insert_of_full top full]
        exact if_pos full

theorem slotPairChecked_eq {slots : Array (Slot α)} {target source : Nat}
    (targetInside : target < slots.size) (sourceInside : source < slots.size)
    (distinct : target ≠ source) :
    slotPairChecked slots target source = some (slots[target], slots[source]) := by
  rw [slotPairChecked]
  rcases Nat.lt_or_gt_of_ne distinct with before | behind
  · rw [if_pos before, Machine.slice_of_le (Nat.zero_le _) (Nat.le_of_lt sourceInside),
      Machine.slice_of_le (Nat.le_of_lt sourceInside) (Nat.le_refl _)]
    have sourceStored : 0 < slots.size - source := Nat.sub_pos_of_lt sourceInside
    simp [Nat.min_eq_left (Nat.le_of_lt sourceInside), before, sourceStored]
  · rw [if_neg (Nat.not_lt.mpr (Nat.le_of_lt behind)),
      Machine.slice_of_le (Nat.zero_le _) (Nat.le_of_lt targetInside),
      Machine.slice_of_le (Nat.le_of_lt targetInside) (Nat.le_refl _)]
    have targetStored : 0 < slots.size - target := Nat.sub_pos_of_lt targetInside
    simp [Nat.min_eq_left (Nat.le_of_lt targetInside), behind, targetStored]

/-- Two handles are found together without a check failing, whatever the table. -/
theorem pairChecked_eq (table : Table α) (target source : Handle) :
    table.pairChecked target source = some ((pair target source).run table) := by
  rw [pairChecked]
  by_cases own : target.parts.tag = table.tag
  case neg => rw [if_pos own, run_pair_of_foreign_target own]
  by_cases sourceOwn : source.parts.tag = table.tag
  case neg =>
    rw [if_neg (not_not_intro own), if_pos sourceOwn, run_pair_of_foreign_source own sourceOwn]
  rw [if_neg (not_not_intro own), if_neg (not_not_intro sourceOwn)]
  by_cases same : target.parts.slot = source.parts.slot
  case pos => rw [if_pos same, run_pair_of_same_slot own sourceOwn same]
  rw [if_neg same]
  rcases Nat.lt_or_ge target.parts.slot table.slots.size with inside | beyond
  · have present := Array.getElem?_eq_getElem inside
    rcases Nat.lt_or_ge source.parts.slot table.slots.size with sourceInside | sourceBeyond
    · have sourcePresent := Array.getElem?_eq_getElem sourceInside
      rw [if_neg (by omega), slotPairChecked_eq inside sourceInside same]
      simp only [Option.bind_eq_bind, Option.bind_some]
      split
      · next live sourceLive =>
          rw [run_pair_of_live own sourceOwn same present sourcePresent live sourceLive]
          rfl
      · next stale =>
          rw [run_pair_of_stale own sourceOwn same present sourcePresent]
          · rfl
          · by_contra both
            simp only [not_or, ← ne_eq, Option.ne_none_iff_exists'] at both
            obtain ⟨⟨value, live⟩, ⟨sourceValue, sourceLive⟩⟩ := both
            exact stale value sourceValue live sourceLive
    · have absent := Array.getElem?_eq_none sourceBeyond
      rw [if_pos (.inr sourceBeyond),
        run_pair_of_source_beyond own sourceOwn same present absent]
      simp only [if_pos inside]
  · have absent := Array.getElem?_eq_none beyond
    rw [if_pos (.inl beyond), run_pair_of_target_beyond own sourceOwn same absent]
    simp only [if_neg (Nat.not_lt.mpr beyond)]

/-- No operation on a table stops the machine, and each ends as it ends without the checks. -/
structure Steady (table : Table α) : Prop where
  /-- Taking a value in. -/
  insert_eq : ∀ value, table.insertChecked value = some ((insert value).run table)
  /-- Finding two values at once. -/
  pair_eq : ∀ target source, table.pairChecked target source = some ((pair target source).run table)

theorem WellFormed.steady {table : Table α} (wellFormed : table.WellFormed) : table.Steady where
  insert_eq := insertChecked_eq wellFormed
  pair_eq := table.pairChecked_eq

end Table

/-! ## Buffers -/

namespace BurstBuffer

/-- The buffer with a burst appended on the machine. -/
def appendChecked (buffer : BurstBuffer α) (burst : List α) : Option (BurstBuffer α) :=
  if burst.isEmpty then
    some buffer
  else do
    let size ← Machine.add buffer.size burst.length
    return { bursts := buffer.bursts.push burst, size }

/-- Copies a burst into the part of the destination that starts at `offset` and is as long as the
burst; answers the offset behind it. -/
def copyChecked (state : Nat × Array α) (burst : List α) : Option (Nat × Array α) := do
  let (offset, destination) := state
  let stop ← Machine.add offset burst.length
  let part ← Machine.slice destination offset stop
  if part.size = burst.length then some (stop, writeBurst destination offset burst) else none

/-- Copies all bursts, in order, and looks whether the last one ends where the buffer does. -/
def layOutChecked (buffer : BurstBuffer α) (destination : Array α) :
    Option (EStateM.Result Error (Array α) Unit) :=
  if destination.size ≠ buffer.size then
    some (.error (.capacityMismatch buffer.size destination.size) destination)
  else do
    let (offset, filled) ← buffer.bursts.toList.foldlM copyChecked (0, destination)
    if offset = buffer.size then some (.ok () filled) else none

theorem appendChecked_eq {buffer : BurstBuffer α} {burst : List α}
    (fits : buffer.size + burst.length < 2 ^ 64) :
    buffer.appendChecked burst = some (buffer.append burst) := by
  rw [appendChecked, append]
  split
  · rfl
  · rw [Machine.add_of_lt fits]
    rfl

theorem of_copyBurst_eq_ok {offset stop : Nat} {burst : List α} {destination filled : Array α}
    (copied : copyBurst offset burst destination = .ok stop filled) :
    offset + burst.length = stop ∧ stop ≤ destination.size ∧
      writeBurst destination offset burst = filled := by
  rcases Nat.lt_or_ge destination.size (offset + burst.length) with short | enough
  · exact nomatch (if_pos short).symm.trans copied
  · obtain ⟨rfl, rfl⟩ :=
      EStateM.Result.ok.inj ((if_neg (Nat.not_lt.mpr enough)).symm.trans copied)
    exact ⟨rfl, enough, rfl⟩

theorem copyChecked_eq {offset stop : Nat} {burst : List α} {destination filled : Array α}
    (copied : copyBurst offset burst destination = .ok stop filled) (fits : stop < 2 ^ 64) :
    copyChecked (offset, destination) burst = some (stop, filled) := by
  obtain ⟨rfl, inside, rfl⟩ := of_copyBurst_eq_ok copied
  have part_size : (destination.extract offset (offset + burst.length)).size = burst.length := by
    rw [Array.size_extract]
    omega
  simp only [copyChecked, Machine.add_of_lt fits, Option.bind_eq_bind, Option.bind_some,
    Machine.slice_of_le (Nat.le_add_right offset _) inside, if_pos part_size]

/-- Bursts that are copied one behind the other without a fault, up to an offset that can be
counted, are copied so on the machine: offsets only grow, so all can be counted if the last can. -/
theorem foldlM_copyChecked {bursts : List (List α)} {offset last : Nat}
    {destination filled : Array α}
    (copied : (bursts.foldlM copyBurst offset : EStateM Error (Array α) Nat) destination =
      .ok last filled) :
    offset ≤ last ∧ (last < 2 ^ 64 →
      bursts.foldlM copyChecked (offset, destination) = some (last, filled)) := by
  induction bursts generalizing offset destination with
  | nil =>
      obtain ⟨rfl, rfl⟩ := EStateM.Result.ok.inj copied
      exact ⟨Nat.le_refl _, fun _ => rfl⟩
  | cons burst bursts induction =>
      rw [List.foldlM_cons] at copied
      simp only [bind, EStateM.bind] at copied
      split at copied
      · next stop middle first =>
          obtain ⟨later, rest⟩ := induction copied
          have behind : offset ≤ stop := (of_copyBurst_eq_ok first).1 ▸ Nat.le_add_right offset _
          refine ⟨Nat.le_trans behind later, fun fits => ?_⟩
          rw [List.foldlM_cons, copyChecked_eq first (Nat.lt_of_le_of_lt later fits)]
          exact rest fits
      · exact nomatch copied

theorem layOutChecked_eq {buffer : BurstBuffer α} (wellFormed : buffer.WellFormed)
    (fits : buffer.size < 2 ^ 64) (destination : Array α) :
    buffer.layOutChecked destination = some (buffer.layOut destination) := by
  by_cases same : destination.size = buffer.size
  · have copied := wellFormed.foldlM_copyBurst_of_size_eq same
    rw [← Array.foldlM_toList] at copied
    rw [layOutChecked, if_neg (not_not_intro same), (foldlM_copyChecked copied).2 fits,
      wellFormed.layOut_of_size_eq same]
    exact if_pos rfl
  · rw [layOutChecked, if_pos same, layOut_of_size_ne same]

/-- No operation on a buffer stops the machine as long as the elements of the buffer can be counted,
and each ends as it ends without the checks. -/
structure Steady (buffer : BurstBuffer α) : Prop where
  /-- Appending a burst. -/
  append_eq : ∀ burst : List α, buffer.size + burst.length < 2 ^ 64 →
    buffer.appendChecked burst = some (buffer.append burst)
  /-- Laying the buffer out. -/
  layOut_eq : buffer.size < 2 ^ 64 → ∀ destination : Array α,
    buffer.layOutChecked destination = some (buffer.layOut destination)

theorem WellFormed.steady {buffer : BurstBuffer α} (wellFormed : buffer.WellFormed) :
    buffer.Steady where
  append_eq := fun _ => appendChecked_eq
  layOut_eq := layOutChecked_eq wellFormed

end BurstBuffer

end PackedStore
