import PackedStore.Proofs.Table.Issue

/-!
# Requests to a table

Everything a caller can ask of a table, and everything that can come of it. One request takes one
turn; each turn keeps the table well formed, and what it does to the values and to the handles given
out is stated once, here.
-/

namespace PackedStore

namespace Table

variable {α : Type}

/-- What a caller asks of a table. A value found may be replaced by another, which the caller makes
from what was found. -/
inductive Request (α : Type) where
  /-- Takes a value in. -/
  | insert (value : α)
  /-- Looks at the value behind a handle. -/
  | get (handle : Handle)
  /-- Replaces the value behind a handle. -/
  | update (handle : Handle) (change : α → α)
  /-- Replaces the value behind `target`, with the one behind `source` at hand. -/
  | updateFrom (target source : Handle) (change : α → α → α)
  /-- Gives up the value behind a handle. -/
  | remove (handle : Handle)

/-- What a table answers. -/
inductive Response (α : Type) where
  /-- The handle of a value taken in, or why it was not. -/
  | inserted (result : Except Error Handle)
  /-- The value found, if there is one. -/
  | value (found : Option α)
  /-- The two values found, if both are there. -/
  | pair (found : Option (α × α))

/-- Answers the value and puts another in its place. -/
def exchange (change : α → α) : Step α α := do
  let value ← Step.read
  Step.replace (change value)
  return value

namespace Request

/-- Does what is asked. -/
def perform : Request α → Step (Table α) (Response α)
  | insert value => return .inserted (← Table.insert value)
  | get handle => return .value (← Table.get handle)
  | update handle change => return .value (← Table.update handle (exchange change))
  | updateFrom target source change =>
      return .pair (← Table.updateFrom target source fun sourceValue => do
        let targetValue ← exchange (change · sourceValue)
        return (targetValue, sourceValue))
  | remove handle => return .value (← Table.remove handle)

/-- The handle whose value a request may replace or give up. -/
def target? : Request α → Option Handle
  | insert _ | get _ => none
  | update handle _ | updateFrom handle _ _ | remove handle => some handle

end Request

namespace Response

/-- The handle that a table answers to a value taken in. -/
def handle? : Response α → Option Handle
  | inserted result => result.toOption
  | value _ | pair _ => none

@[simp] theorem handle?_ok (handle : Handle) :
    (inserted (.ok handle) : Response α).handle? = some handle := rfl

@[simp] theorem handle?_error (error : Error) :
    (inserted (.error error) : Response α).handle? = none := rfl

@[simp] theorem handle?_value (found : Option α) : (value found).handle? = none := rfl

@[simp] theorem handle?_pair (found : Option (α × α)) : (pair found).handle? = none := rfl

/-- Whether the values asked for were found. -/
def hit : Response α → Bool
  | inserted _ => false
  | value found => found.isSome
  | pair found => found.isSome

end Response

/-- Everything that can come of a request to a well-formed table: the response and the table
afterwards. -/
inductive Turn (table : Table α) : Request α → Response α → Table α → Prop where
  | reused {index : Nat} {free : List Nat} {generation : UInt32} {value : α}
      (top : table.free = index :: free)
      (present : table.slots[index]? = some ⟨generation, none⟩) (nonzero : generation ≠ 0) :
      Turn table (.insert value) (.inserted (.ok (.pack table.tag index generation)))
        { table.fill index value with free }
  | grew {value : α} (empty : table.free = []) (room : table.slots.size < maxSlots) :
      Turn table (.insert value) (.inserted (.ok (.pack table.tag table.slots.size 1)))
        { table with slots := table.slots.push ⟨1, some value⟩ }
  | full {value : α} (empty : table.free = []) (full : maxSlots ≤ table.slots.size) :
      Turn table (.insert value) (.inserted (.error .full)) table
  | seen {handle : Handle} : Turn table (.get handle) (.value (table.find? handle)) table
  | replaced {handle : Handle} {change : α → α} {value : α}
      (found : table.find? handle = some value) :
      Turn table (.update handle change) (.value (some value))
        (table.fill handle.parts.slot (change value))
  | missed {handle : Handle} {change : α → α} (missing : table.find? handle = none) :
      Turn table (.update handle change) (.value none) table
  | replacedFrom {target source : Handle} {change : α → α → α} {targetValue sourceValue : α}
      (found : table.find? target = some targetValue)
      (beside : table.find? source = some sourceValue) (distinct : target ≠ source) :
      Turn table (.updateFrom target source change) (.pair (some (targetValue, sourceValue)))
        (table.fill target.parts.slot (change targetValue sourceValue))
  | missedFrom {target source : Handle} {change : α → α → α}
      (missing : table.find? target = none ∨ table.find? source = none ∨ target = source) :
      Turn table (.updateFrom target source change) (.pair none) table
  | removed {handle : Handle} {value : α} (found : table.find? handle = some value) :
      Turn table (.remove handle) (.value (some value))
        (table.vacate handle.parts.slot handle.parts.generation)
  | absent {handle : Handle} (missing : table.find? handle = none) :
      Turn table (.remove handle) (.value none) table

/-! ## Two handles at once -/

theorem find?_of_foreign {table : Table α} {handle : Handle}
    (foreign : handle.parts.tag ≠ table.tag) : table.find? handle = none :=
  if_neg foreign

theorem find?_of_own {table : Table α} {handle : Handle} (own : handle.parts.tag = table.tag) :
    table.find? handle =
      table.slots[handle.parts.slot]?.bind (·.live? handle.parts.generation) :=
  if_pos own

/-- Two handles of one table that name values in one slot are the same. -/
theorem eq_of_slot_eq {table : Table α} {left right : Handle} {leftValue rightValue : α}
    (left_found : table.find? left = some leftValue)
    (right_found : table.find? right = some rightValue)
    (same : left.parts.slot = right.parts.slot) : left = right := by
  obtain ⟨left_own, left_present⟩ := find?_eq_some_iff.mp left_found
  obtain ⟨right_own, right_present⟩ := find?_eq_some_iff.mp right_found
  rw [same, right_present] at left_present
  have generation_eq := congrArg Slot.generation (Option.some.inj left_present)
  rw [← Handle.pack_parts left, ← Handle.pack_parts right, left_own, right_own, same]
  exact congrArg _ generation_eq.symm

/-- The record for two handles that are not found together, if there is one: two handles of the
table that name one slot get none. -/
def pairRefusal? (table : Table α) (target source : Handle) : Option Record :=
  if target.parts.tag ≠ table.tag then some (table.refusal target)
  else if source.parts.tag ≠ table.tag then some (table.refusal source)
  else if target.parts.slot = source.parts.slot then none
  else if table.slots[target.parts.slot]?.isNone then some (table.refusal target)
  else if table.slots[source.parts.slot]?.isNone then some (table.refusal source)
  else some (.stalePair table.kind target source)

section Pair

variable {table : Table α} {target source : Handle} {targetSlot sourceSlot : Slot α}
  {targetValue sourceValue : α}

theorem run_pair_of_foreign_target (foreign : target.parts.tag ≠ table.tag) :
    (pair target source).run table = ⟨none, table, [⟨table.refusal target, table⟩]⟩ := by
  simp only [pair, Step.run_bind, Step.run_read, ne_eq, foreign, not_false_eq_true, if_true]
  rfl

theorem run_pair_of_foreign_source (own : target.parts.tag = table.tag)
    (foreign : source.parts.tag ≠ table.tag) :
    (pair target source).run table = ⟨none, table, [⟨table.refusal source, table⟩]⟩ := by
  simp only [pair, Step.run_bind, Step.run_read, ne_eq, own, foreign, not_true_eq_false,
    not_false_eq_true, if_true, if_false]
  rfl

theorem run_pair_of_same_slot (own : target.parts.tag = table.tag)
    (sourceOwn : source.parts.tag = table.tag) (same : target.parts.slot = source.parts.slot) :
    (pair target source).run table = ⟨none, table, []⟩ := by
  simp only [pair, Step.run_bind, Step.run_read, ne_eq, own, sourceOwn, same, not_true_eq_false,
    if_true, if_false]
  rfl

theorem run_pair_of_target_beyond (own : target.parts.tag = table.tag)
    (sourceOwn : source.parts.tag = table.tag) (distinct : target.parts.slot ≠ source.parts.slot)
    (beyond : table.slots[target.parts.slot]? = none) :
    (pair target source).run table = ⟨none, table, [⟨table.refusal target, table⟩]⟩ := by
  simp only [pair, Step.run_bind, Step.run_read, ne_eq, own, sourceOwn, distinct,
    not_true_eq_false, if_false, beyond]
  rfl

theorem run_pair_of_source_beyond (own : target.parts.tag = table.tag)
    (sourceOwn : source.parts.tag = table.tag) (distinct : target.parts.slot ≠ source.parts.slot)
    (present : table.slots[target.parts.slot]? = some targetSlot)
    (beyond : table.slots[source.parts.slot]? = none) :
    (pair target source).run table = ⟨none, table, [⟨table.refusal source, table⟩]⟩ := by
  simp only [pair, Step.run_bind, Step.run_read, ne_eq, own, sourceOwn, distinct,
    not_true_eq_false, if_false, present, beyond]
  rfl

theorem run_pair_of_stale (own : target.parts.tag = table.tag)
    (sourceOwn : source.parts.tag = table.tag) (distinct : target.parts.slot ≠ source.parts.slot)
    (present : table.slots[target.parts.slot]? = some targetSlot)
    (sourcePresent : table.slots[source.parts.slot]? = some sourceSlot)
    (stale : targetSlot.live? target.parts.generation = none ∨
      sourceSlot.live? source.parts.generation = none) :
    (pair target source).run table =
      ⟨none, table, [⟨.stalePair table.kind target source, table⟩]⟩ := by
  simp only [pair, Step.run_bind, Step.run_read, ne_eq, own, sourceOwn, distinct,
    not_true_eq_false, if_false, present, sourcePresent]
  split
  · next live sourceLive => simp [live, sourceLive] at stale
  · rfl

theorem run_pair_of_live (own : target.parts.tag = table.tag)
    (sourceOwn : source.parts.tag = table.tag) (distinct : target.parts.slot ≠ source.parts.slot)
    (present : table.slots[target.parts.slot]? = some targetSlot)
    (sourcePresent : table.slots[source.parts.slot]? = some sourceSlot)
    (live : targetSlot.live? target.parts.generation = some targetValue)
    (sourceLive : sourceSlot.live? source.parts.generation = some sourceValue) :
    (pair target source).run table = ⟨some (targetValue, sourceValue), table, []⟩ := by
  simp only [pair, Step.run_bind, Step.run_read, ne_eq, own, sourceOwn, distinct,
    not_true_eq_false, if_false, present, sourcePresent, live, sourceLive]
  rfl

/-- Two different handles that both name a value are found together. -/
theorem run_pair_of_some (found : table.find? target = some targetValue)
    (beside : table.find? source = some sourceValue) (distinct : target ≠ source) :
    (pair target source).run table = ⟨some (targetValue, sourceValue), table, []⟩ := by
  obtain ⟨own, present⟩ := find?_eq_some_iff.mp found
  obtain ⟨sourceOwn, sourcePresent⟩ := find?_eq_some_iff.mp beside
  have apart : target.parts.slot ≠ source.parts.slot := fun same =>
    distinct (eq_of_slot_eq found beside same)
  exact run_pair_of_live own sourceOwn apart present sourcePresent (Slot.live?_self _ _)
    (Slot.live?_self _ _)

/-- Two handles of which one names nothing, or which are the same, are not found together. -/
theorem run_pair_of_none (missing : table.find? target = none ∨ table.find? source = none ∨
    target = source) :
    (pair target source).run table =
      ⟨none, table, (table.pairRefusal? target source).toList.map (⟨·, table⟩)⟩ := by
  by_cases own : target.parts.tag = table.tag
  case neg =>
    rw [run_pair_of_foreign_target own, pairRefusal?, if_pos own]
    rfl
  by_cases sourceOwn : source.parts.tag = table.tag
  case neg =>
    rw [run_pair_of_foreign_source own sourceOwn, pairRefusal?, if_neg (not_not_intro own),
      if_pos sourceOwn]
    rfl
  rw [pairRefusal?, if_neg (not_not_intro own), if_neg (not_not_intro sourceOwn)]
  by_cases same : target.parts.slot = source.parts.slot
  case pos =>
    rw [run_pair_of_same_slot own sourceOwn same, if_pos same]
    rfl
  rw [if_neg same]
  cases present : table.slots[target.parts.slot]? with
  | none =>
      rw [run_pair_of_target_beyond own sourceOwn same present]
      rfl
  | some targetSlot =>
      cases sourcePresent : table.slots[source.parts.slot]? with
      | none =>
          rw [run_pair_of_source_beyond own sourceOwn same present sourcePresent]
          rfl
      | some sourceSlot =>
          refine run_pair_of_stale own sourceOwn same present sourcePresent ?_
          rw [find?_of_own own, find?_of_own sourceOwn, present, sourcePresent] at missing
          rcases missing with stale | stale | equal
          · exact .inl stale
          · exact .inr stale
          · exact absurd (congrArg (·.parts.slot) equal) same

/-- Two different handles give the values they name, one handle twice gives nothing. -/
theorem value_pair (table : Table α) (target source : Handle) :
    ((pair target source).run table).value =
      if target = source then none
      else (table.find? target).bind fun value => (table.find? source).map (value, ·) := by
  have of_none : (table.find? target = none ∨ table.find? source = none ∨ target = source) →
      ((pair target source).run table).value = none := by
    intro missing
    rw [run_pair_of_none missing]
  split
  · next same => exact of_none (.inr (.inr same))
  · next distinct =>
      cases found : table.find? target with
      | none => exact of_none (.inl found)
      | some value =>
          cases beside : table.find? source with
          | none => exact of_none (.inr (.inl beside))
          | some sourceValue =>
              rw [run_pair_of_some found beside distinct]
              rfl

theorem run_updateFrom_of_some {β : Type} (found : table.find? target = some targetValue)
    (beside : table.find? source = some sourceValue) (distinct : target ≠ source)
    (change : α → Step α β) :
    (updateFrom target source change).run table =
      let trace := (change sourceValue).run targetValue
      let whole := table.fill target.parts.slot
      ⟨some trace.value, whole trace.store,
        trace.written.map fun entry => ⟨entry.record, whole entry.store⟩⟩ := by
  simp only [updateFrom, Step.run_bind, run_pair_of_some found beside distinct, Step.run_read,
    Step.run_zoom, Step.run_pure, List.nil_append, List.append_nil]

theorem run_updateFrom_of_none {β : Type} (missing : table.find? target = none ∨
    table.find? source = none ∨ target = source) (change : α → Step α β) :
    (updateFrom target source change).run table =
      ⟨none, table, (table.pairRefusal? target source).toList.map (⟨·, table⟩)⟩ := by
  simp only [updateFrom, Step.run_bind, run_pair_of_none missing, Step.run_pure, List.append_nil]

end Pair

/-! ## What comes of a request -/

/-- A well-formed table answers every request by one of its turns. -/
theorem WellFormed.turn {table : Table α} (wellFormed : table.WellFormed) (request : Request α) :
    Turn table request (request.perform.run table).value (request.perform.run table).store := by
  cases request with
  | insert value =>
      cases top : table.free with
      | cons index free =>
          obtain ⟨generation, nonzero, present⟩ := wellFormed.present_of_free top
          simp only [Request.perform, Step.run_bind, run_insert_of_free top present]
          exact .reused top present nonzero
      | nil =>
          rcases Nat.lt_or_ge table.slots.size maxSlots with room | full
          · simp only [Request.perform, Step.run_bind, run_insert_of_room top room]
            exact .grew top room
          · simp only [Request.perform, Step.run_bind, run_insert_of_full top full]
            exact .full top full
  | get handle =>
      cases found : table.find? handle with
      | some value =>
          simp only [Request.perform, Step.run_bind, run_get_of_some found]
          exact found ▸ .seen
      | none =>
          simp only [Request.perform, Step.run_bind, run_get_of_none found]
          exact found ▸ .seen
  | update handle change =>
      cases found : table.find? handle with
      | some value =>
          simp only [Request.perform, Step.run_bind, run_update_of_some found]
          exact .replaced found
      | none =>
          simp only [Request.perform, Step.run_bind, run_update_of_none found]
          exact .missed found
  | updateFrom target source change =>
      rcases Decidable.em (table.find? target = none ∨ table.find? source = none ∨
          target = source) with missing | both
      · simp only [Request.perform, Step.run_bind, run_updateFrom_of_none missing]
        exact .missedFrom missing
      · simp only [not_or, ← ne_eq, Option.ne_none_iff_exists'] at both
        obtain ⟨⟨targetValue, found⟩, ⟨sourceValue, beside⟩, distinct⟩ := both
        simp only [Request.perform, Step.run_bind, run_updateFrom_of_some found beside distinct]
        exact .replacedFrom found beside distinct
  | remove handle =>
      cases found : table.find? handle with
      | some value =>
          simp only [Request.perform, Step.run_bind, run_remove_of_some found]
          exact .removed found
      | none =>
          simp only [Request.perform, Step.run_bind, run_remove_of_none found]
          exact .absent found

namespace Turn

variable {before after : Table α} {request : Request α} {response : Response α}

theorem tag_eq (turn : Turn before request response after) : after.tag = before.tag := by
  cases turn <;> rfl

theorem wellFormed (turn : Turn before request response after) (ready : before.WellFormed) :
    after.WellFormed := by
  cases turn with
  | reused top present nonzero => exact wellFormed_reuse ready top present nonzero _
  | grew empty room => exact wellFormed_push ready room _
  | replaced found => exact wellFormed_fill ready found _
  | replacedFrom found beside distinct => exact wellFormed_fill ready found _
  | removed found => exact wellFormed_vacate ready found
  | full | seen | missed | missedFrom | absent => exact ready

/-- The handles given out after a turn are those given out before and the one in the response. -/
theorem issued_iff (turn : Turn before request response after) (ready : before.WellFormed)
    (handle : Handle) :
    after.Issued handle ↔ response.handle? = some handle ∨ before.Issued handle := by
  cases turn with
  | reused top present nonzero =>
      rw [issued_reuse ready present nonzero _ handle, Response.handle?_ok, Option.some_inj,
        eq_comm]
  | grew empty room =>
      rw [issued_push room _ handle, Response.handle?_ok, Option.some_inj, eq_comm]
  | replaced found => simp [issued_fill found]
  | replacedFrom found beside distinct => simp [issued_fill found]
  | removed found => simp [issued_vacate found]
  | full | seen | missed | missedFrom | absent => simp

/-- A handle in a response has not been given out before. -/
theorem not_issued (turn : Turn before request response after) (ready : before.WellFormed)
    {handle : Handle} (given : response.handle? = some handle) : ¬before.Issued handle := by
  cases turn with
  | reused top present nonzero =>
      rw [← Option.some_inj.mp given]
      exact not_issued_reuse ready present nonzero
  | grew empty room =>
      rw [← Option.some_inj.mp given]
      exact not_issued_push room
  | full | seen | replaced | missed | replacedFrom | missedFrom | removed | absent =>
      exact nomatch given

end Turn

end Table

end PackedStore
