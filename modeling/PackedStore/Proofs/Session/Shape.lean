import PackedStore.Proofs.Table.Bindings
import PackedStore.Session.Work

/-!
# The shapes of work

A call works on its table in one of a few shapes. This file states what each leaves behind, and what
the guard makes of it as long as no logger panics.
-/

namespace PackedStore

variable {α : Type}

theorem Guarded.eq_of_unpoisoned {guarded : Guarded α} (unpoisoned : guarded.poisoned = false) :
    guarded = ⟨guarded.table, false⟩ :=
  congrArg (Guarded.mk guarded.table) unpoisoned

namespace Operation

variable {table : Table α} {handle target source : Handle} {value targetValue sourceValue : α}

theorem run_withValue_of_some (found : table.find? handle = some value)
    (next : α → Step (Table α) Ending) :
    (withValue handle next).run table =
      let trace := (next value).run table
      ⟨trace.value, trace.store, trace.written⟩ := by
  simp only [withValue, Step.run_bind, Table.run_get_of_some found, List.nil_append]

theorem run_withValue_of_none (missing : table.find? handle = none)
    (next : α → Step (Table α) Ending) :
    (withValue handle next).run table =
      ⟨.ok (.failed .invalidHandle), table, [⟨table.refusal handle, table⟩]⟩ := by
  simp only [withValue, Step.run_bind, Table.run_get_of_none missing]
  rfl

theorem run_amend_of_some (found : table.find? handle = some value) (change : Step α Ending) :
    (amend handle change).run table =
      let trace := change.run value
      let whole := table.fill handle.parts.slot
      ⟨trace.value, whole trace.store,
        trace.written.map fun entry => ⟨entry.record, whole entry.store⟩⟩ := by
  simp only [amend, Step.run_bind, Table.run_update_of_some found, Step.run_pure, List.append_nil]

theorem run_amend_of_none (missing : table.find? handle = none) (change : Step α Ending) :
    (amend handle change).run table =
      ⟨.ok (.failed .invalidHandle), table, [⟨table.refusal handle, table⟩]⟩ := by
  simp only [amend, Step.run_bind, Table.run_update_of_none missing]
  rfl

theorem run_amendFrom_of_some (found : table.find? target = some targetValue)
    (beside : table.find? source = some sourceValue) (distinct : target ≠ source)
    (change : α → Step α Ending) :
    (amendFrom target source change).run table =
      let trace := (change sourceValue).run targetValue
      let whole := table.fill target.parts.slot
      ⟨trace.value, whole trace.store,
        trace.written.map fun entry => ⟨entry.record, whole entry.store⟩⟩ := by
  simp only [amendFrom, Step.run_bind, Table.run_updateFrom_of_some found beside distinct,
    Step.run_pure, List.append_nil]

theorem run_amendFrom_of_none
    (missing : table.find? target = none ∨ table.find? source = none ∨ target = source)
    (change : α → Step α Ending) :
    (amendFrom target source change).run table =
      ⟨.ok (.failed .invalidHandle), table,
        (table.pairRefusal? target source).toList.map (⟨·, table⟩)⟩ := by
  simp only [amendFrom, fail, finish, Step.run_bind, Table.run_updateFrom_of_none missing,
    Step.run_pure, List.append_nil]

theorem run_release_of_some (found : table.find? handle = some value) :
    (release handle).run table =
      let after := table.vacate handle.parts.slot handle.parts.generation
      ⟨.ok .done, after, [⟨.destroyed table.kind handle, after⟩]⟩ := by
  simp only [release, Step.run_bind, Table.run_remove_of_some found]
  rfl

theorem run_release_of_none (missing : table.find? handle = none) :
    (release handle).run table =
      ⟨.ok (.failed .invalidHandle), table, [⟨table.refusal handle, table⟩]⟩ := by
  simp only [release, Step.run_bind, Table.run_remove_of_none missing]
  rfl

theorem run_register_of_ok {after : Table α} {written : List (Entry (Table α))}
    (inserted : (Table.insert value).run table = ⟨.ok handle, after, written⟩) :
    (register value).run table = ⟨.ok (.give (.handle handle)), after, written⟩ := by
  simp only [register, finish, Step.run_bind, inserted, Step.run_pure, List.append_nil]

theorem run_register_of_full {after : Table α} {written : List (Entry (Table α))}
    (refused : (Table.insert value).run table = ⟨.error .full, after, written⟩) :
    (register value).run table = ⟨.ok (.failed .internalError), after, written⟩ := by
  simp only [register, fail, finish, Step.run_bind, refused, Step.run_pure, List.append_nil]

/-- Registering binds a handle that was not bound, or fails since the table is full. -/
theorem run_register (wellFormed : table.WellFormed) (value : α) :
    (¬table.Full ∧ ∃ handle after,
      (register value).run table =
          ⟨.ok (.give (.handle handle)), after, [⟨.created table.kind handle, after⟩]⟩ ∧
        after.WellFormed ∧ table.find? handle = none ∧
        after.find? = Function.update table.find? handle (some value)) ∨
      table.Full ∧ (register value).run table =
        ⟨.ok (.failed .internalError), table, [⟨.full table.kind Table.maxSlots, table⟩]⟩ := by
  cases top : table.free with
  | cons index free =>
      left
      obtain ⟨generation, nonzero, present⟩ := wellFormed.present_of_free top
      have ran := run_register_of_ok (Table.run_insert_of_free top present value)
      have fresh := Table.not_issued_reuse wellFormed present nonzero
      refine ⟨fun full => ?_, _, _, ran,
        Table.wellFormed_reuse wellFormed top present nonzero value,
        wellFormed.find?_of_not_issued fresh, Table.find?_reuse wellFormed present value⟩
      exact nomatch top.symm.trans full.1
  | nil =>
      rcases Nat.lt_or_ge table.slots.size Table.maxSlots with room | full
      · left
        have ran := run_register_of_ok (Table.run_insert_of_room top room value)
        have fresh := Table.not_issued_push room
        exact ⟨fun full => Nat.ne_of_lt room full.2, _, _, ran,
          Table.wellFormed_push wellFormed room value, wellFormed.find?_of_not_issued fresh,
          Table.find?_push room value⟩
      · right
        exact ⟨⟨top, Nat.le_antisymm wellFormed.size_le full⟩,
          run_register_of_full (Table.run_insert_of_full top full value)⟩

theorem perform_work {body : Step (Table α) Ending} {after : Table α} {reply : Reply}
    {written : List (Entry (Table α))} (ran : body.run table = ⟨.ok reply, after, written⟩)
    (placed : Bool) :
    (work body placed).perform ⟨table, false⟩ none =
      ⟨⟨after, false⟩, settle placed reply, written.map (·.record), none, none⟩ := by
  simp [perform, ran, deliver]

end Operation

end PackedStore
