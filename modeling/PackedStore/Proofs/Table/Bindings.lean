import PackedStore.Proofs.Table.Request

/-!
# A table as a map

A table is a map from handles to values, however it packs them in slots. The map is read off the
requests and their responses alone: a handle given out is bound to the value taken in, a write
through a handle binds it anew, and giving a value up unbinds its handle.
-/

namespace PackedStore

variable {α : Type}

/-- What each handle is bound to. -/
def Bindings (α : Type) : Type :=
  Handle → Option α

namespace Bindings

open Table

/-- No handle is bound. -/
def empty : Bindings α :=
  fun _ => none

/-- The bindings after a request, as its response tells them. -/
def note (bindings : Bindings α) (request : Request α) (response : Response α) : Bindings α :=
  match request with
  | .insert value =>
      match response.handle? with
      | some handle => Function.update bindings handle (some value)
      | none => bindings
  | .get _ => bindings
  | .update handle change =>
      if response.hit then
        Function.update bindings handle ((bindings handle).map change)
      else
        bindings
  | .updateFrom target source change =>
      if response.hit then
        Function.update bindings target
          ((bindings target).bind fun value => (bindings source).map (change value))
      else
        bindings
  | .remove handle => if response.hit then Function.update bindings handle none else bindings

/-- A request changes the binding of no handle but its target and the handle it is answered. -/
theorem note_of_ne {bindings : Bindings α} {request : Request α} {response : Response α}
    {handle : Handle} (other : request.target? ≠ some handle)
    (fresh : response.handle? ≠ some handle) :
    bindings.note request response handle = bindings handle := by
  cases request with
  | insert value =>
      simp only [note]
      cases given : response.handle? with
      | none => rfl
      | some taken =>
          apply Function.update_of_ne
          rintro rfl
          exact fresh given
  | get => rfl
  | update target | updateFrom target | remove target =>
      have apart : handle ≠ target := by
        rintro rfl
        exact other rfl
      simp only [note]
      cases response.hit with
      | false => rfl
      | true => exact Function.update_of_ne apart _ _

/-- The bindings after a history of requests and responses. -/
def replay (bindings : Bindings α) (history : List (Request α × Response α)) : Bindings α :=
  history.foldl (fun current entry => current.note entry.1 entry.2) bindings

end Bindings

namespace Table

/-! ## Runs of requests -/

/-- The table after a list of requests. -/
def after (table : Table α) : List (Request α) → Table α
  | [] => table
  | request :: requests => (request.perform.run table).store.after requests

/-- A list of requests, each with its response. -/
def history (table : Table α) : List (Request α) → List (Request α × Response α)
  | [] => []
  | request :: requests =>
      let trace := request.perform.run table
      (request, trace.value) :: trace.store.history requests

/-- Every operation of the table answers as the bindings say. -/
structure Agrees (table : Table α) (bindings : Bindings α) : Prop where
  /-- Looking a handle up gives what it is bound to. -/
  get_eq : ∀ handle : Handle, ((get handle).run table).value = bindings handle
  /-- A write through a handle starts from what it is bound to. -/
  update_eq : ∀ (β : Type) (handle : Handle) (change : Step α β),
    ((update handle change).run table).value =
      (bindings handle).map fun value => (change.run value).value
  /-- Two different handles give what they are bound to, one handle twice gives nothing. -/
  pair_eq : ∀ target source : Handle, ((pair target source).run table).value =
    if target = source then none
    else (bindings target).bind fun value => (bindings source).map (value, ·)
  /-- Giving up a value answers what its handle was bound to. -/
  remove_eq : ∀ handle : Handle, ((remove handle).run table).value = bindings handle
  /-- A handle given out was not bound. -/
  insert_fresh : ∀ (value : α) (handle : Handle),
    ((insert value).run table).value = .ok handle → bindings handle = none
  /-- No request changes what a bound handle gives, unless it is the request's target. -/
  get_after_eq : ∀ (request : Request α) (handle : Handle), bindings handle ≠ none →
    request.target? ≠ some handle →
      ((get handle).run (request.perform.run table).store).value = bindings handle

/-! ## One request -/

/-- A turn does to the values of a table what its response says. -/
theorem Turn.find?_eq {before after : Table α} {request : Request α} {response : Response α}
    (turn : Turn before request response after) (ready : before.WellFormed) :
    after.find? = Bindings.note before.find? request response := by
  cases turn with
  | reused top present nonzero => exact find?_reuse ready present _
  | grew empty room => exact find?_push room _
  | replaced found =>
      rw [find?_fill ready found]
      simp [Bindings.note, Response.hit, found]
  | replacedFrom found beside distinct =>
      rw [find?_fill ready found]
      simp [Bindings.note, Response.hit, found, beside]
  | removed found => exact find?_vacate ready found
  | full | seen | missed | missedFrom | absent => rfl

/-- A turn keeps a bound handle bound to the same value, unless the handle is the target of its
request. -/
theorem Turn.find?_of_ne {before after : Table α} {request : Request α} {response : Response α}
    (turn : Turn before request response after) (ready : before.WellFormed) {handle : Handle}
    (bound : before.find? handle ≠ none) (other : request.target? ≠ some handle) :
    after.find? handle = before.find? handle := by
  obtain ⟨value, found⟩ := Option.ne_none_iff_exists'.mp bound
  have issued := ready.issued_of_find? found
  rw [turn.find?_eq ready]
  exact Bindings.note_of_ne other fun given => turn.not_issued ready given issued

theorem WellFormed.agrees {table : Table α} (wellFormed : table.WellFormed) :
    table.Agrees table.find? := by
  have get_eq : ∀ (current : Table α) (handle : Handle),
      ((get handle).run current).value = current.find? handle := by
    intro current handle
    cases found : current.find? handle with
    | some value => rw [run_get_of_some found]
    | none => rw [run_get_of_none found]
  constructor
  case get_eq => exact get_eq table
  case update_eq =>
    intro β handle change
    cases found : table.find? handle with
    | some value =>
        rw [run_update_of_some found]
        rfl
    | none =>
        rw [run_update_of_none found]
        rfl
  case pair_eq => exact value_pair table
  case remove_eq =>
    intro handle
    cases found : table.find? handle with
    | some value => rw [run_remove_of_some found]
    | none => rw [run_remove_of_none found]
  case insert_fresh =>
    intro value handle given
    have turn := wellFormed.turn (.insert value)
    have response : ((Request.insert value).perform.run table).value =
        .inserted ((insert value).run table).value := rfl
    cases found : table.find? handle with
    | none => rfl
    | some old =>
        refine absurd (wellFormed.issued_of_find? found) (turn.not_issued wellFormed ?_)
        rw [response, given]
        rfl
  case get_after_eq =>
    intro request handle bound other
    rw [get_eq]
    exact (wellFormed.turn request).find?_of_ne wellFormed bound other

/-! ## Runs of requests -/

/-- Requests keep a table well formed, and replaying their history on its values gives the values
after them. -/
theorem WellFormed.after_and_replay {table : Table α} (wellFormed : table.WellFormed)
    (requests : List (Request α)) :
    (table.after requests).WellFormed ∧
      (table.after requests).find? = Bindings.replay table.find? (table.history requests) := by
  induction requests generalizing table with
  | nil => exact ⟨wellFormed, rfl⟩
  | cons request requests induction =>
      have turn := wellFormed.turn request
      obtain ⟨ready, same⟩ := induction (turn.wellFormed wellFormed)
      refine ⟨ready, same.trans ?_⟩
      rw [turn.find?_eq wellFormed]
      rfl

/-- After every list of requests to an empty table, the table answers as the bindings say that the
history alone tells. -/
theorem agrees_replay_history (kind : String) (tag : UInt8) (requests : List (Request α)) :
    let table : Table α := .empty kind tag
    (table.after requests).Agrees (Bindings.empty.replay (table.history requests)) := by
  intro table
  have ready : table.WellFormed := wellFormed_empty kind tag
  obtain ⟨wellFormed, same⟩ := ready.after_and_replay requests
  have blank : table.find? = Bindings.empty := funext (find?_empty kind tag)
  rw [← blank, ← same]
  exact wellFormed.agrees

end Table

end PackedStore
