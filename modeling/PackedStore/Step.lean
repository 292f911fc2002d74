import PackedStore.Record

/-!
# Steps on a store

A step reads and changes a store of type `σ` and writes log records on the way. Its trace keeps,
beside every record, the store as it was when the record was written, so that a host which stops
the step at a record finds the store of that moment.
-/

namespace PackedStore

/-- A record together with the store at the moment it was written. -/
structure Entry (σ : Type) where
  /-- The record. -/
  record : Record
  /-- The store when the record was written. -/
  store : σ

/-- Everything a step leaves behind. -/
structure Trace (σ α : Type) where
  /-- The answer of the step. -/
  value : α
  /-- The store after the step. -/
  store : σ
  /-- The records of the step, oldest first. -/
  written : List (Entry σ)

/-- An activity on a store of type `σ` that answers an `α` and writes records. -/
def Step (σ α : Type) : Type :=
  σ → Trace σ α

namespace Step

variable {σ α β : Type}

/-- Performs a step on a store. -/
def run (step : Step σ α) (store : σ) : Trace σ α :=
  step store

/-- Answers `value`; the store stays as it is. -/
protected def pure (value : α) : Step σ α :=
  fun store => ⟨value, store, []⟩

/-- Performs one step and then the step chosen by its answer. -/
protected def bind (step : Step σ α) (next : α → Step σ β) : Step σ β :=
  fun store =>
    let first := step store
    let second := next first.value first.store
    ⟨second.value, second.store, first.written ++ second.written⟩

instance : Monad (Step σ) where
  pure := Step.pure
  bind := Step.bind

/-- Answers the store. -/
def read : Step σ σ :=
  fun store => ⟨store, store, []⟩

/-- Puts `store` in the place of the store. -/
def replace (store : σ) : Step σ Unit :=
  fun _ => ⟨(), store, []⟩

/-- Performs a step on a part of the store, which now is `part`; `whole` gives the store for each
state of the part. -/
def zoom {τ : Type} (part : τ) (whole : τ → σ) (step : Step τ α) : Step σ α :=
  fun _ =>
    let trace := step part
    ⟨trace.value, whole trace.store,
      trace.written.map fun entry => ⟨entry.record, whole entry.store⟩⟩

/-- Writes one record. -/
def write (record : Record) : Step σ Unit :=
  fun store => ⟨(), store, [⟨record, store⟩]⟩

/-- Writes a record if there is one. -/
def write? : Option Record → Step σ Unit
  | none => Step.pure ()
  | some record => write record

/-! ## What each step leaves behind -/

@[simp] theorem run_pure (value : α) (store : σ) :
    (pure value : Step σ α).run store = ⟨value, store, []⟩ := rfl

/-- Two steps in a row: the second starts from the store the first left, and its records follow
those of the first. -/
theorem run_bind (step : Step σ α) (next : α → Step σ β) (store : σ) :
    (step >>= next).run store =
      let first := step.run store
      let second := (next first.value).run first.store
      ⟨second.value, second.store, first.written ++ second.written⟩ := rfl

@[simp] theorem run_read (store : σ) : (read : Step σ σ).run store = ⟨store, store, []⟩ := rfl

@[simp] theorem run_replace (before after : σ) :
    (replace after).run before = ⟨(), after, []⟩ := rfl

@[simp] theorem run_write (record : Record) (store : σ) :
    (write record).run store = ⟨(), store, [⟨record, store⟩]⟩ := rfl

@[simp] theorem run_zoom {τ : Type} (part : τ) (whole : τ → σ) (step : Step τ α) (store : σ) :
    (zoom part whole step).run store =
      ⟨(step.run part).value, whole (step.run part).store,
        (step.run part).written.map fun entry => ⟨entry.record, whole entry.store⟩⟩ := rfl

end Step

end PackedStore
