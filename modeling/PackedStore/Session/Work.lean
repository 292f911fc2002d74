import PackedStore.Session.Guard

/-!
# Work behind a handle

The shapes that the calls of every kind share: take a value in, give one up, read one, change one
in place.
-/

namespace PackedStore

namespace Operation

variable {α : Type}

/-- Ends with a reply. -/
def finish (reply : Reply) : Step α Ending :=
  return .ok reply

/-- Ends in a failure. -/
def fail (status : Status) : Step α Ending :=
  finish (.failed status)

/-- Ends in a fault. -/
def crash (cause : Fault) : Step α Ending :=
  return .error cause

/-- Goes on with the value behind `handle`. -/
def withValue (handle : Handle) (next : α → Step (Table α) Ending) : Step (Table α) Ending := do
  match ← Table.get handle with
  | none => fail .invalidHandle
  | some value => next value

/-- Works on the value behind `handle` in place. -/
def amend (handle : Handle) (change : Step α Ending) : Step (Table α) Ending := do
  match ← Table.update handle change with
  | none => fail .invalidHandle
  | some ending => return ending

/-- Works on the value behind `target` in place, with the one behind `source` at hand. -/
def amendFrom (target source : Handle) (change : α → Step α Ending) :
    Step (Table α) Ending := do
  match ← Table.updateFrom target source change with
  | none => fail .invalidHandle
  | some ending => return ending

/-- Takes a value in and hands its handle back. -/
def register (value : α) : Step (Table α) Ending := do
  match ← Table.insert value with
  | .ok handle => finish (.give (.handle handle))
  | .error .full => fail .internalError
  | .error (.fault cause) => crash cause

/-- Gives up the value behind `handle`. -/
def release (handle : Handle) : Step (Table α) Ending := do
  match ← Table.remove handle with
  | none => fail .invalidHandle
  | some _ => finish .done

end Operation

end PackedStore
