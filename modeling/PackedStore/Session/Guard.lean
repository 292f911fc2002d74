import PackedStore.Session.Span
import PackedStore.Table.Access

/-!
# Guarded calls

A call works on one table under a lock. The records it writes go to the host's logger one by one,
and the logger may panic instead of taking one. The guard then ends the call: the table stays as
it was at that record and is poisoned, so that no later call reaches it, and the text of the panic
is kept.
-/

namespace PackedStore

/-- What a call hands back beside its status. -/
inductive Output where
  /-- The handle of a new value. -/
  | handle (handle : Handle)
  /-- A number of bits or elements. -/
  | count (count : UInt64)
  /-- One bit. -/
  | flag (value : Bool)
  /-- A position, or -1 for none. -/
  | position (position : Int64)
  /-- A destination of integers after the call. -/
  | ints (elements : List Int32)
  /-- A destination of single-precision patterns after the call. -/
  | floats (patterns : List UInt32)
deriving DecidableEq, Repr

/-- The end of a call as its caller sees it. -/
structure Reply where
  /-- How the call ended. -/
  status : Status
  /-- What stands at the caller's place afterwards, if the call got as far as that place. -/
  out : Option Output := none
deriving DecidableEq, Repr

namespace Reply

/-- A success that hands nothing back. -/
def done : Reply := ⟨.ok, none⟩

/-- A success that hands `output` back. -/
def give (output : Output) : Reply := ⟨.ok, some output⟩

/-- A failure. -/
def failed (status : Status) : Reply := ⟨status, none⟩

end Reply

/-! ## The host's logger -/

/-- What a panic carries. -/
inductive Payload where
  /-- A text. -/
  | text (message : String)
  /-- Anything else. -/
  | other
deriving DecidableEq, Repr

namespace Payload

/-- The text kept of a panic. -/
def message : Payload → String
  | text message => message
  | other => "non-string panic payload"

end Payload

/-- A logger set to panic once. -/
structure Trap where
  /-- The number of records the logger still takes before it panics. -/
  spared : Nat
  /-- What the panic carries. -/
  payload : Payload
deriving DecidableEq, Repr

/-- How handing records to the logger went. -/
inductive Delivery (σ : Type) where
  /-- The logger took all records. -/
  | complete (records : List Record) (trap : Option Trap)
  /-- The logger took `records` and panicked at the next one, written when the store was
  `store`. -/
  | cut (records : List Record) (store : σ) (payload : Payload)

/-- Hands the records of a step to the logger. -/
def deliver {σ : Type} (trap : Option Trap) (written : List (Entry σ)) : Delivery σ :=
  match trap with
  | none => .complete (written.map (·.record)) none
  | some trap =>
      match written[trap.spared]? with
      | none =>
          .complete (written.map (·.record))
            (some { trap with spared := trap.spared - written.length })
      | some entry =>
          .cut ((written.take trap.spared).map (·.record)) entry.store trap.payload

/-! ## One call on one table -/

/-- A table and whether a panic has poisoned it. -/
structure Guarded (α : Type) where
  /-- The table. -/
  table : Table α
  /-- Whether a call was cut short while it held the table. -/
  poisoned : Bool := false
deriving DecidableEq, Repr

/-- The end of work on a table: a reply, or the fault that stopped it. -/
abbrev Ending : Type :=
  Except Fault Reply

/-- What a call does to a table of values of type `α`. -/
inductive Operation (α : Type) where
  /-- The call is refused before it reaches the table. -/
  | refused (status : Status)
  /-- The call works on the table. When the answer has no place to go to (`placed` is false), the
  work is done all the same, and only then refused, also when the table was poisoned. -/
  | work (body : Step (Table α) Ending) (placed : Bool)

/-- Everything that one call leaves behind. -/
structure Outcome (α : Type) where
  /-- The table after the call. -/
  guarded : Guarded α
  /-- What the caller sees. -/
  reply : Reply
  /-- The records the logger took, oldest first. -/
  records : List Record
  /-- The logger's trap after the call. -/
  trap : Option Trap
  /-- The text of the panic that cut the call short, if one did. -/
  panic : Option String

namespace Operation

variable {α : Type}

/-- The end of work whose answer may lack a place. -/
def settle (placed : Bool) (reply : Reply) : Reply :=
  if placed then reply else .failed .invalidArgument

/-- The end of a call cut short: the store of that moment, poisoned, and a last record. -/
def cutShort (store : Table α) (records : List Record) (trap : Option Trap) (message : String) :
    Outcome α :=
  { guarded := ⟨store, true⟩
    reply := .failed .panicked
    records := records ++ [.caught message]
    trap := trap
    panic := some message }

/-- Performs a call on a guarded table. -/
def perform (operation : Operation α) (guarded : Guarded α) (trap : Option Trap) : Outcome α :=
  match operation with
  | refused status => ⟨guarded, .failed status, [], trap, none⟩
  | work body placed =>
      if guarded.poisoned then
        ⟨guarded, settle placed (.failed .internalError), [], trap, none⟩
      else
        let trace := body.run guarded.table
        match deliver trap trace.written with
        | .cut records store payload => cutShort store records none payload.message
        | .complete records trap =>
            match trace.value with
            | .error fault => cutShort trace.store records trap fault.message
            | .ok reply => ⟨⟨trace.store, false⟩, settle placed reply, records, trap, none⟩

end Operation

end PackedStore
