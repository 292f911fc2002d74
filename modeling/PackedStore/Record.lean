import PackedStore.Handle

/-!
# Log records

What the library tells the host about its work. A record is kept as what happened; `line` gives the
text that the host receives, its level first.
-/

namespace PackedStore

/-- The importance of a log record. -/
inductive Level where
  | trace
  | debug
  | warn
  | error
deriving DecidableEq, Repr

namespace Level

/-- The level's name as it stands in front of a record. -/
def label : Level → String
  | trace => "TRACE"
  | debug => "DEBUG"
  | warn => "WARN"
  | error => "ERROR"

end Level

/-- One log record. -/
inductive Record where
  /-- Flipping `[start, stop)` needs more than the `length` bits the set has. -/
  | growing (start stop length : Nat)
  /-- A table of `kind` took a value and gave out `handle`. -/
  | created (kind : String) (handle : Handle)
  /-- A table of `kind` gave up the value behind `handle`. -/
  | destroyed (kind : String) (handle : Handle)
  /-- `handle` carries the tag of another table. -/
  | foreign (kind : String) (handle : Handle)
  /-- `handle` names no live value. -/
  | stale (kind : String) (handle : Handle)
  /-- One of two handles used together names no live value. -/
  | stalePair (kind : String) (target source : Handle)
  /-- Every one of the table's `slots` slots is taken. -/
  | full (kind : String) (slots : Nat)
  /-- A call was cut short, and `message` says why. -/
  | caught (message : String)
deriving DecidableEq, Repr

namespace Record

/-- The level at which a record is written. -/
def level : Record → Level
  | growing .. => .trace
  | created .. | destroyed .. => .debug
  | foreign .. | stale .. | stalePair .. => .warn
  | full .. | caught .. => .error

/-- The text of a record. -/
def text : Record → String
  | growing start stop length =>
      s!"flip [{start}, {stop}) grows bit set from {length} bits"
  | created kind handle => s!"{kind} created: handle {handle.text}"
  | destroyed kind handle => s!"{kind} destroyed: handle {handle.text}"
  | foreign kind handle => s!"{kind}: handle {handle.text} belongs to another table"
  | stale kind handle => s!"{kind}: stale or unknown handle {handle.text}"
  | stalePair kind target source =>
      s!"{kind}: stale or unknown handle in pair {target.text}/{source.text}"
  | full kind slots => s!"{kind} table full: {slots} live handles"
  | caught message => s!"panic caught at the chunkbits FFI boundary: {message}"

/-- A record as the host sees it: the level, a blank and the text. -/
def line (record : Record) : String :=
  s!"{record.level.label} {record.text}"

end Record

end PackedStore
