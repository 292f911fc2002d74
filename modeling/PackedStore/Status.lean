import PackedStore.BitSet.Basic
import PackedStore.BurstBuffer

/-!
# Statuses

Every call of a session ends in a status. Zero is success, every failure is negative, and the codes
are fixed.
-/

namespace PackedStore

/-- How a call ended. -/
inductive Status where
  /-- The call did its work. -/
  | ok
  /-- A handle names no live value of the call's kind. -/
  | invalidHandle
  /-- A position lies outside the bit set. -/
  | outOfRange
  /-- A destination has another size than the buffer laid out in it. -/
  | capacityMismatch
  /-- A place or array is missing, a bound is negative, or a range is inverted. -/
  | invalidArgument
  /-- A bit set would outgrow its limit. -/
  | lengthLimitExceeded
  /-- The table is full, or an earlier call left it poisoned. -/
  | internalError
  /-- The call was cut short. -/
  | panicked
deriving DecidableEq, Repr

namespace Status

/-- The code of a status. -/
def code : Status → Int32
  | ok => 0
  | invalidHandle => -1
  | outOfRange => -2
  | capacityMismatch => -3
  | invalidArgument => -4
  | lengthLimitExceeded => -5
  | internalError => -20
  | panicked => -128

/-- The published name of a status. -/
def name : Status → String
  | ok => "Ok"
  | invalidHandle => "InvalidHandle"
  | outOfRange => "OutOfRange"
  | capacityMismatch => "CapacityMismatch"
  | invalidArgument => "InvalidArgument"
  | lengthLimitExceeded => "LengthLimitExceeded"
  | internalError => "InternalError"
  | panicked => "Panicked"

end Status

namespace BitSet.Error

/-- The status that reports an error of a bit set. -/
def status : BitSet.Error → Status
  | outOfRange .. => .outOfRange
  | invalidRange .. => .invalidArgument
  | limitExceeded .. => .lengthLimitExceeded
  | fault _ => .panicked

end BitSet.Error

namespace BurstBuffer.Error

/-- The status that reports an error of a buffer. -/
def status : BurstBuffer.Error → Status
  | capacityMismatch .. => .capacityMismatch
  | fault _ => .panicked

end BurstBuffer.Error

end PackedStore
