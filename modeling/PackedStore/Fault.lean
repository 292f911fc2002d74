/-!
# Faults

A fault is an access past the end of a store: a word, slot or element index that the store does not
have. No operation on a well-formed value meets one.
-/

namespace PackedStore

/-- An access at `index` in a store that holds `size` items. -/
structure Fault where
  /-- The position that was asked for. -/
  index : Nat
  /-- The number of items the store holds. -/
  size : Nat
deriving DecidableEq, Repr

namespace Fault

/-- The text kept when a fault stops a call. -/
def message (fault : Fault) : String :=
  s!"index out of bounds: the len is {fault.size} but the index is {fault.index}"

end Fault

end PackedStore
