import PackedStore.BitSet.Update
import PackedStore.Session.Work

/-!
# Calls on bit sets

The calls that a session offers on its bit sets, with the order in which each checks its arguments.
Places and arrays that are missing are refused before the table is reached, except by the four
queries, which notice a missing place only after their work; the handle is looked up before any
position is judged.
-/

namespace PackedStore

/-- A call on a table of bit sets. The flag `placed` tells whether the caller gave the answer a
place to go to. -/
inductive BitSetCall where
  /-- Makes a set of `length` false bits with the given limit, or the usual one. -/
  | create (length : UInt64) (limit : Option UInt64) (placed : Bool)
  /-- Makes a copy of a set, its limit included. -/
  | clone (handle : Handle) (placed : Bool)
  /-- Gives a set up. -/
  | destroy (handle : Handle)
  /-- Asks for the number of bits. -/
  | size (handle : Handle) (placed : Bool)
  /-- Asks for the number of true bits. -/
  | cardinality (handle : Handle) (placed : Bool)
  /-- Asks for one bit. -/
  | get (handle : Handle) (position : Int64) (placed : Bool)
  /-- Asks for the lowest true position from `start` on. -/
  | next (handle : Handle) (start : Int64) (placed : Bool)
  /-- Makes one bit true. -/
  | set (handle : Handle) (position : Int64)
  /-- Makes one bit false. -/
  | clear (handle : Handle) (position : Int64)
  /-- Makes all listed bits true; the positions are 32-bit integers. -/
  | setInts (handle : Handle) (positions : Span Int32)
  /-- Makes all listed bits true; the positions are 64-bit integers. -/
  | setLongs (handle : Handle) (positions : Span Int64)
  /-- Toggles the bits of `[start, stop)`. -/
  | flip (handle : Handle) (start stop : Int64)
  /-- Replaces a set by its conjunction with another. -/
  | intersect (handle other : Handle)
  /-- Replaces a set by its disjunction with another. -/
  | unite (handle other : Handle)
deriving DecidableEq, Repr

namespace BitSetCall

open Operation

/-- The limit asked for, or the usual one. -/
def limitOf : Option UInt64 → BitSet.Limit
  | none => {}
  | some maxLength => ⟨maxLength.toNat⟩

/-- The end of a failed operation on a bit set. -/
def failure : BitSet.Error → Ending
  | .fault cause => .error cause
  | error => .ok (.failed error.status)

/-- Ends with the answer of a query, or in its failure. -/
def answer {β : Type} (result : Except BitSet.Error β) (output : β → Output) :
    Step (Table BitSet) Ending :=
  match result with
  | .ok value => finish (.give (output value))
  | .error error => return failure error

/-- Applies an update in place and ends as it ends. -/
def applyUpdate (update : BitSet.Update Unit) : Step BitSet Ending := do
  match update.run (← Step.read) with
  | .ok _ bits =>
      Step.replace bits
      finish .done
  | .error error bits =>
      Step.replace bits
      return failure error

/-- Goes on with an argument that must not be negative. -/
def withNatural {σ : Type} (value : Int64) (otherwise : Status) (next : Nat → Step σ Ending) :
    Step σ Ending :=
  match value.toInt.toNat? with
  | none => fail otherwise
  | some natural => next natural

/-- The 64-bit position of a scan's find, -1 for none. -/
def positionOf : Option Nat → Int64
  | none => -1
  | some position => Int64.ofNat position

/-- Makes all listed bits true, unless one of the positions is negative. -/
def setAll (positions : List Int) : Step BitSet Ending :=
  match positions.mapM Int.toNat? with
  | none => fail .outOfRange
  | some naturals => applyUpdate (BitSet.setAll naturals)

/-- The call that makes all listed bits true. -/
def setSpan (handle : Handle) (positions : Except Status (List Int)) : Operation BitSet :=
  match positions with
  | .error status => .refused status
  | .ok positions => .work (amend handle (setAll positions)) true

/-- Toggles a range. -/
def flipRange (start stop : Int64) : Step BitSet Ending :=
  withNatural start .invalidArgument fun start =>
    withNatural stop .invalidArgument fun stop => do
      let bits ← Step.read
      Step.write? (bits.flipRecord start stop)
      applyUpdate (BitSet.flip start stop)

/-- Combines the set behind `handle` with the one behind `other`. A set combined with itself stays
as it is. -/
def combine (operation : BitSet → BitSet.Update Unit) (handle other : Handle) :
    Step (Table BitSet) Ending :=
  if handle = other then
    withValue handle fun _ => finish .done
  else
    amendFrom handle other fun source => applyUpdate (operation source)

/-- What a call does to the table of bit sets. -/
def operation : BitSetCall → Operation BitSet
  | create length limit placed =>
      if placed then
        match BitSet.zeros length.toNat (limitOf limit) with
        | .ok bits => .work (register bits) true
        | .error error => .refused error.status
      else
        .refused .invalidArgument
  | clone handle placed =>
      if placed then .work (withValue handle register) true else .refused .invalidArgument
  | destroy handle => .work (release handle) true
  | size handle placed =>
      .work (withValue handle fun bits =>
        finish (.give (.count (UInt64.ofNat bits.length)))) placed
  | cardinality handle placed =>
      .work (withValue handle fun bits =>
        finish (.give (.count (UInt64.ofNat bits.cardinality)))) placed
  | get handle position placed =>
      .work (withValue handle fun bits =>
        withNatural position .outOfRange fun index => answer (bits.get index) .flag) placed
  | next handle start placed =>
      .work (withValue handle fun bits =>
        withNatural start .invalidArgument fun start =>
          answer (bits.nextOne? start) fun found => .position (positionOf found)) placed
  | set handle position =>
      .work (amend handle
        (withNatural position .outOfRange fun index => applyUpdate (BitSet.set index))) true
  | clear handle position =>
      .work (amend handle
        (withNatural position .outOfRange fun index => applyUpdate (BitSet.clear index))) true
  | setInts handle positions =>
      setSpan handle (positions.elements.map (·.map (·.toInt)))
  | setLongs handle positions =>
      setSpan handle (positions.elements.map (·.map (·.toInt)))
  | flip handle start stop => .work (amend handle (flipRange start stop)) true
  | intersect handle other => .work (combine BitSet.intersect handle other) true
  | unite handle other => .work (combine BitSet.unite handle other) true

end BitSetCall

end PackedStore
