import PackedStore.Session.Basic

/-!
# Dumping a bit set

A bit set is read out through its calls alone: its size, its number of ones, and a walk that asks
for the next one until there is none.
-/

namespace PackedStore

/-- A bit set as read out through its calls. -/
structure Dump where
  /-- The number of bits. -/
  length : UInt64
  /-- The number of true bits. -/
  cardinality : UInt64
  /-- The true positions, ascending. -/
  positions : List Nat
deriving DecidableEq, Repr

namespace Session

/-- A query on a bit set that hands a number back, zero if it fails. -/
def count (session : Session) (query : BitSetCall) : Session × UInt64 :=
  let (session, answer) := session.call (.bitSet query)
  match answer.reply.out with
  | some (.count count) => (session, count)
  | _ => (session, 0)

/-- Asks for the next one at most `steps` times; `found` holds the positions so far, latest
first. -/
def walk (session : Session) (handle : Handle) : Nat → Int64 → List Nat → Session × List Nat
  | 0, _, found => (session, found.reverse)
  | steps + 1, start, found =>
      let (session, answer) := session.call (.bitSet (.next handle start true))
      match answer.reply.out with
      | some (.position position) =>
          if position < 0 then
            (session, found.reverse)
          else
            session.walk handle steps (position + 1) (position.toInt.toNat :: found)
      | _ => (session, found.reverse)

/-- Reads a bit set out. The answer is that of the size query; a dump comes with it if it
succeeded. -/
def dump (session : Session) (handle : Handle) : Session × Answer × Option Dump :=
  let (session, answer) := session.call (.bitSet (.size handle true))
  match answer.reply.out with
  | some (.count length) =>
      let (session, cardinality) := session.count (.cardinality handle true)
      let (session, positions) := session.walk handle (cardinality.toNat + 1) 0 []
      (session, answer, some ⟨length, cardinality, positions⟩)
  | _ => (session, answer, none)

end Session

end PackedStore
