import PackedStore.BitSet.Basic
import PackedStore.BitSet.Cursor
import PackedStore.BitSet.Update
import PackedStore.BitSet.View
import PackedStore.BurstBuffer
import PackedStore.Fault
import PackedStore.Flags
import PackedStore.Handle
import PackedStore.Record
import PackedStore.Runs
import PackedStore.Sampling.ChaCha
import PackedStore.Sampling.Draw
import PackedStore.Session.Basic
import PackedStore.Session.BitSetCall
import PackedStore.Session.BufferCall
import PackedStore.Session.Dump
import PackedStore.Session.Guard
import PackedStore.Session.PanicText
import PackedStore.Session.Span
import PackedStore.Session.Work
import PackedStore.Status
import PackedStore.Step
import PackedStore.Table.Access
import PackedStore.Table.Basic
import PackedStore.Word
import PackedStore.Proofs.BitSet.Effect
import PackedStore.Proofs.BitSet.Mirror
import PackedStore.Proofs.BitSet.History
import PackedStore.Proofs.BitSet.Representation
import PackedStore.Proofs.Packing
import PackedStore.Proofs.Table.Slots
import PackedStore.Proofs.Table.Issue
import PackedStore.Proofs.BitSet.Question
import PackedStore.Proofs.Layout
import PackedStore.Proofs.Session.BitSetService
import PackedStore.Proofs.Session.BufferService
import PackedStore.Proofs.Session.Observation
import PackedStore.Proofs.Table.Family
import PackedStore.Proofs.Session.Kind
import PackedStore.Proofs.Session.Armed
import PackedStore.Proofs.Session.Orderly
import PackedStore.Proofs.Session.BitSetVerdict
import PackedStore.Proofs.Session.BufferVerdict
import PackedStore.Proofs.Session.Atomic
import PackedStore.Proofs.Session.Containment
import PackedStore.Proofs.Table.Accounting
import PackedStore.Proofs.Shelf
import PackedStore.Proofs.Machine.Arithmetic
import PackedStore.Proofs.Machine.BitSet
import PackedStore.Proofs.Machine.Store
import PackedStore.Proofs.Session.Steady
import PackedStore.Proofs.BitSet.Canonical
import PackedStore.Proofs.BitSet.Order
import PackedStore.Proofs.Session.Report
import PackedStore.Proofs.Session.Unplaced
import PackedStore.Proofs.BitSet.Cardinality
import PackedStore.Proofs.BitSet.Enumeration
import PackedStore.Proofs.BitSet.Algebra
import PackedStore.Proofs.Machine.Cursor
import PackedStore.Proofs.BitSet.Equality
import PackedStore.Proofs.BitSet.Marking
import PackedStore.Proofs.Session.Marking
import PackedStore.Proofs.Table.Pair
import PackedStore.Proofs.Session.SelfCombination
import PackedStore.Proofs.Session.Stored
import PackedStore.Proofs.Session.Search
import PackedStore.Proofs.Session.LatestPanic
import PackedStore.Proofs.Sampling.Bursts
import PackedStore.Proofs.Sampling.Scattered
