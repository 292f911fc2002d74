import PackedStore.Proofs.Session.BitSetVerdict

/-!
# What tables store, cut short or not

A call may be cut short at any record that it writes, and then leaves its table as it was at that
record. What is to hold of every stored value, whether a caller can still reach it or not, has to
hold at every record as well as at the end of every call.
-/

namespace PackedStore

variable {σ α ν β : Type}

/-- Where the work ended, and wherever it may have been cut short, `holds` holds of the store. -/
structure Trace.Within (holds : σ → Prop) (trace : Trace σ β) : Prop where
  /-- At the end. -/
  store : holds trace.store
  /-- At every record. -/
  written : ∀ entry ∈ trace.written, holds entry.store

/-! ## Slots -/

namespace Table

variable {table : Table α} {fits : α → Prop} {value : α}

/-- Every value in a slot of the table fits. -/
def Stores (table : Table α) (fits : α → Prop) : Prop :=
  ∀ (index : Nat) (generation : UInt32) (value : α),
    table.slots[index]? = some ⟨generation, some value⟩ → fits value

theorem stores_empty (kind : String) (tag : UInt8) (fits : α → Prop) :
    (empty kind tag : Table α).Stores fits := by
  intro index generation value stored
  simp [empty] at stored

theorem Stores.of_find? (stores : table.Stores fits) {handle : Handle}
    (found : table.find? handle = some value) : fits value :=
  stores _ _ _ (find?_eq_some_iff.mp found).2

theorem Stores.fill (stores : table.Stores fits) (index : Nat) (ready : fits value) :
    (table.fill index value).Stores fits := by
  intro other generation kept stored
  rw [Table.fill, Array.getElem?_modify] at stored
  split at stored
  · obtain ⟨slot, -, filled⟩ := Option.map_eq_some_iff.mp stored
    obtain rfl : value = kept := Option.some.inj (congrArg Slot.value filled)
    exact ready
  · exact stores other generation kept stored

theorem Stores.vacate (stores : table.Stores fits) (index : Nat) (generation : UInt32) :
    (table.vacate index generation).Stores fits := by
  intro other later kept stored
  rw [Table.vacate, Array.getElem?_setIfInBounds] at stored
  split at stored
  · split at stored
    · have vacant : none = some kept := congrArg Slot.value (Option.some.inj stored)
      exact absurd vacant.symm (Option.some_ne_none kept)
    · exact absurd stored.symm (Option.some_ne_none _)
  · exact stores other later kept stored

theorem Stores.push (stores : table.Stores fits) (generation : UInt32) (ready : fits value) :
    ({ table with slots := table.slots.push ⟨generation, some value⟩ } : Table α).Stores fits := by
  intro other later kept stored
  rw [Array.getElem?_push] at stored
  split at stored
  · obtain rfl : value = kept := Option.some.inj (congrArg Slot.value (Option.some.inj stored))
    exact ready
  · exact stores other later kept stored

/-- Work on one value in its slot stays within bounds if it does so on the value. -/
theorem Stores.within_fill (stores : table.Stores fits) (index : Nat) {trace : Trace α β}
    (within : trace.Within fits) :
    Trace.Within (·.Stores fits)
      (⟨trace.value, table.fill index trace.store,
        trace.written.map fun entry => ⟨entry.record, table.fill index entry.store⟩⟩ :
          Trace (Table α) β) where
  store := stores.fill index within.store
  written := by
    intro entry member
    obtain ⟨inner, written, rfl⟩ := List.mem_map.mp member
    exact stores.fill index (within.written inner written)

end Table

/-! ## Shapes of work -/

namespace Operation

section Shapes

variable {table : Table α} {fits : α → Prop} {handle target source : Handle}

theorem within_refused (stores : table.Stores fits) (ending : Ending) (record : Record) :
    Trace.Within (·.Stores fits) ⟨ending, table, [⟨record, table⟩]⟩ :=
  ⟨stores, fun _ member => (List.mem_singleton.mp member).symm ▸ stores⟩

theorem within_withValue (stores : table.Stores fits) {next : α → Step (Table α) Ending}
    (within : ∀ value, fits value → ((next value).run table).Within (·.Stores fits)) :
    ((withValue handle next).run table).Within (·.Stores fits) := by
  cases found : table.find? handle with
  | none =>
      rw [run_withValue_of_none found]
      exact within_refused stores _ _
  | some value =>
      rw [run_withValue_of_some found]
      exact within value (stores.of_find? found)

theorem within_amend (stores : table.Stores fits) {change : Step α Ending}
    (within : ∀ value, fits value → (change.run value).Within fits) :
    ((amend handle change).run table).Within (·.Stores fits) := by
  cases found : table.find? handle with
  | none =>
      rw [run_amend_of_none found]
      exact within_refused stores _ _
  | some value =>
      rw [run_amend_of_some found]
      exact stores.within_fill _ (within value (stores.of_find? found))

theorem within_amendFrom (stores : table.Stores fits) {change : α → Step α Ending}
    (within : ∀ beside value, fits beside → fits value →
      ((change beside).run value).Within fits) :
    ((amendFrom target source change).run table).Within (·.Stores fits) := by
  rcases Decidable.em (table.find? target = none ∨ table.find? source = none ∨
      target = source) with missing | both
  · rw [run_amendFrom_of_none missing]
    refine ⟨stores, fun entry member => ?_⟩
    obtain ⟨record, -, rfl⟩ := List.mem_map.mp member
    exact stores
  · simp only [not_or, ← ne_eq, Option.ne_none_iff_exists'] at both
    obtain ⟨⟨value, found⟩, ⟨beside, foundBeside⟩, distinct⟩ := both
    rw [run_amendFrom_of_some found foundBeside distinct]
    exact stores.within_fill _
      (within beside value (stores.of_find? foundBeside) (stores.of_find? found))

theorem within_register (stores : table.Stores fits) {value : α} (ready : fits value) :
    ((register value).run table).Within (·.Stores fits) := by
  have announced : ∀ {after : Table α} (reply : Reply) (record : Record), after.Stores fits →
      Trace.Within (·.Stores fits) (⟨.ok reply, after, [⟨record, after⟩]⟩ : Trace _ Ending) :=
    fun reply record kept => within_refused kept (.ok reply) record
  cases top : table.free with
  | cons index free =>
      cases present : table.slots[index]? with
      | none =>
          have crashed : (register value).run table =
              ⟨.error ⟨index, table.slots.size⟩, table, []⟩ := by
            simp only [register, Table.insert, Step.run_bind, Step.run_read, top, present]
            rfl
          rw [crashed]
          exact ⟨stores, fun _ member => absurd member List.not_mem_nil⟩
      | some slot =>
          rw [run_register_of_ok (Table.run_insert_of_free top present value)]
          have kept : ({ table.fill index value with free } : Table α).Stores fits :=
            stores.fill index ready
          exact announced _ _ kept
  | nil =>
      rcases Nat.lt_or_ge table.slots.size Table.maxSlots with room | full
      · rw [run_register_of_ok (Table.run_insert_of_room top room value)]
        exact announced _ _ (stores.push 1 ready)
      · rw [run_register_of_full (Table.run_insert_of_full top full value)]
        exact announced _ _ stores

theorem within_release (stores : table.Stores fits) :
    ((release handle).run table).Within (·.Stores fits) := by
  cases found : table.find? handle with
  | none =>
      rw [run_release_of_none found]
      exact within_refused stores _ _
  | some value =>
      rw [run_release_of_some found]
      exact within_refused (stores.vacate _ _) _ _

end Shapes

/-! ## Calls -/

/-- From a table that stores only values that fit, the call never comes to another table. -/
def Keeps (operation : Operation α) (fits : α → Prop) : Prop :=
  match operation with
  | refused _ => True
  | work body _ => ∀ table : Table α, table.Stores fits → (body.run table).Within (·.Stores fits)

theorem exists_entry_of_deliver_eq_cut {trap : Option Trap} {written : List (Entry σ)}
    {records : List Record} {store : σ} {payload : Payload}
    (cut : deliver trap written = .cut records store payload) :
    ∃ entry ∈ written, entry.store = store := by
  cases trap with
  | none => exact nomatch cut
  | some trap =>
      cases spared : written[trap.spared]? with
      | none => simp [deliver, spared] at cut
      | some entry =>
          simp only [deliver, spared, Delivery.cut.injEq] at cut
          exact ⟨entry, List.mem_of_getElem? spared, cut.2.1⟩

/-- Whatever the logger is set to, and whether the table was poisoned before or is so now, a call
leaves only values that fit. -/
theorem Keeps.stores_perform {operation : Operation α} {fits : α → Prop}
    (keeps : operation.Keeps fits) {guarded : Guarded α} (stores : guarded.table.Stores fits)
    (trap : Option Trap) : (operation.perform guarded trap).guarded.table.Stores fits := by
  cases operation with
  | refused status => exact stores
  | work body placed =>
      have within := keeps guarded.table stores
      unfold perform
      dsimp only
      split
      · exact stores
      · split
        · next cut =>
            obtain ⟨entry, member, rfl⟩ := exists_entry_of_deliver_eq_cut cut
            exact within.written entry member
        · split
          · exact within.store
          · exact within.store

end Operation

/-! ## Bit sets -/

namespace BitSetCall

open Operation

/-- Every record of the work is written before anything changes. -/
def Early (change : Step BitSet Ending) : Prop :=
  ∀ before, ∀ entry ∈ (change.run before).written, entry.store = before

theorem early_fail (status : Status) : Early (fail status) :=
  fun _ _ => nofun

theorem early_applyUpdate (update : BitSet.Update Unit) : Early (applyUpdate update) := by
  intro before entry member
  rw [written_applyUpdate] at member
  exact nomatch member

theorem early_withNatural {next : Nat → Step BitSet Ending}
    (early : ∀ natural, Early (next natural)) (value : Int64) (otherwise : Status) :
    Early (withNatural value otherwise next) := by
  rw [withNatural_eq]
  split
  · exact early_fail otherwise
  · exact early _

theorem early_setAll (positions : List Int) : Early (setAll positions) := by
  rw [setAll_eq]
  split
  · exact early_fail .outOfRange
  · exact early_applyUpdate _

theorem early_flipRange (start stop : Int64) : Early (flipRange start stop) := by
  refine early_withNatural (fun start => early_withNatural (fun stop => ?_) stop _) start _
  intro before entry member
  rw [Step.run_bind, Step.run_read] at member
  dsimp only at member
  cases noted : before.flipRecord start stop with
  | none =>
      rw [noted] at member
      exact early_applyUpdate _ before entry member
  | some record =>
      simp only [noted, Step.run_bind, Step.write?, Step.run_write, written_applyUpdate] at member
      exact congrArg Entry.store (List.mem_singleton.mp member)

/-- A change that serves its caller keeps the set fit, wherever it is cut short. -/
theorem within_of_amends {change : Step BitSet Ending} {rewrite : Snapshot → Option Snapshot}
    (amends : Amends change BitSet.reading rewrite) (early : Early change) {bits : BitSet}
    (fits : bits.Fits) : (change.run bits).Within BitSet.Fits where
  store := by
    rcases amends bits fits with ⟨after, written, ran, kept, -⟩ | ⟨status, written, ran, -⟩
    · rw [ran]
      exact kept
    · rw [ran]
      exact fits
  written := by
    intro entry member
    rw [early bits entry member]
    exact fits

theorem keeps_amend {change : Step BitSet Ending} {rewrite : Snapshot → Option Snapshot}
    (amends : Amends change BitSet.reading rewrite) (early : Early change) (handle : Handle) :
    (work (amend handle change) true).Keeps BitSet.Fits :=
  fun _ stores => within_amend stores fun _ fits => within_of_amends amends early fits

/-- A call that ends right away, whatever set it finds, stores nothing. -/
theorem keeps_withValue {next : BitSet → Step (Table BitSet) Ending} (handle : Handle)
    (placed : Bool) (looks : ∀ bits : BitSet, bits.Fits → ∃ reply, next bits = finish reply) :
    (work (withValue handle next) placed).Keeps BitSet.Fits := by
  intro table stores
  refine within_withValue stores fun bits fits => ?_
  obtain ⟨reply, ends⟩ := looks bits fits
  rw [ends]
  exact ⟨stores, nofun⟩

theorem keeps_setSpan {ι : Type} (handle : Handle) (positions : Span ι) {toInt : ι → Int}
    (small : ∀ element, toInt element < 2 ^ 63) :
    (setSpan handle (positions.elements.map (·.map toInt))).Keeps BitSet.Fits := by
  cases positions.elements with
  | error status => trivial
  | ok elements =>
      exact keeps_amend (amends_setAll (span_small small elements)) (early_setAll _) handle

theorem keeps_combine {update : BitSet → BitSet.Update Unit} {operation : Bool → Bool → Bool}
    (mirrors : ∀ {other : BitSet}, other.WellFormed → BitSet.Mirrors (update other) fun flags =>
      some (flags.combine operation other.toFlags))
    (idempotent : ∀ value, operation value value = value) (handle other : Handle) :
    (work (combine update handle other) true).Keeps BitSet.Fits := by
  unfold combine
  split
  · exact keeps_withValue handle true fun _ _ => ⟨.done, rfl⟩
  · intro table stores
    refine within_amendFrom stores fun beside bits fitsBeside fits => ?_
    exact within_of_amends (amends_combine mirrors idempotent fitsBeside) (early_applyUpdate _) fits

/-- No call on bit sets ever stores a set that does not fit, not even one that is cut short. -/
theorem keeps (call : BitSetCall) : call.operation.Keeps BitSet.Fits := by
  cases call with
  | create length limit placed =>
      cases placed with
      | false => trivial
      | true =>
          cases made : BitSet.zeros length.toNat (limitOf limit) with
          | error error =>
              simp only [operation, made, if_true]
              trivial
          | ok bits =>
              simp only [operation, made, if_true]
              exact fun _ stores =>
                within_register stores (BitSet.fits_zeros made (limitOf_lt limit))
  | clone handle placed =>
      cases placed with
      | false => trivial
      | true => exact fun _ stores => within_withValue stores fun _ => within_register stores
  | destroy handle => exact fun _ => within_release
  | size handle placed => exact keeps_withValue handle placed fun _ _ => ⟨.give (.count _), rfl⟩
  | cardinality handle placed =>
      exact keeps_withValue handle placed fun _ _ => ⟨.give (.count _), rfl⟩
  | get handle position placed =>
      exact keeps_withValue handle placed fun _ fits => ⟨_, get_eq_finish fits position⟩
  | next handle start placed =>
      exact keeps_withValue handle placed fun _ fits => ⟨_, next_eq_finish fits start⟩
  | set handle position =>
      exact keeps_amend (amends_set position)
        (early_withNatural (fun _ => early_applyUpdate _) position _) handle
  | clear handle position =>
      exact keeps_amend (amends_clear position)
        (early_withNatural (fun _ => early_applyUpdate _) position _) handle
  | setInts handle positions =>
      exact keeps_setSpan handle positions fun element => by
        have := element.toInt_lt
        omega
  | setLongs handle positions => exact keeps_setSpan handle positions Int64.toInt_lt
  | flip handle start stop =>
      exact keeps_amend (amends_flipRange start stop) (early_flipRange start stop) handle
  | intersect handle other =>
      exact keeps_combine BitSet.mirrors_intersect Bool.and_self handle other
  | unite handle other => exact keeps_combine BitSet.mirrors_unite Bool.or_self handle other

end BitSetCall

namespace Session

variable {session : Session}

theorem stores_call (stores : session.bitSets.table.Stores BitSet.Fits) (call : Call) :
    (session.call call).1.bitSets.table.Stores BitSet.Fits := by
  cases call with
  | bitSet call => exact call.keeps.stores_perform stores session.trap
  | intBuffer call => exact stores
  | floatBuffer call => exact stores

/-- Whatever happens to a session, its table of bit sets holds only sets that fit, also when a panic
has poisoned it. -/
theorem stores_run (stores : session.bitSets.table.Stores BitSet.Fits) (events : List Event) :
    (session.run events).bitSets.table.Stores BitSet.Fits := by
  induction events generalizing session with
  | nil => exact stores
  | cons event events induction =>
      cases event with
      | call call => exact induction (stores_call stores call)
      | arm trap => exact induction stores

end Session

end PackedStore
