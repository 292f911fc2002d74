import PackedStore.Proofs.Session.Containment
import PackedStore.Proofs.Table.Blame

/-!
# What calls report of their handles

The only warnings that a call writes are about its handles. A call that is turned away since one of
them names nothing writes one warning, which names that handle, with one exception: two handles that
contend for a slot are turned away without a word.
-/

namespace PackedStore

variable {σ α β : Type}

/-- The records of a trace, oldest first. -/
def Trace.records (trace : Trace σ β) : List Record :=
  trace.written.map (·.record)

/-! ## Steps that never warn -/

namespace Step

/-- The step never writes a warning. -/
def Quiet (step : Step σ β) : Prop :=
  ∀ before, ∀ record ∈ (step.run before).records, record.level ≠ .warn

variable {γ : Type} {step : Step σ β} {next : β → Step σ γ}

theorem quiet_of_silent (silent : ∀ before, (step.run before).written = []) : step.Quiet := by
  intro before record member
  rw [Trace.records, silent] at member
  exact nomatch member

theorem quiet_pure (value : β) : (pure value : Step σ β).Quiet :=
  quiet_of_silent fun _ => rfl

theorem quiet_read : (read : Step σ σ).Quiet :=
  quiet_of_silent fun _ => rfl

theorem quiet_replace (store : σ) : (replace store).Quiet :=
  quiet_of_silent fun _ => rfl

theorem quiet_write (record : Record) (mild : record.level ≠ .warn) :
    (write record : Step σ Unit).Quiet := by
  intro before other member
  obtain rfl := List.mem_singleton.mp member
  exact mild

theorem Quiet.bind (first : step.Quiet) (second : ∀ value, (next value).Quiet) :
    (step >>= next).Quiet := by
  intro before record member
  rw [Trace.records, run_bind, List.map_append, List.mem_append] at member
  rcases member with early | late
  · exact first before record early
  · exact second _ _ record late

end Step

namespace Operation

theorem quiet_finish (reply : Reply) : (finish reply : Step σ Ending).Quiet :=
  Step.quiet_pure _

theorem quiet_fail (status : Status) : (fail status : Step σ Ending).Quiet :=
  quiet_finish _

theorem quiet_insert (value : α) : (Table.insert value).Quiet := by
  have announces : ∀ handle, (Table.announce handle : Step (Table α) _).Quiet := fun handle =>
    Step.quiet_read.bind fun table =>
      (Step.quiet_write (.created table.kind handle) nofun).bind fun _ => Step.quiet_pure _
  refine Step.quiet_read.bind fun table => ?_
  split
  · split
    · exact Step.quiet_pure _
    · exact (Step.quiet_replace _).bind fun _ => announces _
  · split
    · exact (Step.quiet_write (.full table.kind Table.maxSlots) nofun).bind fun _ =>
        Step.quiet_pure _
    · exact (Step.quiet_replace _).bind fun _ => announces _

theorem quiet_register (value : α) : (register value).Quiet := by
  refine (quiet_insert value).bind fun inserted => ?_
  split
  · exact quiet_finish _
  · exact quiet_fail _
  · exact Step.quiet_pure _

end Operation

/-! ## Tables -/

/-- The records tell of `handles` what a table tells of them: of live handles nothing, of contending
handles nothing at all, and otherwise one warning. -/
structure Table.Reports (table : Table α) (handles : List Handle) (records : List Record) :
    Prop where
  /-- A handle that names nothing is blamed. -/
  blames : (∃ handle ∈ handles, table.find? handle = none) → ¬table.Contested handles →
    table.Blames handles records
  /-- Handles that contend for a slot leave no record. -/
  silent : table.Contested handles → records = []
  /-- If every handle names something, nothing is warned of. -/
  quiet : (∀ handle ∈ handles, table.find? handle ≠ none) →
    ∀ record ∈ records, record.level ≠ .warn

namespace Table

variable {table : Table α} {handle : Handle} {handles others : List Handle}
  {records : List Record}

theorem reports_of_live (live : ∀ handle ∈ handles, table.find? handle ≠ none)
    (quiet : ∀ record ∈ records, record.level ≠ .warn) : table.Reports handles records where
  blames := by
    rintro ⟨handle, member, missing⟩
    exact absurd missing (live handle member)
  silent := by
    intro contested
    obtain ⟨handle, member, missing⟩ := contested.exists_none
    exact absurd missing (live handle member)
  quiet := fun _ => quiet

theorem reports_refusal (missing : table.find? handle = none) :
    table.Reports [handle] [table.refusal handle] where
  blames := fun _ _ => blames_refusal (List.mem_singleton_self handle) missing
  silent := fun contested => absurd contested (not_contested_of_length_le (Nat.le_refl 1))
  quiet := fun live => absurd missing (live handle (List.mem_singleton_self handle))

theorem reports_pairRefusal? {target source : Handle} (distinct : target ≠ source)
    (missing : table.find? target = none ∨ table.find? source = none) :
    table.Reports [target, source] (table.pairRefusal? target source).toList where
  blames := fun _ => blames_pairRefusal? missing distinct
  silent := by
    intro contested
    rw [pairRefusal?_of_contested distinct contested]
    rfl
  quiet := by
    intro live
    rcases missing with missing | missing
    · exact absurd missing (live target List.mem_cons_self)
    · exact absurd missing (live source (List.mem_cons_of_mem target List.mem_cons_self))

/-- What is reported does not depend on how often a handle is listed. -/
theorem Reports.of_mem_iff (reports : table.Reports handles records)
    (same : ∀ handle, handle ∈ handles ↔ handle ∈ others) : table.Reports others records := by
  obtain ⟨blames, silent, quiet⟩ := reports
  simp only [Contested, Blames, same] at blames silent quiet
  exact ⟨blames, silent, quiet⟩

end Table

/-! ## Shapes of work -/

namespace Operation

/-- The work reports what a table tells of `handles`, whatever table it works on; a call that does
not reach the table does not complain of a handle. -/
def Reports (operation : Operation α) (handles : List Handle) : Prop :=
  match operation with
  | refused status => status ≠ .invalidHandle
  | work body _ => ∀ table : Table α, table.Reports handles (body.run table).records

variable {handle target source : Handle} {handles : List Handle} {placed : Bool}

theorem reports_refused {status : Status} (other : status ≠ .invalidHandle) :
    (refused status : Operation α).Reports handles :=
  other

/-- A call without what it needs does not complain of a handle. -/
theorem reports_invalidArgument : (refused .invalidArgument : Operation α).Reports handles :=
  reports_refused (by decide)

theorem records_fill (table : Table α) (index : Nat) (trace : Trace α Ending) :
    (⟨trace.value, table.fill index trace.store,
      trace.written.map fun entry => ⟨entry.record, table.fill index entry.store⟩⟩ :
        Trace (Table α) Ending).records = trace.records :=
  List.map_map

theorem reports_register (value : α) : (work (register value) placed).Reports [] :=
  fun table => Table.reports_of_live nofun (quiet_register value table)

theorem reports_withValue {next : α → Step (Table α) Ending}
    (quiet : ∀ value, (next value).Quiet) :
    (work (withValue handle next) placed).Reports [handle] := by
  intro table
  cases found : table.find? handle with
  | none =>
      rw [run_withValue_of_none found]
      exact Table.reports_refusal found
  | some value =>
      rw [run_withValue_of_some found]
      refine Table.reports_of_live ?_ (quiet value table)
      simp [found]

theorem reports_amend {change : Step α Ending} (quiet : change.Quiet) :
    (work (amend handle change) placed).Reports [handle] := by
  intro table
  cases found : table.find? handle with
  | none =>
      rw [run_amend_of_none found]
      exact Table.reports_refusal found
  | some value =>
      rw [run_amend_of_some found, records_fill]
      refine Table.reports_of_live ?_ (quiet value)
      simp [found]

theorem reports_release :
    (work (release handle : Step (Table α) Ending) placed).Reports [handle] := by
  intro table
  cases found : table.find? handle with
  | none =>
      rw [run_release_of_none found]
      exact Table.reports_refusal found
  | some value =>
      rw [run_release_of_some found]
      refine Table.reports_of_live ?_ ?_
      · simp [found]
      · intro record member
        obtain rfl := List.mem_singleton.mp member
        exact nofun

theorem reports_amendFrom {change : α → Step α Ending} (distinct : target ≠ source)
    (quiet : ∀ beside, (change beside).Quiet) :
    (work (amendFrom target source change) placed).Reports [target, source] := by
  intro table
  have of_none : (table.find? target = none ∨ table.find? source = none) →
      table.Reports [target, source] ((amendFrom target source change).run table).records := by
    intro missing
    rw [run_amendFrom_of_none (missing.imp_right .inl), Trace.records, List.map_map]
    exact (List.map_id _).symm ▸ Table.reports_pairRefusal? distinct missing
  cases found : table.find? target with
  | none => exact of_none (.inl found)
  | some value =>
      cases foundBeside : table.find? source with
      | none => exact of_none (.inr foundBeside)
      | some beside =>
          rw [run_amendFrom_of_some found foundBeside distinct, records_fill]
          refine Table.reports_of_live ?_ (quiet beside value)
          simp [found, foundBeside]

variable {operation : Operation α} {guarded : Guarded α}

/-- A call either stops before its table and writes nothing, or reports what the table tells of its
handles. -/
theorem Reports.perform (reports : operation.Reports handles)
    (calm : (operation.perform guarded none).panic = none) :
    ((operation.perform guarded none).records = [] ∧
        (operation.perform guarded none).reply.status ≠ .invalidHandle) ∨
      guarded.table.Reports handles (operation.perform guarded none).records := by
  cases operation with
  | refused status => exact .inl ⟨rfl, reports⟩
  | work body placed =>
      rcases guarded with ⟨table, _ | _⟩
      · right
        obtain ⟨reply, after, written, ran⟩ := exists_run_of_panic_eq_none calm
        have told := reports table
        rw [ran] at told
        rw [perform_work ran]
        exact told
      · left
        rw [perform_of_poisoned rfl]
        cases placed with
        | false => exact ⟨rfl, nofun⟩
        | true => exact ⟨rfl, nofun⟩

end Operation

/-! ## Calls on bit sets -/

namespace BitSetCall

open Operation

theorem status_ne_invalidHandle (error : BitSet.Error) : error.status ≠ .invalidHandle := by
  cases error <;> exact nofun

theorem quiet_answer (result : Except BitSet.Error β) (output : β → Output) :
    (answer result output).Quiet := by
  cases result with
  | ok value => exact quiet_finish _
  | error error => exact Step.quiet_pure _

theorem quiet_withNatural {next : Nat → Step σ Ending}
    (quiet : ∀ natural, (next natural).Quiet) (value : Int64) (otherwise : Status) :
    (withNatural value otherwise next).Quiet := by
  rw [withNatural_eq]
  split
  · exact quiet_fail otherwise
  · exact quiet _

theorem quiet_applyUpdate (update : BitSet.Update Unit) : (applyUpdate update).Quiet :=
  Step.quiet_of_silent (written_applyUpdate update)

theorem quiet_setAll (positions : List Int) : (setAll positions).Quiet := by
  rw [setAll_eq]
  split
  · exact quiet_fail .outOfRange
  · exact quiet_applyUpdate _

theorem quiet_flipRange (start stop : Int64) : (flipRange start stop).Quiet := by
  refine quiet_withNatural (fun start => quiet_withNatural (fun stop => ?_) stop _) start _
  refine Step.quiet_read.bind fun bits => Step.Quiet.bind ?_ fun _ => quiet_applyUpdate _
  rw [BitSet.flipRecord]
  split
  · exact Step.quiet_write (.growing start stop bits.length) nofun
  · exact Step.quiet_pure ()

theorem reports_setSpan {ι : Type} (handle : Handle) (positions : Span ι) (toInt : ι → Int) :
    (setSpan handle (positions.elements.map (·.map toInt))).Reports [handle] := by
  cases listed : positions.elements with
  | error status =>
      obtain rfl := Span.status_of_elements_eq_error listed
      exact reports_invalidArgument
  | ok elements => exact reports_amend (quiet_setAll _)

/-- A set combined with itself is looked up once. -/
theorem reports_combine (update : BitSet → BitSet.Update Unit) (handle other : Handle) :
    (work (combine update handle other) true).Reports [handle, other] := by
  rw [combine]
  split
  · next same =>
      subst same
      have once : (work (withValue handle fun _ : BitSet => finish .done) true).Reports [handle] :=
        reports_withValue fun _ => quiet_finish .done
      exact fun table => (once table).of_mem_iff (by simp)
  · next distinct =>
      exact reports_amendFrom distinct fun beside => quiet_applyUpdate (update beside)

theorem reports (call : BitSetCall) : call.operation.Reports call.handles := by
  cases call with
  | create length limit placed =>
      cases placed with
      | false => exact reports_invalidArgument
      | true =>
          rw [operation, if_pos rfl]
          cases BitSet.zeros length.toNat (limitOf limit) with
          | ok bits => exact reports_register bits
          | error error => exact reports_refused (status_ne_invalidHandle error)
  | clone handle placed =>
      cases placed with
      | false => exact reports_invalidArgument
      | true => exact reports_withValue quiet_register
  | destroy handle => exact reports_release
  | size handle placed => exact reports_withValue fun _ => quiet_finish _
  | cardinality handle placed => exact reports_withValue fun _ => quiet_finish _
  | get handle position placed =>
      exact reports_withValue fun _ => quiet_withNatural (fun _ => quiet_answer _ _) position _
  | next handle start placed =>
      exact reports_withValue fun _ => quiet_withNatural (fun _ => quiet_answer _ _) start _
  | set handle position =>
      exact reports_amend (quiet_withNatural (fun _ => quiet_applyUpdate _) position _)
  | clear handle position =>
      exact reports_amend (quiet_withNatural (fun _ => quiet_applyUpdate _) position _)
  | setInts handle positions => exact reports_setSpan handle positions (·.toInt)
  | setLongs handle positions => exact reports_setSpan handle positions (·.toInt)
  | flip handle start stop => exact reports_amend (quiet_flipRange start stop)
  | intersect handle other => exact reports_combine BitSet.intersect handle other
  | unite handle other => exact reports_combine BitSet.unite handle other

variable {guarded : Guarded BitSet} {call : BitSetCall}

theorem exists_none_of_verdict (failure : call.verdict guarded = .invalidHandle) :
    ∃ handle ∈ call.handles, guarded.table.find? handle = none := by
  by_contra live
  have found := Bool.eq_false_iff.mpr (mt Table.any_isNone_iff.mp live)
  rw [verdict, found, if_neg Bool.false_ne_true] at failure
  revert failure
  split_ifs <;> simp

theorem verdict_ne_ok (dead : ∃ handle ∈ call.handles, guarded.table.find? handle = none) :
    call.verdict guarded ≠ .ok := by
  rw [verdict, Table.any_isNone_iff.mpr dead, if_pos rfl]
  split_ifs <;> simp

theorem verdict_of_dead (unpoisoned : guarded.poisoned = false)
    (pointed : call.lacksPointer = false) (within : call.exceedsLimit = false)
    (dead : ∃ handle ∈ call.handles, guarded.table.find? handle = none) :
    call.verdict guarded = .invalidHandle := by
  rw [verdict, pointed, within, unpoisoned, Table.any_isNone_iff.mpr dead]
  rfl

/-- Only the two calls that combine sets name two handles, and they check nothing before them. -/
theorem verdict_of_contested (unpoisoned : guarded.poisoned = false)
    (contested : guarded.table.Contested call.handles) :
    call.verdict guarded = .invalidHandle := by
  cases call with
  | intersect | unite => exact verdict_of_dead unpoisoned rfl rfl contested.exists_none
  | create => exact absurd contested (Table.not_contested_of_length_le (Nat.zero_le 1))
  | clone | destroy | size | cardinality | get | next | set | clear | setInts | setLongs | flip =>
      exact absurd contested (Table.not_contested_of_length_le (Nat.le_refl 1))

end BitSetCall

/-! ## Calls on buffers -/

namespace BufferCall

open Operation

/-- The handles of the buffers that the call needs. -/
def handles (call : BufferCall α) : List Handle :=
  call.handle?.toList

theorem any_handles (call : BufferCall α) (test : Handle → Bool) :
    call.handles.any test = call.handle?.any test := by
  rw [handles]
  cases call.handle? with
  | none => rfl
  | some handle => exact Bool.or_false _

theorem quiet_answer (result : EStateM.Result BurstBuffer.Error (Array α) Unit)
    (output : List α → Output) : (answer result output).Quiet := by
  cases result with
  | ok _ filled => exact quiet_finish _
  | error error destination =>
      cases error with
      | fault cause => exact Step.quiet_pure _
      | capacityMismatch => exact quiet_finish _

theorem quiet_appendBurst (burst : List α) : (appendBurst burst).Quiet :=
  Step.quiet_read.bind fun _ => (Step.quiet_replace _).bind fun _ => quiet_finish .done

theorem reports (call : BufferCall α) (output : List α → Output) :
    (call.operation output).Reports call.handles := by
  cases call with
  | create placed =>
      cases placed with
      | true => exact reports_register BurstBuffer.empty
      | false => exact reports_invalidArgument
  | destroy handle => exact reports_release
  | append handle elements =>
      rw [operation]
      split
      · next status listed =>
          obtain rfl := Span.status_of_elements_eq_error listed
          exact reports_invalidArgument
      · exact reports_amend (quiet_appendBurst _)
  | size handle placed =>
      refine reports_withValue fun buffer => ?_
      split
      · exact quiet_finish _
      · exact quiet_fail _
  | layOut handle destination =>
      rw [operation]
      split
      · next status listed =>
          obtain rfl := Span.status_of_elements_eq_error listed
          exact reports_invalidArgument
      · exact reports_withValue fun _ => quiet_answer _ _

variable {guarded : Guarded (BurstBuffer α)} {call : BufferCall α}

theorem exists_none_of_verdict (failure : call.verdict guarded = .invalidHandle) :
    ∃ handle ∈ call.handles, guarded.table.find? handle = none := by
  by_contra live
  have found := Bool.eq_false_iff.mpr (mt Table.any_isNone_iff.mp live)
  rw [verdict, ← any_handles, found, if_neg Bool.false_ne_true] at failure
  revert failure
  split_ifs <;> simp

theorem verdict_ne_ok (dead : ∃ handle ∈ call.handles, guarded.table.find? handle = none) :
    call.verdict guarded ≠ .ok := by
  rw [verdict, ← any_handles, Table.any_isNone_iff.mpr dead, if_pos rfl]
  split_ifs <;> simp

theorem not_contested {table : Table (BurstBuffer α)} : ¬table.Contested call.handles :=
  Table.not_contested_of_length_le Option.length_toList_le

end BufferCall

/-! ## Sessions -/

namespace Call

/-- The handles of the values that the call needs. -/
def handles : Call → List Handle
  | bitSet call => call.handles
  | intBuffer call => call.handles
  | floatBuffer call => call.handles

theorem reports (call : Call) : call.operation.Reports call.handles := by
  cases call with
  | bitSet call => exact call.reports
  | intBuffer call => exact call.reports .ints
  | floatBuffer call => exact call.reports .floats

variable {call : Call} {guarded : Guarded call.kind.Value}

theorem exists_none_of_verdict (failure : call.verdict guarded = .invalidHandle) :
    ∃ handle ∈ call.handles, guarded.table.find? handle = none := by
  cases call with
  | bitSet => exact BitSetCall.exists_none_of_verdict failure
  | intBuffer => exact BufferCall.exists_none_of_verdict failure
  | floatBuffer => exact BufferCall.exists_none_of_verdict failure

theorem verdict_ne_ok (dead : ∃ handle ∈ call.handles, guarded.table.find? handle = none) :
    call.verdict guarded ≠ .ok := by
  cases call with
  | bitSet => exact BitSetCall.verdict_ne_ok dead
  | intBuffer => exact BufferCall.verdict_ne_ok dead
  | floatBuffer => exact BufferCall.verdict_ne_ok dead

theorem verdict_of_contested (unpoisoned : guarded.poisoned = false)
    (contested : guarded.table.Contested call.handles) :
    call.verdict guarded = .invalidHandle := by
  cases call with
  | bitSet => exact BitSetCall.verdict_of_contested unpoisoned contested
  | intBuffer => exact absurd contested BufferCall.not_contested
  | floatBuffer => exact absurd contested BufferCall.not_contested

end Call

namespace Session

/-- Whatever has happened to a session, as long as its logger is not set to panic, a call that fails
for a handle blames one exactly if its handles do not contend for a slot; handles that do are never
written of, and they do make a call fail that reaches its table; and a call that succeeds warns of
nothing. -/
theorem blames_iff_not_contested (events : List Event) (call : Call) :
    let session := (start.run events).disarm
    let guarded := session.guarded call.kind
    let answer := (session.call call).2
    (answer.reply.status = .invalidHandle →
        (guarded.table.Blames call.handles answer.records ↔
          ¬guarded.table.Contested call.handles)) ∧
      (guarded.table.Contested call.handles →
        answer.records = [] ∧
          (guarded.poisoned = false → answer.reply.status = .invalidHandle)) ∧
      (answer.reply.status = .ok → ∀ record ∈ answer.records, record.level ≠ .warn) := by
  intro session guarded answer
  have guarded_eq : guarded = (start.run events).guarded call.kind := guarded_disarm _ _
  have orderly := call.orderly (sound_start.run events call.kind)
  rw [← guarded_eq] at orderly
  have answer_eq : answer = ⟨(call.operation.perform guarded none).reply,
      (call.operation.perform guarded none).records⟩ := by
    rw [guarded_eq, ← outcome_disarm]
    exact session.answer_call call
  rw [answer_eq, orderly.status_eq]
  have fails : guarded.table.Contested call.handles → guarded.poisoned = false →
      call.verdict guarded = .invalidHandle := fun contested unpoisoned =>
    Call.verdict_of_contested unpoisoned contested
  -- A call that stops before its table has nothing to report, and never complains of a handle.
  rcases call.reports.perform orderly.panic_eq with ⟨idle, other⟩ | ⟨blames, silent, quiet⟩
  · rw [orderly.status_eq] at other
    rw [idle]
    exact ⟨fun failure => absurd failure other, fun contested => ⟨rfl, fails contested⟩,
      fun _ => nofun⟩
  · refine ⟨?_, fun contested => ⟨silent contested, fails contested⟩, ?_⟩
    -- The status tells whether one of the handles names nothing, and the table what it says then.
    · intro failure
      refine ⟨?_, blames (Call.exists_none_of_verdict failure)⟩
      rintro ⟨record, told, -⟩ contested
      exact nomatch (silent contested).symm.trans told
    · intro success
      exact quiet fun handle member missing =>
        Call.verdict_ne_ok ⟨handle, member, missing⟩ success

/-- A set is given up twice. -/
theorem blames_of_second_destroy :
    let call : Call := .bitSet (.destroy (.pack 1 0 1))
    let session := (start.run [.call (.bitSet (.create 8 none true)), .call call]).disarm
    (session.call call).2.reply.status = .invalidHandle ∧
      session.bitSets.table.Blames call.handles (session.call call).2.records := by
  intro call session
  have failure : (session.call call).2.reply.status = .invalidHandle := by decide
  have alone : ¬session.bitSets.table.Contested call.handles :=
    Table.not_contested_of_length_le (Nat.le_refl 1)
  exact ⟨failure, ((blames_iff_not_contested _ call).1 failure).mpr alone⟩

/-- A set made in the slot of one given up is not combined with its forerunner, and no record tells
why. -/
theorem not_blames_of_reused_slot :
    let session := (start.run
      [.call (.bitSet (.create 8 none true)), .call (.bitSet (.destroy (.pack 1 0 1))),
        .call (.bitSet (.create 8 none true))]).disarm
    let call : Call := .bitSet (.intersect (.pack 1 0 2) (.pack 1 0 1))
    (session.call call).2.reply.status = .invalidHandle ∧
      ¬session.bitSets.table.Blames call.handles (session.call call).2.records := by
  intro session call
  have silent : (session.call call).2 = ⟨.failed .invalidHandle, []⟩ := by decide
  rw [silent]
  refine ⟨rfl, ?_⟩
  rintro ⟨record, told, -⟩
  exact nomatch told

end Session

end PackedStore
