import PackedStore.Proofs.Session.Armed

/-!
# Orderly work

Work is orderly if it ends in the status it should end in, writes at most one record on the way,
and, unless it succeeds, leaves everything as it was. Every shape of work is orderly if what it does
to the values is.
-/

namespace PackedStore

variable {σ α : Type} {status : Status} {looks : Bool} {destination : Option Output}

/-- Work on `before` ended in `status`. It wrote at most one record; if it failed, or if it only
`looks`, it left what it worked on as it was; and if it failed, it handed back nothing but the
caller's own `destination`. -/
structure Trace.Orderly (status : Status) (looks : Bool) (destination : Option Output) (before : σ)
    (trace : Trace σ Ending) : Prop where
  /-- The work ended in a reply, not in a fault. -/
  ends : ∃ reply, trace.value = .ok reply ∧ reply.status = status ∧
    (status ≠ .ok → reply.out = none ∨ reply.out = destination)
  /-- At most one record was written. -/
  brief : trace.written.length ≤ 1
  /-- Failures and questions change nothing. -/
  store_eq : status ≠ .ok ∨ looks = true → trace.store = before

/-- A call on `before` ended in `status`, as orderly work does. -/
structure Outcome.Orderly (status : Status) (looks : Bool) (destination : Option Output)
    (before : Guarded α) (outcome : Outcome α) : Prop where
  /-- The call was not cut short. -/
  panic_eq : outcome.panic = none
  /-- The status. -/
  status_eq : outcome.reply.status = status
  /-- A failure hands back nothing but the caller's own destination. -/
  untouched : status ≠ .ok → outcome.reply.out = none ∨ outcome.reply.out = destination
  /-- At most one record was written. -/
  brief : outcome.records.length ≤ 1
  /-- Failures and questions change nothing. -/
  guarded_eq : status ≠ .ok ∨ looks = true → outcome.guarded = before

theorem Trace.Orderly.of_eq {before : σ} {trace : Trace σ Ending} {actual : Status}
    (orderly : trace.Orderly actual looks destination before) (same : actual = status) :
    trace.Orderly status looks destination before :=
  same ▸ orderly

theorem Outcome.Orderly.of_eq {before : Guarded α} {outcome : Outcome α} {actual : Status}
    (orderly : outcome.Orderly actual looks destination before) (same : actual = status) :
    outcome.Orderly status looks destination before :=
  same ▸ orderly

namespace Operation

/-! ## Ends -/

/-- Work that fails right away, or after one record, is orderly. -/
theorem orderly_failed (status : Status) (before : σ) {written : List (Entry σ)}
    (brief : written.length ≤ 1) :
    Trace.Orderly status looks destination before ⟨.ok (.failed status), before, written⟩ where
  ends := ⟨_, rfl, rfl, fun _ => .inl rfl⟩
  brief := brief
  store_eq := fun _ => rfl

/-- Work that succeeds is orderly, whatever it leaves behind. -/
theorem orderly_succeeded {out : Option Output} {before after : σ} {written : List (Entry σ)}
    (brief : written.length ≤ 1) :
    Trace.Orderly .ok false destination before ⟨.ok ⟨.ok, out⟩, after, written⟩ where
  ends := ⟨_, rfl, rfl, fun failure => absurd rfl failure⟩
  brief := brief
  store_eq := fun claim => claim.elim (fun failure => absurd rfl failure) nofun

/-- An answer is orderly if a failure hands back nothing but the caller's own destination. -/
theorem orderly_finish (reply : Reply) (before : σ)
    (untouched : reply.status ≠ .ok → reply.out = none ∨ reply.out = destination) :
    ((finish reply).run before).Orderly reply.status looks destination before where
  ends := ⟨_, rfl, rfl, untouched⟩
  brief := Nat.zero_le 1
  store_eq := fun _ => rfl

/-! ## Shape by shape -/

section Shapes

variable {table : Table α} {handle target source : Handle}

theorem orderly_withValue {next : α → Step (Table α) Ending} {judge : α → Status}
    (ends : ∀ value, table.find? handle = some value →
      ((next value).run table).Orderly (judge value) looks destination table) :
    ((withValue handle next).run table).Orderly
      ((table.find? handle).elim .invalidHandle judge) looks destination table := by
  cases found : table.find? handle with
  | none =>
      rw [run_withValue_of_none found]
      exact orderly_failed .invalidHandle table (Nat.le_refl 1)
  | some value =>
      rw [run_withValue_of_some found]
      exact ends value found

/-- A change of one value in its slot is as orderly as the change itself. -/
theorem orderly_fill {value : α} (found : table.find? handle = some value)
    {trace : Trace α Ending} (orderly : trace.Orderly status false destination value) :
    Trace.Orderly status false destination table
      ⟨trace.value, table.fill handle.parts.slot trace.store,
        trace.written.map fun entry =>
          ⟨entry.record, table.fill handle.parts.slot entry.store⟩⟩ where
  ends := orderly.ends
  brief := by
    rw [List.length_map]
    exact orderly.brief
  store_eq := by
    intro failure
    have kept : trace.store = value := orderly.store_eq failure
    rw [kept]
    exact Table.fill_eq_self found

theorem orderly_amend {change : Step α Ending} {judge : α → Status}
    (ends : ∀ value, table.find? handle = some value →
      (change.run value).Orderly (judge value) false destination value) :
    ((amend handle change).run table).Orderly
      ((table.find? handle).elim .invalidHandle judge) false destination table := by
  cases found : table.find? handle with
  | none =>
      rw [run_amend_of_none found]
      exact orderly_failed .invalidHandle table (Nat.le_refl 1)
  | some value =>
      rw [run_amend_of_some found]
      exact orderly_fill found (ends value found)

theorem orderly_amendFrom (distinct : target ≠ source) {change : α → Step α Ending}
    {judge : α → α → Status}
    (ends : ∀ value beside, table.find? target = some value → table.find? source = some beside →
      ((change beside).run value).Orderly (judge value beside) false destination value) :
    ((amendFrom target source change).run table).Orderly
      ((table.find? target).elim .invalidHandle fun value =>
        (table.find? source).elim .invalidHandle (judge value)) false destination table := by
  have of_none : (table.find? target = none ∨ table.find? source = none ∨ target = source) →
      ((amendFrom target source change).run table).Orderly .invalidHandle false destination
        table := by
    intro missing
    rw [run_amendFrom_of_none missing]
    apply orderly_failed .invalidHandle table
    rw [List.length_map]
    exact Option.length_toList_le
  cases found : table.find? target with
  | none => exact of_none (.inl found)
  | some value =>
      cases foundBeside : table.find? source with
      | none => exact of_none (.inr (.inl foundBeside))
      | some beside =>
          rw [run_amendFrom_of_some found foundBeside distinct]
          exact orderly_fill found (ends value beside found foundBeside)

theorem orderly_register (wellFormed : table.WellFormed) (value : α) :
    ((register value).run table).Orderly (if table.Full then .internalError else .ok) false
      destination table := by
  rcases run_register wellFormed value with ⟨room, handle, after, ran, -⟩ | ⟨full, ran⟩
  · rw [ran, if_neg room]
    exact orderly_succeeded (Nat.le_refl 1)
  · rw [ran, if_pos full]
    exact orderly_failed .internalError table (Nat.le_refl 1)

theorem orderly_release (table : Table α) (handle : Handle) :
    ((release handle).run table).Orderly
      ((table.find? handle).elim .invalidHandle fun _ => .ok) false destination table := by
  cases found : table.find? handle with
  | none =>
      rw [run_release_of_none found]
      exact orderly_failed .invalidHandle table (Nat.le_refl 1)
  | some value =>
      rw [run_release_of_some found]
      exact orderly_succeeded (Nat.le_refl 1)

end Shapes

/-! ## Calls -/

section Calls

variable {guarded : Guarded α}

theorem orderly_refused (status : Status) :
    ((refused status).perform guarded none).Orderly status looks destination guarded where
  panic_eq := rfl
  status_eq := rfl
  untouched := fun _ => .inl rfl
  brief := Nat.zero_le 1
  guarded_eq := fun _ => rfl

/-- A call is orderly if its work on a table that is not poisoned is; only calls that look may lack
a place for their answer. -/
theorem orderly_work {body : Step (Table α) Ending} {placed : Bool}
    (asks : placed = true ∨ looks = true)
    (works : guarded.poisoned = false →
      (body.run guarded.table).Orderly status looks destination guarded.table) :
    ((work body placed).perform guarded none).Orderly
      (if placed = false then .invalidArgument
        else if guarded.poisoned then .internalError else status)
      looks destination guarded := by
  rcases guarded with ⟨table, _ | _⟩
  · obtain ⟨⟨reply, ended, rfl, untouched⟩, brief, store_eq⟩ := works rfl
    have ran : body.run table =
        ⟨.ok reply, (body.run table).store, (body.run table).written⟩ := by
      rw [← ended]
    rw [perform_work ran]
    cases placed with
    | false =>
        have looking : looks = true := asks.resolve_left nofun
        refine ⟨rfl, rfl, fun _ => .inl rfl, ?_, fun _ => ?_⟩
        · rwa [List.length_map]
        · exact congrArg (Guarded.mk · false) (store_eq (.inr looking))
    | true =>
        refine ⟨rfl, rfl, untouched, ?_, fun kept => ?_⟩
        · rwa [List.length_map]
        · exact congrArg (Guarded.mk · false) (store_eq kept)
  · rw [perform_of_poisoned rfl]
    cases placed with
    | false => exact ⟨rfl, rfl, fun _ => .inl rfl, Nat.zero_le 1, fun _ => rfl⟩
    | true => exact ⟨rfl, rfl, fun _ => .inl rfl, Nat.zero_le 1, fun _ => rfl⟩

end Calls

end Operation

end PackedStore
