import PackedStore.Proofs.Session.Kind

/-!
# Calls under an armed logger

A logger that is set to panic lets a call run as it runs otherwise, or cuts it short at one of the
records that the call writes otherwise. Either way, every table that no panic has poisoned holds
what calls have put in it and nothing else.
-/

namespace PackedStore

variable {α ν : Type}

namespace Operation

section Work

variable {body : Step (Table α) Ending} {guarded : Guarded α} {table after : Table α}
  {reply : Reply} {written : List (Entry (Table α))} {trap : Trap}

theorem perform_of_poisoned (poisoned : guarded.poisoned = true) (placed : Bool)
    (trap : Option Trap) :
    (work body placed).perform guarded trap =
      ⟨guarded, settle placed (.failed .internalError), [], trap, none⟩ :=
  if_pos poisoned

theorem perform_work_of_le (ran : body.run table = ⟨.ok reply, after, written⟩) (placed : Bool)
    (enough : written.length ≤ trap.spared) :
    (work body placed).perform ⟨table, false⟩ (some trap) =
      ⟨⟨after, false⟩, settle placed reply, written.map (·.record),
        some { trap with spared := trap.spared - written.length }, none⟩ := by
  simp [perform, ran, deliver, List.getElem?_eq_none enough]

theorem perform_work_of_lt (ran : body.run table = ⟨.ok reply, after, written⟩) (placed : Bool)
    (short : trap.spared < written.length) :
    ∃ store, (work body placed).perform ⟨table, false⟩ (some trap) =
      cutShort store ((written.take trap.spared).map (·.record)) none trap.payload.message := by
  refine ⟨written[trap.spared].store, ?_⟩
  simp [perform, ran, deliver, List.getElem?_eq_getElem short]

/-- Work that writes no record ends the same way, whatever the logger is set to. -/
theorem perform_work_silent (ran : body.run table = ⟨.ok reply, after, []⟩) (placed : Bool)
    (trap : Option Trap) :
    (work body placed).perform ⟨table, false⟩ trap =
      ⟨⟨after, false⟩, settle placed reply, [], trap, none⟩ := by
  cases trap with
  | none => exact perform_work ran placed
  | some trap => exact perform_work_of_le ran placed (Nat.zero_le trap.spared)

/-- Work that no panic stops has ended in a reply. -/
theorem exists_run_of_panic_eq_none {placed : Bool}
    (calm : ((work body placed).perform ⟨table, false⟩ none).panic = none) :
    ∃ reply after written, body.run table = ⟨.ok reply, after, written⟩ := by
  cases ran : body.run table with
  | mk value after written =>
      cases value with
      | error cause => simp [perform, ran, deliver, cutShort] at calm
      | ok reply => exact ⟨reply, after, written, rfl⟩

end Work

variable {operation : Operation α} {guarded : Guarded α} {trap : Trap}

/-- A call that writes no more records than the logger still takes runs as with a logger that is not
set to panic. -/
theorem perform_of_le (calm : (operation.perform guarded none).panic = none)
    (enough : (operation.perform guarded none).records.length ≤ trap.spared) :
    operation.perform guarded (some trap) =
      let outcome := operation.perform guarded none
      { outcome with
        trap := some { trap with spared := trap.spared - outcome.records.length } } := by
  cases operation with
  | refused status => rfl
  | work body placed =>
      rcases guarded with ⟨table, _ | _⟩
      · obtain ⟨reply, after, written, ran⟩ := exists_run_of_panic_eq_none calm
        rw [perform_work ran, List.length_map] at enough
        rw [perform_work ran, perform_work_of_le ran placed enough]
        simp only [List.length_map]
      · rw [perform_of_poisoned rfl, perform_of_poisoned rfl]
        rfl

/-- A call that writes more records than the logger still takes is cut short, and its table was not
poisoned before. -/
theorem perform_of_lt (calm : (operation.perform guarded none).panic = none)
    (short : trap.spared < (operation.perform guarded none).records.length) :
    guarded.poisoned = false ∧ ∃ store records,
      operation.perform guarded (some trap) =
        cutShort store records none trap.payload.message := by
  cases operation with
  | refused status => exact absurd short (Nat.not_lt_zero _)
  | work body placed =>
      rcases guarded with ⟨table, _ | _⟩
      · obtain ⟨reply, after, written, ran⟩ := exists_run_of_panic_eq_none calm
        rw [perform_work ran, List.length_map] at short
        obtain ⟨store, cut⟩ := perform_work_of_lt ran placed short
        exact ⟨rfl, store, _, cut⟩
      · rw [perform_of_poisoned rfl] at short
        exact absurd short (Nat.not_lt_zero _)

/-- No call sets the logger to panic. -/
theorem trap_perform_none (operation : Operation α) (guarded : Guarded α) :
    (operation.perform guarded none).trap = none := by
  cases operation with
  | refused status => rfl
  | work body placed =>
      rcases guarded with ⟨table, _ | _⟩
      · cases ran : body.run table with
        | mk value after written => cases value <;> simp [perform, ran, deliver, cutShort]
      · rw [perform_of_poisoned rfl]

/-- A call that writes no record leaves what the logger is set to. -/
theorem trap_perform_of_records_eq_nil {set : Option Trap}
    (silent : (operation.perform guarded set).records = []) :
    (operation.perform guarded set).trap = set := by
  cases set with
  | none => exact trap_perform_none operation guarded
  | some trap =>
      cases operation with
      | refused status => rfl
      | work body placed =>
          rcases guarded with ⟨table, _ | _⟩
          · -- Work cut short has at least the record that says so, and other work spares the logger
            -- nothing but what it writes.
            revert silent
            simp only [perform, deliver, Bool.false_eq_true, if_false]
            cases (body.run table).written[trap.spared]? with
            | some entry => simp [cutShort]
            | none =>
                cases (body.run table).value with
                | error cause => simp [cutShort]
                | ok reply => simp +contextual
          · rw [perform_of_poisoned rfl]

end Operation

/-! ## Tables that no panic has poisoned -/

/-- A table that no panic has poisoned is well formed, and all its values fit. -/
def Guarded.Sound (guarded : Guarded α) (reading : Reading α ν) : Prop :=
  guarded.poisoned = false → ∃ values, guarded.table.Represents reading values

namespace Guarded.Sound

variable {guarded : Guarded α} {reading : Reading α ν}

theorem wellFormed (sound : guarded.Sound reading) (unpoisoned : guarded.poisoned = false) :
    guarded.table.WellFormed := by
  obtain ⟨values, represents⟩ := sound unpoisoned
  exact represents.wellFormed

theorem fits (sound : guarded.Sound reading) (unpoisoned : guarded.poisoned = false)
    {handle : Handle} {value : α} (found : guarded.table.find? handle = some value) :
    reading.Fits value := by
  obtain ⟨values, represents⟩ := sound unpoisoned
  exact represents.fits handle value found

end Guarded.Sound

namespace Operation.Serves

variable {operation : Operation α} {reading : Reading α ν} {effect : Effect ν}
  {guarded : Guarded α}

/-- With a logger that is not set to panic, a call on a sound table is never cut short, and leaves
the table sound. -/
theorem perform_none (serves : operation.Serves reading effect) (sound : guarded.Sound reading) :
    (operation.perform guarded none).panic = none ∧
      (operation.perform guarded none).guarded.Sound reading := by
  rcases guarded with ⟨table, _ | _⟩
  · obtain ⟨values, represents⟩ := sound rfl
    obtain ⟨reply, after, records, performed, served⟩ := serves table values represents
    rw [performed]
    exact ⟨rfl, fun _ => ⟨_, served.represents⟩⟩
  · cases operation with
    | refused status => exact ⟨rfl, sound⟩
    | work body placed =>
        rw [perform_of_poisoned rfl]
        exact ⟨rfl, sound⟩

/-- A call leaves a sound table sound, whatever the logger is set to. -/
theorem sound_perform (serves : operation.Serves reading effect) (sound : guarded.Sound reading)
    (trap : Option Trap) : (operation.perform guarded trap).guarded.Sound reading := by
  obtain ⟨calm, kept⟩ := serves.perform_none sound
  cases trap with
  | none => exact kept
  | some trap =>
      rcases Nat.lt_or_ge trap.spared (operation.perform guarded none).records.length with
        short | enough
      · obtain ⟨-, store, records, cut⟩ := perform_of_lt calm short
        rw [cut]
        intro unpoisoned
        exact nomatch unpoisoned
      · rw [perform_of_le calm enough]
        exact kept

end Operation.Serves

namespace Session

/-- Every table that no panic has poisoned is well formed, and all its values fit. -/
def Sound (session : Session) : Prop :=
  ∀ kind, (session.guarded kind).Sound kind.reading

theorem sound_start : start.Sound := by
  intro kind unpoisoned
  cases kind with
  | bitSets => exact ⟨_, .empty _ _ _⟩
  | ints => exact ⟨_, .empty _ _ _⟩
  | floats => exact ⟨_, .empty _ _ _⟩

variable {session : Session}

theorem Sound.call (sound : session.Sound) (call : Call) : (session.call call).1.Sound := by
  intro kind
  rcases eq_or_ne kind call.kind with rfl | apart
  · rw [guarded_call_self]
    exact call.serves.sound_perform (sound call.kind) session.trap
  · rw [guarded_call_of_ne session apart]
    exact sound kind

theorem Sound.withTrap (sound : session.Sound) (trap : Option Trap) :
    ({ session with trap := trap } : Session).Sound := by
  intro kind
  rw [guarded_withTrap]
  exact sound kind

/-- Whatever happens to a session, its tables stay sound. -/
theorem Sound.run (sound : session.Sound) (events : List Event) : (session.run events).Sound := by
  induction events generalizing session with
  | nil => exact sound
  | cons event events induction =>
      cases event with
      | call call => exact induction (sound.call call)
      | arm trap => exact induction (sound.withTrap (some trap))

end Session

end PackedStore
