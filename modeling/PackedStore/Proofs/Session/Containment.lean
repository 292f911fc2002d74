import PackedStore.Proofs.Session.Atomic

/-!
# Panics are contained

A call is cut short exactly if the logger panics at the record that the call would write. Its table
is poisoned from then on: every call on it fails and changes nothing. The calls on the other tables
go on as if nothing had happened, up to the one thing that all tables share: a logger set to panic
once more counts the records of all calls, and those on a poisoned table write none.
-/

namespace PackedStore

namespace Operation

variable {α : Type} {guarded : Guarded α}

/-- A call on a poisoned table is turned away: it writes nothing, changes nothing and hands nothing
back. -/
theorem exists_perform_of_poisoned (poisoned : guarded.poisoned = true) (operation : Operation α) :
    ∃ status, ∀ trap,
      operation.perform guarded trap = ⟨guarded, .failed status, [], trap, none⟩ := by
  cases operation with
  | refused status => exact ⟨status, fun _ => rfl⟩
  | work body placed =>
      cases placed with
      | true => exact ⟨.internalError, perform_of_poisoned poisoned true⟩
      | false => exact ⟨.invalidArgument, perform_of_poisoned poisoned false⟩

end Operation

namespace Call

/-- Whether the call is refused, before the table is reached, for a missing place or array. -/
def lacksPointer : Call → Bool
  | bitSet call => call.lacksPointer
  | intBuffer call => call.lacksPointer
  | floatBuffer call => call.lacksPointer

/-- Whether the call lacks a place for its answer that is not asked for before the handle has been
found. -/
def lacksPlace : Call → Bool
  | bitSet _ => false
  | intBuffer call => call.lacksPlace
  | floatBuffer call => call.lacksPlace

/-- Whether a set is to be made that is longer than its limit. -/
def exceedsLimit : Call → Bool
  | bitSet call => call.exceedsLimit
  | intBuffer _ | floatBuffer _ => false

/-- The status of a call on a poisoned table. -/
def barred (call : Call) : Status :=
  if call.lacksPointer then .invalidArgument
  else if call.exceedsLimit then .lengthLimitExceeded
  else .internalError

theorem barred_of_lacksPlace {call : Call} (lacking : call.lacksPlace = true) :
    call.barred = .internalError := by
  cases call with
  | bitSet call => exact nomatch lacking
  | intBuffer call =>
      rw [barred, lacksPointer, BufferCall.lacksPointer_of_lacksPlace lacking]
      rfl
  | floatBuffer call =>
      rw [barred, lacksPointer, BufferCall.lacksPointer_of_lacksPlace lacking]
      rfl

theorem verdict_of_poisoned {call : Call} {guarded : Guarded call.kind.Value}
    (poisoned : guarded.poisoned = true) : call.verdict guarded = call.barred := by
  cases call with
  | bitSet call => exact call.verdict_of_poisoned poisoned
  | intBuffer call => exact call.verdict_of_poisoned poisoned
  | floatBuffer call => exact call.verdict_of_poisoned poisoned

end Call

namespace Session

variable {session : Session} {kind : Kind}

/-! ## Poisoned tables -/

theorem trap_call_of_none (calm : session.trap = none) {call : Call} :
    (session.call call).1.trap = none := by
  rw [trap_call, outcome, calm]
  exact Operation.trap_perform_none _ _

theorem trap_call_of_records_eq_nil {call : Call} (silent : (session.call call).2.records = []) :
    (session.call call).1.trap = session.trap := by
  rw [answer_call] at silent
  rw [trap_call]
  exact Operation.trap_perform_of_records_eq_nil silent

/-- A call that leaves its table and the logger as they were leaves the whole session as it was. -/
theorem call_of_idle {call : Call} {reply : Reply} {records : List Record}
    (idle : session.outcome call =
      ⟨session.guarded call.kind, reply, records, session.trap, none⟩) :
    session.call call = (session, ⟨reply, records⟩) := by
  refine Prod.ext (eq_of_guarded (fun kind => ?_) ?_ ?_) ?_
  · rcases eq_or_ne kind call.kind with rfl | apart
    · rw [guarded_call_self, idle]
    · exact guarded_call_of_ne session apart
  · rw [panicText_call, idle]
    rfl
  · rw [trap_call, idle]
  · rw [answer_call, idle]

/-- Work on the bit sets that is not cut short leaves its table behind and nothing else. -/
theorem call_of_perform {call : BitSetCall} {body : Step (Table BitSet) Ending}
    {after : Table BitSet} {reply : Reply} {records : List Record}
    (unpoisoned : session.bitSets.poisoned = false) (operation_eq : call.operation = .work body true)
    (performed : (Operation.work body true).perform ⟨session.bitSets.table, false⟩ session.trap =
      ⟨⟨after, false⟩, reply, records, session.trap, none⟩) :
    session.call (.bitSet call) =
      ({ session with bitSets := ⟨after, false⟩ }, ⟨reply, records⟩) := by
  rw [← operation_eq, ← Guarded.eq_of_unpoisoned unpoisoned] at performed
  rw [Session.call, performed]
  rfl

/-- A call on a poisoned table leaves the whole session as it was. -/
theorem call_of_poisoned {call : Call} (poisoned : (session.guarded call.kind).poisoned = true) :
    session.call call = (session, ⟨.failed call.barred, []⟩) := by
  obtain ⟨status, performed⟩ := Operation.exists_perform_of_poisoned poisoned call.operation
  have sound : (session.guarded call.kind).Sound call.kind.reading := fun unpoisoned =>
    absurd (poisoned.symm.trans unpoisoned) nofun
  have status_eq : status = call.barred := by
    have judged := (call.orderly sound).status_eq
    rw [performed, Call.verdict_of_poisoned poisoned] at judged
    exact judged
  apply call_of_idle
  rw [outcome, performed, status_eq]

theorem guarded_handle_of_poisoned (poisoned : (session.guarded kind).poisoned = true)
    (event : Event) : (session.handle event).1.guarded kind = session.guarded kind := by
  cases event with
  | arm trap => exact guarded_withTrap session (some trap) kind
  | call call =>
      rcases eq_or_ne kind call.kind with rfl | apart
      · exact congrArg (fun pair => pair.1.guarded call.kind) (call_of_poisoned poisoned)
      · exact guarded_call_of_ne session apart

theorem poisoned_handle (poisoned : (session.guarded kind).poisoned = true) (event : Event) :
    ((session.handle event).1.guarded kind).poisoned = true := by
  rw [guarded_handle_of_poisoned poisoned event]
  exact poisoned

/-- A poisoned table stays poisoned, whatever happens. -/
theorem poisoned_run (poisoned : (session.guarded kind).poisoned = true) (events : List Event) :
    ((session.run events).guarded kind).poisoned = true := by
  induction events generalizing session with
  | nil => exact poisoned
  | cons event events induction => exact induction (poisoned_handle poisoned event)

/-! ## Sessions that differ in one table -/

/-- The sessions agree on all tables but that of `kind`, and on what their loggers are set to. -/
structure SameBeside (kind : Kind) (left right : Session) : Prop where
  /-- The other tables. -/
  guarded_eq : ∀ other, other ≠ kind → left.guarded other = right.guarded other
  /-- The loggers. -/
  trap_eq : left.trap = right.trap

namespace SameBeside

variable {left right : Session}

theorem outcome_eq (same : SameBeside kind left right) {call : Call} (apart : call.kind ≠ kind) :
    left.outcome call = right.outcome call := by
  rw [outcome, outcome, same.guarded_eq call.kind apart, same.trap_eq]

theorem answer_eq (same : SameBeside kind left right) {call : Call} (apart : call.kind ≠ kind) :
    (left.call call).2 = (right.call call).2 := by
  rw [answer_call, answer_call, same.outcome_eq apart]

/-- A call on another table meets the same table in both. -/
theorem call (same : SameBeside kind left right) {call : Call} (apart : call.kind ≠ kind) :
    SameBeside kind (left.call call).1 (right.call call).1 where
  guarded_eq := by
    intro other away
    rcases eq_or_ne other call.kind with rfl | elsewhere
    · rw [guarded_call_self, guarded_call_self, same.outcome_eq apart]
    · rw [guarded_call_of_ne left elsewhere, guarded_call_of_ne right elsewhere]
      exact same.guarded_eq other away
  trap_eq := by rw [trap_call, trap_call, same.outcome_eq apart]

theorem withTrap (same : SameBeside kind left right) (trap : Option Trap) :
    SameBeside kind { left with trap := trap } { right with trap := trap } where
  guarded_eq := by
    intro other away
    rw [guarded_withTrap, guarded_withTrap]
    exact same.guarded_eq other away
  trap_eq := rfl

end SameBeside

end Session

/-- Whether the event is a call on the table of `kind`. -/
def Event.concerns (kind : Kind) : Event → Bool
  | .call made => made.kind = kind
  | .arm _ => false

namespace Session

/-- A logger that is set to panic never gets a record of a call on the table of `kind`. -/
def Unheard (kind : Kind) (session : Session) (events : List Event) : Prop :=
  ∀ earlier (made : Call) later, events = earlier ++ .call made :: later → made.kind = kind →
    (session.run earlier).trap = none ∨ ((session.run earlier).call made).2.records = []

section Unheard

variable {session : Session} {kind : Kind} {event : Event} {made : Call} {events : List Event}

theorem Unheard.head (unheard : Unheard kind session (.call made :: events))
    (here : made.kind = kind) : session.trap = none ∨ (session.call made).2.records = [] :=
  unheard [] made events rfl here

theorem Unheard.tail (unheard : Unheard kind session (event :: events)) :
    Unheard kind (session.handle event).1 events := by
  intro earlier made later split here
  exact unheard (event :: earlier) made later (congrArg (event :: ·) split) here

theorem trap_run_calls_of_none (calm : session.trap = none) (calls : List Call) :
    (session.run (calls.map .call)).trap = none := by
  induction calls generalizing session with
  | nil => exact calm
  | cons made calls induction => exact induction (trap_call_of_none calm)

/-- Calls alone never set the logger to panic. -/
theorem unheard_calls (calm : session.trap = none) (kind : Kind) (calls : List Call) :
    Unheard kind session (calls.map .call) := by
  intro earlier made later split _
  obtain ⟨before, behind, -, rfl, -⟩ := List.map_eq_append_iff.mp split
  exact .inl (trap_run_calls_of_none calm before)

end Unheard

variable {left right : Session} {kind : Kind}

namespace SameBeside

/-- A call on the table of `kind` that finds it poisoned makes no difference. -/
theorem call_left (same : SameBeside kind left right)
    (poisoned : (left.guarded kind).poisoned = true) {made : Call} (here : made.kind = kind) :
    SameBeside kind (left.call made).1 right := by
  subst here
  rw [call_of_poisoned poisoned]
  exact same

/-- A call on the table of `kind` makes no difference beside it, if no logger that is set to panic
gets a record of it. -/
theorem call_right (same : SameBeside kind left right) {made : Call} (here : made.kind = kind)
    (unheard : right.trap = none ∨ (right.call made).2.records = []) :
    SameBeside kind left (right.call made).1 where
  guarded_eq := by
    intro other away
    rw [guarded_call_of_ne right (here ▸ away)]
    exact same.guarded_eq other away
  trap_eq := by
    rcases unheard with calm | silent
    · rw [same.trap_eq, calm, trap_call_of_none calm]
    · rw [same.trap_eq, trap_call_of_records_eq_nil silent]

/-- A session in which the table of `kind` is poisoned goes on beside that table like a session that
is spared all calls on it. -/
theorem run_filter (same : SameBeside kind left right)
    (poisoned : (left.guarded kind).poisoned = true) (events : List Event) :
    SameBeside kind (left.run events)
      (right.run (events.filter fun event => !event.concerns kind)) := by
  induction events generalizing left right with
  | nil => exact same
  | cons event events induction =>
      have still := poisoned_handle poisoned event
      cases event with
      | arm trap => exact induction (same.withTrap (some trap)) still
      | call made =>
          by_cases here : made.kind = kind
          · rw [List.filter_cons_of_neg (by simp [Event.concerns, here])]
            exact induction (same.call_left poisoned here) still
          · rw [List.filter_cons_of_pos (by simp [Event.concerns, here])]
            exact induction (same.call here) still

/-- A session in which the table of `kind` is poisoned goes on beside that table like a session in
which it is not, as long as no logger that is set to panic would get a record of a call on it. -/
theorem run_of_unheard (same : SameBeside kind left right)
    (poisoned : (left.guarded kind).poisoned = true) {events : List Event}
    (unheard : Unheard kind right events) :
    SameBeside kind (left.run events) (right.run events) := by
  induction events generalizing left right with
  | nil => exact same
  | cons event events induction =>
      have still := poisoned_handle poisoned event
      cases event with
      | arm trap => exact induction (same.withTrap (some trap)) still unheard.tail
      | call made =>
          by_cases here : made.kind = kind
          · have after := (same.call_left poisoned here).call_right here (unheard.head here)
            exact induction after still unheard.tail
          · exact induction (same.call here) still unheard.tail

end SameBeside

/-- The other tables are the same in both sessions, and calls on them are answered alike. -/
def AlikeBeside (kind : Kind) (left right : Session) : Prop :=
  SameBeside kind left right ∧
    ∀ made : Call, made.kind ≠ kind → (left.call made).2 = (right.call made).2

theorem SameBeside.alikeBeside (same : SameBeside kind left right) :
    AlikeBeside kind left right :=
  ⟨same, fun _ apart => same.answer_eq apart⟩

/-! ## A call cut short -/

/-- The logger stopped the call, and no table but that of the call's kind ever shows it. -/
structure Contained (session : Session) (call : Call) : Prop where
  /-- Nothing is handed back. -/
  out_eq : (session.reply call).out = none
  /-- The table of the call was not poisoned before. -/
  unpoisoned : (session.guarded call.kind).poisoned = false
  /-- The table of the call is poisoned afterwards. -/
  poisoned : ((session.call call).1.guarded call.kind).poisoned = true
  /-- The other tables are as before. -/
  guarded_eq : ∀ kind, kind ≠ call.kind → (session.call call).1.guarded kind = session.guarded kind
  /-- Whatever happens later, a call on the poisoned table fails: for a missing place or array, for
  a set that would be longer than its limit, or else for the table. It writes no record, hands
  nothing back and changes nothing. -/
  barred : ∀ later (made : Call), made.kind = call.kind → made.lacksPlace = false →
    let current := (session.call call).1.run later
    current.call made = (current, ⟨.failed made.barred, []⟩)
  /-- A call whose missing place is asked for only behind the handle fails for the table, and leaves
  as little behind. -/
  overlooked : ∀ later (made : Call), made.kind = call.kind → made.lacksPlace = true →
    let current := (session.call call).1.run later
    current.call made = (current, ⟨.failed .internalError, []⟩)
  /-- Whatever happens later, the other tables are, and calls on them are answered, as if the call
  had not been cut short and no later call had been made on its table. -/
  beside_events : ∀ later,
    AlikeBeside call.kind ((session.call call).1.run later)
      ((session.disarm.call call).1.run (later.filter fun event => !event.concerns call.kind))
  /-- The other tables are, and calls on them are answered, as if the call had not been cut short,
  unless then a logger set to panic once more would get a record of a later call on its table. A
  poisoned table writes no such record, so that the logger would go on to a later one. -/
  beside_unheard : ∀ later, Unheard call.kind (session.disarm.call call).1 later →
    AlikeBeside call.kind ((session.call call).1.run later)
      ((session.disarm.call call).1.run later)
  /-- In particular, as long as the logger is not set to panic once more, the other tables are, and
  calls on them are answered, as if the call had not been cut short. -/
  beside_calls : ∀ later : List Call,
    AlikeBeside call.kind ((session.call call).1.run (later.map .call))
      ((session.disarm.call call).1.run (later.map .call))

/-- A call that is cut short leaves the other tables as the same call leaves them that is not. -/
theorem sameBeside_disarm {session : Session} {call : Call}
    (spent : (session.outcome call).trap = none) :
    SameBeside call.kind (session.call call).1 (session.disarm.call call).1 where
  guarded_eq := by
    intro kind apart
    rw [guarded_call_of_ne session apart, guarded_call_of_ne session.disarm apart, guarded_disarm]
  trap_eq := by
    rw [trap_call, spent]
    exact (trap_call_of_none rfl).symm

theorem contained_of_cutShort {session : Session} {call : Call}
    (unpoisoned : (session.guarded call.kind).poisoned = false) {store : Table call.kind.Value}
    {records : List Record} {message : String}
    (cut : session.outcome call = Operation.cutShort store records none message) :
    session.Contained call := by
  have poisoned : ((session.call call).1.guarded call.kind).poisoned = true := by
    rw [guarded_call_self, cut]
    rfl
  have same : SameBeside call.kind (session.call call).1 (session.disarm.call call).1 :=
    sameBeside_disarm (by rw [cut]; rfl)
  have calm : (session.disarm.call call).1.trap = none := trap_call_of_none rfl
  have barred : ∀ later (made : Call), made.kind = call.kind →
      let current := (session.call call).1.run later
      current.call made = (current, ⟨.failed made.barred, []⟩) := by
    intro later made here
    exact call_of_poisoned (here ▸ poisoned_run poisoned later)
  have unheard : ∀ later, Unheard call.kind (session.disarm.call call).1 later →
      AlikeBeside call.kind ((session.call call).1.run later)
        ((session.disarm.call call).1.run later) := by
    intro later unheard
    exact (same.run_of_unheard poisoned unheard).alikeBeside
  refine ⟨?_, unpoisoned, poisoned, fun _ => guarded_call_of_ne session, ?_, ?_, ?_, unheard, ?_⟩
  · rw [reply_eq, cut]
    rfl
  · intro later made here _
    exact barred later made here
  · intro later made here lacking
    rw [← Call.barred_of_lacksPlace lacking]
    exact barred later made here
  · intro later
    exact (same.run_filter poisoned later).alikeBeside
  · intro later
    exact unheard _ (unheard_calls calm call.kind later)

/-- Calls on the other tables are answered, whatever happens later, as if the call had not been cut
short. -/
def Oblivious (session : Session) (call : Call) : Prop :=
  ∀ later (made : Call), made.kind ≠ call.kind →
    (((session.call call).1.run later).call made).2 =
      (((session.disarm.call call).1.run later).call made).2

/-- The logger panics while a bit set is made, and is set to spare one record and panic once more.
Were the table of bit sets not poisoned, it would spare the warning about a handle that names
nothing and cut the next call short, which makes a buffer; so it spares that call instead. -/
theorem not_oblivious_of_second_trap :
    let session := start.run [.arm ⟨0, .text "disk full"⟩]
    let call : Call := .bitSet (.create 8 none true)
    (session.reply call).status = .panicked ∧ ¬session.Oblivious call := by
  intro session call
  refine ⟨by decide, ?_⟩
  intro oblivious
  have same := oblivious [.arm ⟨1, .text "disk full"⟩, .call (.bitSet (.destroy .zero))]
    (.intBuffer (.create true)) (by decide)
  revert same
  decide

/-- Whatever has happened to a session, a call is cut short exactly if the logger panics at the very
next record and the call, with a logger that does not panic, would write one; and then the panic is
contained. -/
theorem panicked_iff_and_contained (events : List Event) (call : Call) :
    let session := start.run events
    ((session.reply call).status = .panicked ↔
        session.Armed ∧ (session.disarm.call call).2.records ≠ []) ∧
      ((session.reply call).status = .panicked → session.Contained call) := by
  intro session
  have sound : session.Sound := sound_start.run events
  rw [answer_call, reply_eq]
  rcases outcome_cases sound call with
    ⟨idle, trap, completed⟩ | ⟨armed, unpoisoned, store, records, message, cut⟩
  · have whole : (session.outcome call).reply.status ≠ .panicked := by
      rw [completed, outcome_disarm]
      have status_eq := (call.orderly (sound call.kind)).status_eq
      exact fun panicked => call.verdict_ne_panicked _ (status_eq.symm.trans panicked)
    exact ⟨⟨fun panicked => absurd panicked whole, fun armed => absurd armed idle⟩,
      fun panicked => absurd panicked whole⟩
  · have panicked : (session.outcome call).reply.status = .panicked := by
      rw [cut]
      rfl
    exact ⟨⟨fun _ => armed, fun _ => panicked⟩, fun _ => contained_of_cutShort unpoisoned cut⟩

/-- Giving a bit set up is cut short once the set is gone. -/
theorem contained_of_interrupted_destroy :
    let session := start.run
      [.call (.bitSet (.create 8 none true)), .call (.intBuffer (.create true)),
        .arm ⟨0, .text "disk full"⟩]
    let call : Call := .bitSet (.destroy (.pack 1 0 1))
    session.reply call = .failed .panicked ∧ session.Contained call := by
  intro session call
  have cut : session.reply call = .failed .panicked := by decide
  have panicked : (session.reply call).status = .panicked := congrArg Reply.status cut
  exact ⟨cut, (panicked_iff_and_contained _ call).2 panicked⟩

end Session

end PackedStore
