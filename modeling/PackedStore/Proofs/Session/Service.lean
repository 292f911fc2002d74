import PackedStore.Proofs.Session.Shape

/-!
# What callers see of a table

A caller sees something of each value that a handle names. A call serves its caller if it ends
without a fault, changes what is seen by its effect when it ends well, and changes nothing seen when
it fails.
-/

namespace PackedStore

variable {α ν : Type}

/-- How the values of a table are seen from outside, and which of them may occur. -/
structure Reading (α ν : Type) where
  /-- The values that may occur. -/
  Fits : α → Prop
  /-- What is seen of a value. -/
  view : α → ν

/-- All values of `table` fit, and `values` tells what is seen behind each handle. -/
structure Table.Represents (table : Table α) (reading : Reading α ν)
    (values : Handle → Option ν) : Prop where
  /-- The table is well formed. -/
  wellFormed : table.WellFormed
  /-- All values fit. -/
  fits : ∀ handle value, table.find? handle = some value → reading.Fits value
  /-- What is seen behind a handle. -/
  view_eq : ∀ handle, (table.find? handle).map reading.view = values handle

namespace Table.Represents

variable {table after : Table α} {reading : Reading α ν} {values : Handle → Option ν}
  {handle : Handle}

theorem empty (kind : String) (tag : UInt8) (reading : Reading α ν) :
    (Table.empty kind tag).Represents reading fun _ => none where
  wellFormed := wellFormed_empty kind tag
  fits := by
    intro handle value found
    rw [find?_empty] at found
    exact nomatch found
  view_eq := by
    intro handle
    rw [find?_empty]
    rfl

theorem eq_some (represents : table.Represents reading values) {value : α}
    (found : table.find? handle = some value) : values handle = some (reading.view value) := by
  rw [← represents.view_eq, found]
  rfl

theorem eq_none (represents : table.Represents reading values)
    (missing : table.find? handle = none) : values handle = none := by
  rw [← represents.view_eq, missing]
  rfl

/-- A handle behind which something is seen names a value that fits and is seen so. -/
theorem exists_of_eq_some (represents : table.Represents reading values) {seen : ν}
    (bound : values handle = some seen) :
    ∃ value, table.find? handle = some value ∧ reading.Fits value ∧ reading.view value = seen := by
  rw [← represents.view_eq, Option.map_eq_some_iff] at bound
  obtain ⟨value, found, seen_eq⟩ := bound
  exact ⟨value, found, represents.fits handle value found, seen_eq⟩

/-- Binding one handle anew changes what is seen behind that handle alone. -/
theorem rebind (represents : table.Represents reading values) (ready : after.WellFormed)
    {content : Option α} (find?_eq : after.find? = Function.update table.find? handle content)
    (fits : ∀ value, content = some value → reading.Fits value) :
    after.Represents reading (Function.update values handle (content.map reading.view)) where
  wellFormed := ready
  fits := by
    intro other value found
    rw [find?_eq] at found
    rcases eq_or_ne other handle with rfl | apart
    · rw [Function.update_self] at found
      exact fits value found
    · rw [Function.update_of_ne apart] at found
      exact represents.fits other value found
  view_eq := by
    intro other
    rw [find?_eq]
    rcases eq_or_ne other handle with rfl | apart
    · rw [Function.update_self, Function.update_self]
    · rw [Function.update_of_ne apart, Function.update_of_ne apart]
      exact represents.view_eq other

/-- Rewriting a value in place changes what is seen behind its handle alone. -/
theorem fill (represents : table.Represents reading values) {old value : α}
    (found : table.find? handle = some old) (fits : reading.Fits value) :
    (table.fill handle.parts.slot value).Represents reading
      (Function.update values handle (some (reading.view value))) := by
  apply represents.rebind (wellFormed_fill represents.wellFormed found value)
    (find?_fill represents.wellFormed found value)
  rintro _ ⟨⟩
  exact fits

end Table.Represents

/-! ## Calls that serve their callers -/

/-- The handle that a reply hands out. -/
def Reply.handle? (reply : Reply) : Option Handle :=
  match reply.out with
  | some (.handle handle) => some handle
  | _ => none

/-- What a call that ends well does to what is seen behind each handle. -/
inductive Effect (ν : Type) where
  /-- The call only looks. -/
  | idle
  /-- The call hands out a handle, behind which `content` of what was seen is seen from now on. -/
  | bind (content : (Handle → Option ν) → Option ν)
  /-- The call changes what is seen behind `handle`, with all that was seen at hand. -/
  | rewrite (handle : Handle) (change : (Handle → Option ν) → ν → Option ν)
  /-- The call gives up what is behind `handle`. -/
  | unbind (handle : Handle)

namespace Effect

/-- What is seen after a call that ended well and handed out `given`. -/
def apply (effect : Effect ν) (values : Handle → Option ν) (given : Option Handle) :
    Handle → Option ν :=
  match effect with
  | idle => values
  | bind content =>
      match given with
      | some handle => Function.update values handle (content values)
      | none => values
  | rewrite handle change => Function.update values handle ((values handle).bind (change values))
  | unbind handle => Function.update values handle none

/-- The handle behind which a call may change what is seen. -/
def target? : Effect ν → Option Handle
  | idle | bind _ => none
  | rewrite handle _ | unbind handle => some handle

/-- Whether the call takes something in, to be seen behind a handle that it hands out. -/
def takesIn : Effect ν → Bool
  | bind _ => true
  | idle | rewrite .. | unbind _ => false

/-- Rewriting that keeps what is seen is no change. -/
theorem apply_rewrite_of_same {handle : Handle} {change : (Handle → Option ν) → ν → Option ν}
    {values : Handle → Option ν}
    (same : ∀ seen, values handle = some seen → change values seen = some seen)
    (given : Option Handle) : (rewrite handle change).apply values given = values := by
  have kept : (values handle).bind (change values) = values handle := by
    cases bound : values handle with
    | none => rfl
    | some seen => exact same seen bound
  rw [apply, kept, Function.update_eq_self]

/-- Nothing changes but behind the target and behind a handle that is handed out. -/
theorem apply_of_ne {effect : Effect ν} {values : Handle → Option ν} {given : Option Handle}
    {handle : Handle} (other : effect.target? ≠ some handle) (fresh : given ≠ some handle) :
    effect.apply values given handle = values handle := by
  cases effect with
  | idle => rfl
  | bind content =>
      cases given with
      | none => rfl
      | some given =>
          apply Function.update_of_ne
          rintro rfl
          exact fresh rfl
  | rewrite target change =>
      apply Function.update_of_ne
      rintro rfl
      exact other rfl
  | unbind target =>
      apply Function.update_of_ne
      rintro rfl
      exact other rfl

end Effect

/-- What is seen after a call: its effect if it ends well, and what was seen before if it fails. -/
def Reply.settle (reply : Reply) (effect : Effect ν) (values : Handle → Option ν) :
    Handle → Option ν :=
  if reply.status = .ok then effect.apply values reply.handle? else values

theorem Reply.settle_done (effect : Effect ν) (values : Handle → Option ν) :
    Reply.done.settle effect values = effect.apply values none := rfl

theorem Reply.settle_bind (handle : Handle) (content : (Handle → Option ν) → Option ν)
    (values : Handle → Option ν) :
    (Reply.give (.handle handle)).settle (.bind content) values =
      Function.update values handle (content values) := rfl

theorem Reply.settle_of_ne {reply : Reply} (failure : reply.status ≠ .ok) (effect : Effect ν)
    (values : Handle → Option ν) : reply.settle effect values = values :=
  if_neg failure

theorem Reply.settle_idle (reply : Reply) (values : Handle → Option ν) :
    reply.settle .idle values = values :=
  ite_self values

/-- A call that saw `values` ended with `reply` and left `after` behind, as its effect says. -/
structure Served (reading : Reading α ν) (effect : Effect ν) (values : Handle → Option ν)
    (reply : Reply) (after : Table α) : Prop where
  /-- What is seen afterwards. -/
  represents : after.Represents reading (reply.settle effect values)
  /-- Nothing was seen behind a handle that is handed out. -/
  fresh : ∀ handle, reply.handle? = some handle → values handle = none
  /-- Something is seen behind a handle that is handed out. -/
  bound : ∀ handle, reply.handle? = some handle → reply.settle effect values handle ≠ none
  /-- Where something was seen, something is still seen, unless it is given up. -/
  live : ∀ handle, effect ≠ .unbind handle → values handle ≠ none →
    reply.settle effect values handle ≠ none
  /-- Something taken in gets a handle. -/
  given : effect.takesIn = true → reply.status = .ok → ∃ handle, reply.out = some (.handle handle)

/-- A reply that hands out no handle leaves only half to show, if the call takes nothing in. -/
theorem Served.of_silent {reading : Reading α ν} {effect : Effect ν}
    {values : Handle → Option ν} {reply : Reply} {after : Table α} (silent : reply.handle? = none)
    (inert : effect.takesIn = true → reply.status ≠ .ok)
    (represents : after.Represents reading (reply.settle effect values))
    (live : ∀ handle, effect ≠ .unbind handle → values handle ≠ none →
      reply.settle effect values handle ≠ none) : Served reading effect values reply after where
  represents := represents
  fresh := by
    intro handle given
    rw [silent] at given
    exact absurd given (Option.some_ne_none handle).symm
  bound := by
    intro handle given
    rw [silent] at given
    exact absurd given (Option.some_ne_none handle).symm
  live := live
  given := fun takes success => absurd success (inert takes)

namespace Operation

variable {reading : Reading α ν} {effect : Effect ν} {handle : Handle}

/-- The work serves its caller. -/
def Works (body : Step (Table α) Ending) (reading : Reading α ν) (effect : Effect ν) : Prop :=
  ∀ (table : Table α) (values : Handle → Option ν), table.Represents reading values →
    ∃ reply after written, body.run table = ⟨.ok reply, after, written⟩ ∧
      Served reading effect values reply after

/-- The call serves its caller, as long as no logger panics. -/
def Serves (operation : Operation α) (reading : Reading α ν) (effect : Effect ν) : Prop :=
  ∀ (table : Table α) (values : Handle → Option ν), table.Represents reading values →
    ∃ reply after records,
      operation.perform ⟨table, false⟩ none = ⟨⟨after, false⟩, reply, records, none, none⟩ ∧
        Served reading effect values reply after

end Operation

/-- A span that is turned away is an invalid argument. -/
theorem Span.status_of_elements_eq_error {ι : Type} {span : Span ι} {status : Status}
    (refused : span.elements = .error status) : status = .invalidArgument := by
  unfold elements at refused
  split at refused
  · exact nomatch refused
  · split at refused
    · exact (Except.error.inj refused).symm
    · exact nomatch refused

namespace Table.Represents

variable {table : Table α} {reading : Reading α ν} {values : Handle → Option ν}

theorem served_of_settle_eq (represents : table.Represents reading values) {reply : Reply}
    {effect : Effect ν} (same : reply.settle effect values = values)
    (silent : reply.handle? = none) (inert : effect.takesIn = true → reply.status ≠ .ok) :
    Served reading effect values reply table :=
  .of_silent silent inert (same.symm ▸ represents) fun _ _ seen => same.symm ▸ seen

/-- A failure changes nothing seen. -/
theorem served_failed (represents : table.Represents reading values) {status : Status}
    (failure : status ≠ .ok) (effect : Effect ν) :
    Served reading effect values (.failed status) table :=
  represents.served_of_settle_eq (Reply.settle_of_ne failure effect values) rfl fun _ => failure

/-- A call that finds no value behind its handle changes nothing seen. -/
theorem served_invalidHandle (represents : table.Represents reading values) (effect : Effect ν) :
    Served reading effect values (.failed .invalidHandle) table :=
  represents.served_failed (by decide) effect

end Table.Represents

theorem update_some_ne_none {values : Handle → Option ν} {other : Handle}
    (bound : values other ≠ none) (handle : Handle) (seen : ν) :
    Function.update values handle (some seen) other ≠ none := by
  rcases eq_or_ne other handle with rfl | apart
  · rw [Function.update_self]
    exact Option.some_ne_none seen
  · rw [Function.update_of_ne apart]
    exact bound

namespace Operation

variable {reading : Reading α ν} {effect : Effect ν} {handle : Handle}

theorem serves_refused {status : Status} (failure : status ≠ .ok) :
    (refused status : Operation α).Serves reading effect := fun _ _ represents =>
  ⟨_, _, _, rfl, represents.served_failed failure effect⟩

/-- A call without what it needs is refused. -/
theorem serves_invalidArgument :
    (refused .invalidArgument : Operation α).Serves reading effect :=
  serves_refused (by decide)

theorem serves_work {body : Step (Table α) Ending} (works : Works body reading effect) :
    (work body true).Serves reading effect := by
  intro table values represents
  obtain ⟨reply, after, written, ran, served⟩ := works table values represents
  exact ⟨_, _, _, perform_work ran true, served⟩

/-- A call that only looks may lack a place for its answer. -/
theorem serves_work_idle {body : Step (Table α) Ending} (works : Works body reading .idle)
    (placed : Bool) : (work body placed).Serves reading .idle := by
  cases placed with
  | true => exact serves_work works
  | false =>
      intro table values represents
      obtain ⟨reply, after, written, ran, served⟩ := works table values represents
      have kept := served.represents
      rw [Reply.settle_idle] at kept
      exact ⟨_, _, _, perform_work ran false, kept.served_failed (by decide) .idle⟩

/-! ## Shape by shape -/

/-- Work that ends in a reply right away, whatever value it finds, only looks. -/
theorem works_withValue {next : α → Step (Table α) Ending}
    (looks : ∀ value, reading.Fits value →
      ∃ reply, next value = finish reply ∧ reply.handle? = none) :
    Works (withValue handle next) reading .idle := by
  intro table values represents
  cases found : table.find? handle with
  | none =>
      exact ⟨_, _, _, run_withValue_of_none found next,
        represents.served_invalidHandle .idle⟩
  | some value =>
      obtain ⟨reply, ends, silent⟩ := looks value (represents.fits handle value found)
      have ran := run_withValue_of_some found next
      rw [ends] at ran
      exact ⟨_, _, _, ran,
        represents.served_of_settle_eq (Reply.settle_idle reply values) silent nofun⟩

/-- Work that only looks has every effect that changes nothing. -/
theorem Works.of_idle {body : Step (Table α) Ending} (works : Works body reading .idle)
    (inert : effect.takesIn = false) (same : ∀ values given, effect.apply values given = values) :
    Works body reading effect := by
  intro table values represents
  obtain ⟨reply, after, written, ran, kept, fresh, bound, -⟩ := works table values represents
  rw [Reply.settle_idle] at kept bound
  refine ⟨reply, after, written, ran, kept.served_of_settle_eq ?_ ?_ ?_⟩
  · rw [Reply.settle, same, ite_self]
  · cases given : reply.handle? with
    | none => rfl
    | some handle => exact absurd (fresh handle given) (bound handle given)
  · intro takes
    exact nomatch takes.symm.trans inert

theorem works_register {value : α} (fits : reading.Fits value) :
    Works (register value) reading (.bind fun _ => some (reading.view value)) := by
  intro table values represents
  rcases run_register represents.wellFormed value with
    ⟨-, given, after, ran, ready, fresh, find?_eq⟩ | ⟨-, ran⟩
  · refine ⟨_, _, _, ran, ?_, ?_, ?_, ?_, fun _ _ => ⟨given, rfl⟩⟩
    · apply represents.rebind ready find?_eq
      rintro _ ⟨⟩
      exact fits
    · rintro _ ⟨⟩
      exact represents.eq_none fresh
    · rintro _ ⟨⟩
      rw [Reply.settle_bind, Function.update_self]
      exact Option.some_ne_none _
    · intro other _ seen
      exact update_some_ne_none seen given (reading.view value)
  · exact ⟨_, _, _, ran, represents.served_failed (by decide) _⟩

/-- Registering the value behind a handle copies what is seen behind that handle. -/
theorem works_withValue_register (handle : Handle) :
    Works (withValue handle register) reading (.bind (· handle)) := by
  intro table values represents
  cases found : table.find? handle with
  | none =>
      exact ⟨_, _, _, run_withValue_of_none found register,
        represents.served_invalidHandle _⟩
  | some value =>
      have fits := represents.fits handle value found
      obtain ⟨reply, after, written, ran, served⟩ := works_register fits table values represents
      refine ⟨reply, after, written, ?_, ?_⟩
      · rw [run_withValue_of_some found, ran]
      · have same : reply.settle (.bind (· handle)) values =
            reply.settle (.bind fun _ => some (reading.view value)) values := by
          simp only [Reply.settle, Effect.apply, represents.eq_some found]
        obtain ⟨copied, fresh, bound, live, given⟩ := served
        rw [← same] at copied bound live
        exact ⟨copied, fresh, bound, fun other _ => live other nofun, fun _ => given rfl⟩

theorem works_release (handle : Handle) : Works (release handle) reading (.unbind handle) := by
  intro table values represents
  cases found : table.find? handle with
  | none =>
      exact ⟨_, _, _, run_release_of_none found, represents.served_invalidHandle _⟩
  | some value =>
      have wellFormed := represents.wellFormed
      refine ⟨_, _, _, run_release_of_some found, .of_silent rfl nofun ?_ ?_⟩
      · exact represents.rebind (Table.wellFormed_vacate wellFormed found)
          (Table.find?_vacate wellFormed found) nofun
      · intro other kept seen
        have apart : other ≠ handle := fun same => kept (congrArg Effect.unbind same.symm)
        rw [Reply.settle_done, Effect.apply, Function.update_of_ne apart]
        exact seen

/-- A change of one value that does to what is seen of the value what `rewrite` says, or fails and
leaves the value as it was. -/
def Amends (change : Step α Ending) (reading : Reading α ν) (rewrite : ν → Option ν) : Prop :=
  ∀ before, reading.Fits before →
    (∃ after written, change.run before = ⟨.ok .done, after, written⟩ ∧ reading.Fits after ∧
        rewrite (reading.view before) = some (reading.view after)) ∨
      ∃ status written, change.run before = ⟨.ok (.failed status), before, written⟩ ∧ status ≠ .ok

theorem served_fill {table : Table α} {values : Handle → Option ν} {value : α}
    (represents : table.Represents reading values) (found : table.find? handle = some value)
    {change : Step α Ending} (rewrite : (Handle → Option ν) → ν → Option ν)
    (amends : Amends change reading (rewrite values)) :
    ∃ reply, (change.run value).value = .ok reply ∧
      Served reading (.rewrite handle rewrite) values reply
        (table.fill handle.parts.slot (change.run value).store) := by
  have seen := represents.eq_some found
  rcases amends value (represents.fits handle value found) with
    ⟨after, written, ran, fits, changed⟩ | ⟨status, written, ran, failure⟩
  · rw [ran]
    have settled : Reply.done.settle (.rewrite handle rewrite) values =
        Function.update values handle (some (reading.view after)) := by
      rw [Reply.settle_done, Effect.apply, seen, Option.bind_some, changed]
    refine ⟨_, rfl, .of_silent rfl nofun ?_ ?_⟩
    · rw [settled]
      exact represents.fill found fits
    · intro other _ seen
      rw [settled]
      exact update_some_ne_none seen handle (reading.view after)
  · rw [ran]
    refine ⟨_, rfl, ?_⟩
    have same := represents.fill found (represents.fits handle value found)
    rw [← seen, Function.update_eq_self] at same
    exact same.served_failed failure _

theorem works_amend {change : Step α Ending} {rewrite : ν → Option ν}
    (amends : Amends change reading rewrite) :
    Works (amend handle change) reading (.rewrite handle fun _ => rewrite) := by
  intro table values represents
  cases found : table.find? handle with
  | none =>
      exact ⟨_, _, _, run_amend_of_none found change, represents.served_invalidHandle _⟩
  | some value =>
      obtain ⟨reply, ended, served⟩ := served_fill represents found (fun _ => rewrite) amends
      have ran := run_amend_of_some found change
      simp only [ended] at ran
      exact ⟨_, _, _, ran, served⟩

/-- A change of the value behind one handle, with the value behind another at hand, serves. -/
theorem works_amendFrom {target source : Handle} (distinct : target ≠ source)
    {change : α → Step α Ending} (rewrite : ν → ν → Option ν)
    (amends : ∀ beside, reading.Fits beside →
      Amends (change beside) reading (rewrite (reading.view beside))) :
    Works (amendFrom target source change) reading
      (.rewrite target fun values seen => (values source).bind (rewrite · seen)) := by
  intro table values represents
  rcases Decidable.em (table.find? target = none ∨ table.find? source = none ∨
      target = source) with missing | both
  · exact ⟨_, _, _, run_amendFrom_of_none missing change, represents.served_invalidHandle _⟩
  · simp only [not_or, ← ne_eq, Option.ne_none_iff_exists'] at both
    obtain ⟨⟨value, found⟩, ⟨beside, foundBeside⟩, -⟩ := both
    have amends' := amends beside (represents.fits source beside foundBeside)
    obtain ⟨reply, ended, served⟩ := served_fill represents found
      (fun values seen => (values source).bind (rewrite · seen))
      (by simpa only [represents.eq_some foundBeside, Option.bind_some] using amends')
    have ran := run_amendFrom_of_some found foundBeside distinct change
    simp only [ended] at ran
    exact ⟨_, _, _, ran, served⟩

end Operation

end PackedStore
