import PackedStore.Proofs.Table.Request

/-!
# Families of tables

Several tables with tags of their own take requests in any order. No handle is ever given out twice,
by one table or by two, and a handle names nothing before it is given out and after its value has
been given up.
-/

namespace PackedStore

namespace Table

variable {α : Type}

/-- No operation of the table finds a value behind `handle`. -/
structure Unresolved (table : Table α) (handle : Handle) : Prop where
  /-- It cannot be looked up. -/
  get_eq : ((get handle).run table).value = none
  /-- Nothing is changed through it. -/
  update_eq : ∀ (β : Type) (change : Step α β), ((update handle change).run table).value = none
  /-- It is no first of two handles. -/
  pair_target_eq : ∀ source : Handle, ((pair handle source).run table).value = none
  /-- It is no second of two handles. -/
  pair_source_eq : ∀ target : Handle, ((pair target handle).run table).value = none
  /-- Nothing is given up through it. -/
  remove_eq : ((remove handle).run table).value = none

theorem unresolved_of_find? {table : Table α} {handle : Handle}
    (missing : table.find? handle = none) : table.Unresolved handle := by
  constructor
  · rw [run_get_of_none missing]
  · intro β change
    rw [run_update_of_none missing]
  · intro source
    rw [value_pair, missing]
    split <;> rfl
  · intro target
    rw [value_pair, missing]
    cases table.find? target with
    | none => split <;> rfl
    | some value => split <;> rfl
  · rw [run_remove_of_none missing]

/-- A handle that names nothing still names nothing after a turn that does not give it out. -/
theorem Turn.find?_of_none {before after : Table α} {request : Request α} {response : Response α}
    (turn : Turn before request response after) (ready : before.WellFormed) {handle : Handle}
    (missing : before.find? handle = none) (other : response.handle? ≠ some handle) :
    after.find? handle = none := by
  have apart : ∀ {named : Handle} {value : α}, before.find? named = some value →
      handle ≠ named := by
    rintro named value found rfl
    exact nomatch missing.symm.trans found
  cases turn with
  | reused top present nonzero =>
      rw [find?_reuse ready present, Function.update_of_ne, missing]
      rintro rfl
      exact other rfl
  | grew empty room =>
      rw [find?_push room, Function.update_of_ne, missing]
      rintro rfl
      exact other rfl
  | replaced found => rw [find?_fill ready found, Function.update_of_ne (apart found), missing]
  | replacedFrom found => rw [find?_fill ready found, Function.update_of_ne (apart found), missing]
  | removed found => rw [find?_vacate ready found, Function.update_of_ne (apart found), missing]
  | full | seen | missed | missedFrom | absent => exact missing

/-- After giving up the value behind a handle, if there is one, a table finds nothing behind it. -/
theorem WellFormed.find?_remove {table : Table α} (wellFormed : table.WellFormed)
    (handle : Handle) : ((remove handle).run table).store.find? handle = none := by
  cases found : table.find? handle with
  | none =>
      rw [run_remove_of_none found]
      exact found
  | some value =>
      rw [run_remove_of_some found, find?_vacate wellFormed found]
      exact Function.update_self _ _ _

end Table

/-- One table to each name; the tables may hold values of different types. -/
structure Family {ι : Type} (α : ι → Type) where
  /-- The table of that name. -/
  table : ∀ name : ι, Table (α name)

namespace Family

open Table

variable {ι : Type} {α : ι → Type}

/-- A request to one of the tables. -/
structure Visit (α : ι → Type) where
  /-- Which table is asked. -/
  name : ι
  /-- What it is asked. -/
  request : Request (α name)

/-- Empty tables of the given kinds and tags. -/
def start (kind : ι → String) (tag : ι → UInt8) : Family α :=
  ⟨fun name => .empty (kind name) (tag name)⟩

/-- What the table that is asked leaves behind. -/
def trace (family : Family α) (visit : Visit α) :
    Trace (Table (α visit.name)) (Response (α visit.name)) :=
  visit.request.perform.run (family.table visit.name)

variable [DecidableEq ι]

/-- The tables after a visit. -/
def visit (family : Family α) (visit : Visit α) : Family α :=
  ⟨Function.update family.table visit.name (family.trace visit).store⟩

/-- The tables after a list of visits. -/
def after (family : Family α) (visits : List (Visit α)) : Family α :=
  visits.foldl Family.visit family

/-- The handles given out during a list of visits, in order, each with the table that gave it
out. -/
def given (family : Family α) : List (Visit α) → List (ι × Handle)
  | [] => []
  | visit :: visits =>
      ((family.trace visit).value.handle?.map (visit.name, ·)).toList ++
        (family.visit visit).given visits

/-! ## Tables with tags of their own -/

/-- Every table is well formed and carries its tag. -/
structure Tagged (tag : ι → UInt8) (family : Family α) : Prop where
  /-- Every table is well formed. -/
  wellFormed : ∀ name, (family.table name).WellFormed
  /-- Every table has the tag of its name. -/
  tag_eq : ∀ name, (family.table name).tag = tag name

variable {tag : ι → UInt8} {family : Family α}

omit [DecidableEq ι] in
theorem tagged_start (kind : ι → String) (tag : ι → UInt8) :
    (start kind tag : Family α).Tagged tag where
  wellFormed := fun name => wellFormed_empty (kind name) (tag name)
  tag_eq := fun _ => rfl

theorem table_visit_self (family : Family α) (visit : Visit α) :
    (family.visit visit).table visit.name = (family.trace visit).store :=
  Function.update_self _ _ _

theorem table_visit_of_ne {visit : Visit α} {name : ι} (other : name ≠ visit.name) :
    (family.visit visit).table name = family.table name :=
  Function.update_of_ne other _ _

theorem Tagged.turn (tagged : family.Tagged tag) (visit : Visit α) :
    Turn (family.table visit.name) visit.request (family.trace visit).value
      ((family.visit visit).table visit.name) := by
  rw [table_visit_self]
  exact (tagged.wellFormed visit.name).turn visit.request

theorem Tagged.visit (tagged : family.Tagged tag) (visit : Visit α) :
    (family.visit visit).Tagged tag := by
  have turn := tagged.turn visit
  constructor
  · intro name
    rcases eq_or_ne name visit.name with rfl | other
    · exact turn.wellFormed (tagged.wellFormed _)
    · rw [table_visit_of_ne other]
      exact tagged.wellFormed name
  · intro name
    rcases eq_or_ne name visit.name with rfl | other
    · exact turn.tag_eq.trans (tagged.tag_eq _)
    · rw [table_visit_of_ne other]
      exact tagged.tag_eq name

theorem Tagged.after (tagged : family.Tagged tag) (visits : List (Visit α)) :
    (family.after visits).Tagged tag := by
  induction visits generalizing family with
  | nil => exact tagged
  | cons visit visits induction => exact induction (tagged.visit visit)

/-! ## Handles given out by a family -/

theorem mem_given_cons {visit : Visit α} {visits : List (Visit α)} {name : ι} {handle : Handle} :
    (name, handle) ∈ family.given (visit :: visits) ↔
      (name = visit.name ∧ (family.trace visit).value.handle? = some handle) ∨
        (name, handle) ∈ (family.visit visit).given visits := by
  rw [given, List.mem_append, Option.mem_toList, Option.map_eq_some_iff]
  apply or_congr_left
  constructor
  · rintro ⟨_, fresh, same⟩
    obtain ⟨rfl, rfl⟩ := Prod.mk.inj same
    exact ⟨rfl, fresh⟩
  · rintro ⟨rfl, fresh⟩
    exact ⟨handle, fresh, rfl⟩

/-- One visit adds the handle of its response to those given out by the table it asks. -/
theorem Tagged.issued_visit (tagged : family.Tagged tag) (visit : Visit α) (name : ι)
    (handle : Handle) :
    ((family.visit visit).table name).Issued handle ↔
      (name = visit.name ∧ (family.trace visit).value.handle? = some handle) ∨
        (family.table name).Issued handle := by
  rcases eq_or_ne name visit.name with rfl | other
  · rw [(tagged.turn visit).issued_iff (tagged.wellFormed _) handle, eq_self, true_and]
  · rw [table_visit_of_ne other]
    simp [other]

/-- The handles that a table has given out after a list of visits are those from before and those
given out meanwhile. -/
theorem Tagged.issued_after (tagged : family.Tagged tag) (visits : List (Visit α)) (name : ι)
    (handle : Handle) :
    ((family.after visits).table name).Issued handle ↔
      (name, handle) ∈ family.given visits ∨ (family.table name).Issued handle := by
  induction visits generalizing family with
  | nil => simp [Family.after, given]
  | cons visit visits induction =>
      calc
        (((family.visit visit).after visits).table name).Issued handle ↔
            (name, handle) ∈ (family.visit visit).given visits ∨
              ((family.visit visit).table name).Issued handle := induction (tagged.visit visit)
        _ ↔ (name, handle) ∈ family.given (visit :: visits) ∨
              (family.table name).Issued handle := by
          rw [tagged.issued_visit, mem_given_cons, or_left_comm, or_assoc]

/-- No handle given out has been given out before. -/
theorem Tagged.not_issued_of_mem_given (tagged : family.Tagged tag) {visits : List (Visit α)}
    {name : ι} {handle : Handle} (mem : (name, handle) ∈ family.given visits) :
    ¬(family.table name).Issued handle := by
  induction visits generalizing family with
  | nil => exact nomatch mem
  | cons visit visits induction =>
      rcases mem_given_cons.mp mem with ⟨rfl, given⟩ | later
      · exact (tagged.turn visit).not_issued (tagged.wellFormed _) given
      · intro issued
        apply induction (tagged.visit visit) later
        exact (tagged.issued_visit visit name handle).mpr (.inr issued)

/-- A handle given out carries the tag of its table. -/
theorem Tagged.tag_of_mem_given (tagged : family.Tagged tag) {visits : List (Visit α)}
    {name : ι} {handle : Handle} (mem : (name, handle) ∈ family.given visits) :
    handle.parts.tag = tag name := by
  have issued := (tagged.issued_after visits name handle).mpr (.inl mem)
  exact issued.1.trans ((tagged.after visits).tag_eq name)

/-- Tables with different tags give out no handle twice, each for itself or one after another. -/
theorem Tagged.nodup_given (tagged : family.Tagged tag) (distinct : Function.Injective tag)
    (visits : List (Visit α)) : ((family.given visits).map (·.2)).Nodup := by
  induction visits generalizing family with
  | nil => exact List.nodup_nil
  | cons visit visits induction =>
      have rest := induction (tagged.visit visit)
      rw [given]
      cases fresh : (family.trace visit).value.handle? with
      | none => exact rest
      | some handle =>
          refine List.nodup_cons.mpr ⟨?_, rest⟩
          rintro again
          obtain ⟨⟨name, _⟩, mem, rfl⟩ := List.mem_map.mp again
          have named : (visit.name, _) ∈ family.given (visit :: visits) :=
            mem_given_cons.mpr (.inl ⟨rfl, fresh⟩)
          have same : name = visit.name := by
            apply distinct
            rw [← (tagged.visit visit).tag_of_mem_given mem, ← tagged.tag_of_mem_given named]
          subst same
          apply (tagged.visit visit).not_issued_of_mem_given mem
          exact (tagged.issued_visit visit _ _).mpr (.inl ⟨rfl, fresh⟩)

/-- A handle that a table gave out and that names nothing in it never names anything again. -/
theorem Tagged.find?_after_of_dead (tagged : family.Tagged tag) (visits : List (Visit α))
    {name : ι} {handle : Handle} (issued : (family.table name).Issued handle)
    (missing : (family.table name).find? handle = none) :
    ((family.after visits).table name).find? handle = none := by
  induction visits generalizing family with
  | nil => exact missing
  | cons visit visits induction =>
      apply induction (tagged.visit visit)
      · exact (tagged.issued_visit visit name handle).mpr (.inr issued)
      · rcases eq_or_ne name visit.name with rfl | other
        · have turn := tagged.turn visit
          exact turn.find?_of_none (tagged.wellFormed _) missing fun given =>
            turn.not_issued (tagged.wellFormed _) given issued
        · rw [table_visit_of_ne other]
          exact missing

/-- However empty tables with different tags are asked, they give out no handle twice and never the
zero handle; a table finds nothing behind a handle that it has not given out; and from the moment it
has given up the value behind a handle, it finds nothing behind that handle any more. -/
theorem nodup_given_and_unresolved (kind : ι → String) (tag : ι → UInt8)
    (distinct : Function.Injective tag) (visits : List (Visit α)) :
    let family : Family α := start kind tag
    ((family.given visits).map (·.2)).Nodup ∧
      (∀ name handle, (name, handle) ∈ family.given visits → handle ≠ .zero) ∧
      (∀ name handle, (name, handle) ∉ family.given visits →
        ((family.after visits).table name).Unresolved handle) ∧
      ∀ name handle earlier later,
        visits = earlier ++ ⟨name, .remove handle⟩ :: later →
          ((remove handle).run ((family.after earlier).table name)).value ≠ none →
            ((family.after visits).table name).Unresolved handle := by
  intro family
  have tagged : family.Tagged tag := tagged_start kind tag
  have blank : ∀ name handle, ¬(family.table name).Issued handle := fun name handle =>
    not_issued_empty (kind name) (tag name) handle
  refine ⟨tagged.nodup_given distinct visits, ?_, ?_, ?_⟩
  · intro name handle mem
    exact ((tagged.issued_after visits name handle).mpr (.inl mem)).ne_zero
  · intro name handle absent
    apply unresolved_of_find?
    apply ((tagged.after visits).wellFormed name).find?_of_not_issued
    rw [tagged.issued_after, or_iff_left (blank name handle)]
    exact absent
  · rintro name handle earlier later rfl success
    have middle := tagged.after earlier
    have ready := middle.wellFormed name
    apply unresolved_of_find?
    rw [Family.after, List.foldl_append]
    cases found : ((family.after earlier).table name).find? handle with
    | none => exact absurd (by rw [run_remove_of_none found]) success
    | some value =>
        have turn := middle.turn ⟨name, .remove handle⟩
        apply (middle.visit ⟨name, .remove handle⟩).find?_after_of_dead later
        · exact (turn.issued_iff ready handle).mpr (.inr (ready.issued_of_find? found))
        · rw [table_visit_self]
          exact ready.find?_remove handle

/-- Two tables, of which one reuses a slot: its three handles differ, and the one given up stays
dead. -/
theorem nodup_given_and_unresolved_of_two :
    let family : Family fun _ : Bool => Nat :=
      start (fun _ => "number") fun name => bif name then 2 else 1
    let handle : Handle := .pack 1 0 1
    let visits : List (Visit fun _ : Bool => Nat) :=
      [⟨false, .insert 7⟩, ⟨true, .insert 8⟩, ⟨false, .remove handle⟩, ⟨false, .insert 9⟩]
    family.given visits = [(false, handle), (true, .pack 2 0 1), (false, .pack 1 0 2)] ∧
      ((family.given visits).map (·.2)).Nodup ∧
      ((family.after visits).table false).Unresolved handle := by
  intro family handle visits
  have distinct : Function.Injective fun name : Bool => bif name then (2 : UInt8) else 1 := by
    intro left right
    cases left <;> cases right <;> decide
  obtain ⟨nodup, -, -, dead⟩ :=
    nodup_given_and_unresolved (fun _ => "number") _ distinct visits
  refine ⟨by decide, nodup, ?_⟩
  exact dead false handle [⟨false, .insert 7⟩, ⟨true, .insert 8⟩] [⟨false, .insert 9⟩] rfl
    (by decide)

end Family

end PackedStore
