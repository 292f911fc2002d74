import PackedStore.Proofs.Table.Bindings

/-!
# The account of all slots

Every slot of a table is live, free or retired, and the free list names each free slot once and no
other. So a value taken in never lands on another, a table makes a new slot only when none is free,
and it is full exactly when its live and its retired slots make up all slots that it may have.
-/

namespace PackedStore

variable {α : Type}

/-- What has become of a slot. -/
inductive Standing where
  /-- The slot holds a value. -/
  | live
  /-- The slot waits for a value. -/
  | free
  /-- The slot is out of use for good. -/
  | retired
deriving DecidableEq, Repr

/-- What the content of a slot tells of its standing. -/
def Slot.standing (slot : Slot α) : Standing :=
  match slot.value with
  | some _ => .live
  | none => if slot.generation = 0 then .retired else .free

namespace Table

/-- The slot at `index` has a standing, by its content and by the free list alike. -/
def Stands (table : Table α) (index : Nat) : Standing → Prop
  | .live => index ∉ table.free ∧ ∃ generation value, generation ≠ 0 ∧
      table.slots[index]? = some ⟨generation, some value⟩
  | .free => table.free.count index = 1 ∧ ∃ generation, generation ≠ 0 ∧
      table.slots[index]? = some ⟨generation, none⟩
  | .retired => index ∉ table.free ∧ table.slots[index]? = some ⟨0, none⟩

/-- The number of slots that have a standing by their content. -/
def tally (table : Table α) (standing : Standing) : Nat :=
  table.slots.countP fun slot => slot.standing = standing

theorem Stands.standing_eq {table : Table α} {index : Nat} {standing : Standing}
    (stands : table.Stands index standing) :
    ∃ slot, table.slots[index]? = some slot ∧ slot.standing = standing := by
  cases standing with
  | live =>
      obtain ⟨-, generation, value, -, present⟩ := stands
      exact ⟨_, present, rfl⟩
  | free =>
      obtain ⟨-, generation, nonzero, present⟩ := stands
      exact ⟨_, present, if_neg nonzero⟩
  | retired =>
      obtain ⟨-, present⟩ := stands
      exact ⟨_, present, rfl⟩

/-- The free list names exactly the slots that are free by their content. -/
theorem WellFormed.mem_free_iff_standing {table : Table α} (wellFormed : table.WellFormed)
    (index : Nat) :
    index ∈ table.free ↔ ∃ slot, table.slots[index]? = some slot ∧ slot.standing = .free := by
  rw [wellFormed.mem_free_iff]
  constructor
  · rintro ⟨generation, nonzero, present⟩
    exact ⟨_, present, if_neg nonzero⟩
  · rintro ⟨⟨generation, _ | value⟩, present, standing_eq⟩
    · exact ⟨generation, fun zero => by simp [Slot.standing, zero] at standing_eq, present⟩
    · exact nomatch standing_eq

/-- In a well-formed table the content of a slot alone tells its standing. -/
theorem WellFormed.stands_iff {table : Table α} (wellFormed : table.WellFormed) {index : Nat}
    {standing : Standing} :
    table.Stands index standing ↔
      ∃ slot, table.slots[index]? = some slot ∧ slot.standing = standing := by
  refine ⟨Stands.standing_eq, ?_⟩
  rintro ⟨⟨generation, content⟩, present, rfl⟩
  have named := wellFormed.mem_free_iff_standing index
  simp only [present, Option.some.injEq, exists_eq_left'] at named
  cases content with
  | some value =>
      have taken : index ∉ table.free := fun mem => nomatch named.mp mem
      exact ⟨taken, generation, value, wellFormed.generation_ne_zero _ _ _ present, present⟩
  | none =>
      by_cases zero : generation = 0
      · obtain rfl := zero
        have unlisted : index ∉ table.free := fun mem => nomatch named.mp mem
        exact ⟨unlisted, present⟩
      · have free : (Slot.mk generation (none : Option α)).standing = .free := if_neg zero
        rw [free]
        exact ⟨wellFormed.free_nodup.count.trans (if_pos (named.mpr free)), generation, zero,
          present⟩

theorem WellFormed.existsUnique_stands {table : Table α} (wellFormed : table.WellFormed)
    {index : Nat} (inside : index < table.slots.size) :
    ∃! standing, table.Stands index standing := by
  have present := Array.getElem?_eq_getElem inside
  refine ⟨table.slots[index].standing, wellFormed.stands_iff.mpr ⟨_, present, rfl⟩, ?_⟩
  intro standing stands
  obtain ⟨slot, same, rfl⟩ := stands.standing_eq
  rw [Option.some.inj (present.symm.trans same)]

/-! ## Counting -/

/-- Counting entries and counting their places come to the same. -/
theorem countP_eq_countP_range {β : Type} (test : β → Bool) (entries : List β) :
    entries.countP test = (List.range entries.length).countP fun place =>
      entries[place]?.any test := by
  induction entries with
  | nil => rfl
  | cons entry entries induction =>
      rw [List.countP_cons, List.length_cons, List.range_succ_eq_map, List.countP_cons,
        List.countP_map, induction]
      rfl

theorem countP_standing (slots : List (Slot α)) :
    (slots.countP fun slot => slot.standing = .live) +
        (slots.countP fun slot => slot.standing = .free) +
        (slots.countP fun slot => slot.standing = .retired) =
      slots.length := by
  induction slots with
  | nil => rfl
  | cons slot slots induction =>
      simp only [List.countP_cons, List.length_cons]
      cases slot.standing <;> simp <;> omega

theorem tally_add_tally_add_tally (table : Table α) :
    table.tally .live + table.tally .free + table.tally .retired = table.slots.size := by
  simp only [tally, ← Array.countP_toList]
  exact countP_standing table.slots.toList

/-- The free list is as long as there are free slots. -/
theorem WellFormed.tally_free {table : Table α} (wellFormed : table.WellFormed) :
    table.tally .free = table.free.length := by
  have same : ((List.range table.slots.size).filter fun index =>
      table.slots[index]?.any fun slot => slot.standing = .free).Perm table.free := by
    refine (List.perm_ext_iff_of_nodup (List.nodup_range.filter _) wellFormed.free_nodup).mpr ?_
    intro index
    rw [wellFormed.mem_free_iff_standing, List.mem_filter, List.mem_range, Option.any_eq_true]
    simp only [decide_eq_true_eq, and_iff_right_iff_imp]
    rintro ⟨slot, present, -⟩
    exact (Array.getElem?_eq_some_iff.mp present).1
  rw [tally, ← Array.countP_toList, countP_eq_countP_range, Array.length_toList, ← same.length_eq,
    List.countP_eq_length_filter]
  simp only [Array.getElem?_toList]

/-- A table is full exactly if its live and its retired slots make up all it may have. -/
theorem WellFormed.full_iff {table : Table α} (wellFormed : table.WellFormed) :
    table.Full ↔ table.tally .live + table.tally .retired = maxSlots := by
  have total := table.tally_add_tally_add_tally
  have size_le := wellFormed.size_le
  rw [wellFormed.tally_free] at total
  rw [Full, ← List.length_eq_zero_iff]
  omega

/-! ## Taking a value in -/

/-- `after` is `table` with `value` in a slot that was free or is new, and `handle` names it. -/
structure Lodges (table : Table α) (value : α) (handle : Handle) (after : Table α) : Prop where
  /-- The slot was on the free list, or follows all slots there were. -/
  slot : table.Stands handle.parts.slot .free ∨ handle.parts.slot = table.slots.size
  /-- The slot is live. -/
  live : after.Stands handle.parts.slot .live
  /-- The handle names the value. -/
  find?_eq : after.find? handle = some value
  /-- Every other slot holds what it held. -/
  slots_eq : ∀ index, index ≠ handle.parts.slot → after.slots[index]? = table.slots[index]?
  /-- Every other slot stands as it stood. -/
  stands_iff : ∀ index standing, index ≠ handle.parts.slot →
    (after.Stands index standing ↔ table.Stands index standing)

/-- A value in a slot that was free or is new is lodged there, whatever happens to the free list as
long as it stays right. -/
theorem PutsSlot.lodges {table after : Table α} {index : Nat} {generation : UInt32} {value : α}
    (puts : PutsSlot table index ⟨generation, some value⟩ after) (wellFormed : table.WellFormed)
    (ready : after.WellFormed) (small : index < 2 ^ 24)
    (slot : table.Stands index .free ∨ index = table.slots.size) :
    table.Lodges value (.pack table.tag index generation) after := by
  have parts_eq := Handle.parts_pack table.tag generation small
  have present : after.slots[index]? = some ⟨generation, some value⟩ := by
    rw [puts.slots_eq, if_pos rfl]
  have slots_eq : ∀ place, place ≠ index → after.slots[place]? = table.slots[place]? := by
    intro place other
    rw [puts.slots_eq, if_neg other]
  constructor
  case slot =>
    rw [parts_eq]
    exact slot
  case live =>
    rw [parts_eq, ready.stands_iff]
    exact ⟨_, present, rfl⟩
  case find?_eq =>
    rw [find?_eq_some_iff, parts_eq]
    exact ⟨puts.tag_eq.symm, present⟩
  case slots_eq =>
    rw [parts_eq]
    exact slots_eq
  case stands_iff =>
    rw [parts_eq]
    intro place standing other
    rw [ready.stands_iff, wellFormed.stands_iff, slots_eq place other]

/-- No value had to leave its slot. -/
theorem Lodges.slots_eq_of_live {table after : Table α} {value : α} {handle : Handle}
    (lodges : table.Lodges value handle after) (wellFormed : table.WellFormed) {index : Nat}
    (live : table.Stands index .live) : after.slots[index]? = table.slots[index]? := by
  apply lodges.slots_eq
  rintro rfl
  obtain ⟨slot, present, taken⟩ := wellFormed.stands_iff.mp live
  rcases lodges.slot with free | new
  · obtain ⟨same, present', vacant⟩ := wellFormed.stands_iff.mp free
    obtain rfl : same = slot := Option.some.inj (present'.symm.trans present)
    exact nomatch taken.symm.trans vacant
  · rw [new, Array.getElem?_size] at present
    exact nomatch present

/-- What taking `value` in does to the slots of a table. -/
structure Admits (table : Table α) (value : α)
    (trace : Trace (Table α) (Except Error Handle)) : Prop where
  /-- A slot that holds a value keeps it. -/
  kept : ∀ index, table.Stands index .live → trace.store.slots[index]? = table.slots[index]?
  /-- A slot is made only if none is free. -/
  grows : trace.store.slots.size ≠ table.slots.size → ∀ index, ¬table.Stands index .free
  /-- The value is turned away exactly if all slots that the table may have are live or retired. -/
  fails_iff : (∃ error, trace.value = .error error) ↔
    table.tally .live + table.tally .retired = 2 ^ 24
  /-- A value turned away leaves the table as it was. -/
  untouched : (∃ error, trace.value = .error error) → trace.store = table
  /-- A value that is not turned away makes one slot live, which was free or is new. -/
  lodges : ∀ handle, trace.value = .ok handle → table.Lodges value handle trace.store

/-- A table that is not full admits a value by taking it in. -/
theorem WellFormed.admits_of_not_full {table after : Table α} (wellFormed : table.WellFormed)
    (not_full : ¬table.Full) {value : α} {handle : Handle} {written : List (Entry (Table α))}
    (grows : after.slots.size ≠ table.slots.size → ∀ index, ¬table.Stands index .free)
    (lodges : table.Lodges value handle after) :
    table.Admits value ⟨.ok handle, after, written⟩ where
  kept := fun _ live => lodges.slots_eq_of_live wellFormed live
  grows := grows
  fails_iff := by
    refine Iff.trans ⟨?_, ?_⟩ wellFormed.full_iff
    · rintro ⟨error, failed⟩
      exact nomatch failed
    · intro full
      exact absurd full not_full
  untouched := by
    rintro ⟨error, failed⟩
    exact nomatch failed
  lodges := by
    rintro _ ⟨⟩
    exact lodges

theorem WellFormed.admits_of_full {table : Table α} (wellFormed : table.WellFormed)
    (full : table.Full) {value : α} {error : Error} {written : List (Entry (Table α))} :
    table.Admits value ⟨.error error, table, written⟩ where
  kept := fun _ _ => rfl
  grows := fun grown => absurd rfl grown
  fails_iff := Iff.trans ⟨fun _ => full, fun _ => ⟨error, rfl⟩⟩ wellFormed.full_iff
  untouched := fun _ => rfl
  lodges := nofun

/-- The cases are those of taking a value in: a slot on the free list, none there but room for a new
one, and neither. -/
theorem WellFormed.admits {table : Table α} (wellFormed : table.WellFormed) (value : α) :
    table.Admits value ((insert value).run table) := by
  cases top : table.free with
  | cons index free =>
      obtain ⟨generation, nonzero, present⟩ := wellFormed.present_of_free top
      rw [run_insert_of_free top present]
      apply wellFormed.admits_of_not_full
      · intro full
        exact nomatch top.symm.trans full.1
      · intro grown
        exact absurd Array.size_modify grown
      · apply (reuse_putsSlot value present).lodges wellFormed
        · exact wellFormed_reuse wellFormed top present nonzero value
        · exact wellFormed.index_lt present
        · exact .inl (wellFormed.stands_iff.mpr ⟨_, present, if_neg nonzero⟩)
  | nil =>
      rcases Nat.lt_or_ge table.slots.size maxSlots with room | enough
      · rw [run_insert_of_room top room]
        apply wellFormed.admits_of_not_full
        · intro full
          exact Nat.ne_of_lt room full.2
        · rintro - index ⟨named, -⟩
          simp [top] at named
        · apply (push_putsSlot table ⟨1, some value⟩).lodges wellFormed
          · exact wellFormed_push wellFormed room value
          · exact room
          · exact .inr rfl
      · rw [run_insert_of_full top enough]
        exact wellFormed.admits_of_full ⟨top, Nat.le_antisymm wellFormed.size_le enough⟩

/-! ## The account -/

/-- The account of all slots of a table. -/
structure Accounted (table : Table α) : Prop where
  /-- There are no more slots than a handle can tell apart. -/
  size_le : table.slots.size ≤ 2 ^ 24
  /-- Every slot has exactly one standing. -/
  existsUnique_stands : ∀ index, index < table.slots.size → ∃! standing, table.Stands index standing
  /-- A slot is counted under the standing it has. -/
  stands_iff : ∀ index standing, table.Stands index standing ↔
    ∃ slot, table.slots[index]? = some slot ∧ slot.standing = standing
  /-- Live, free and retired slots are all slots. -/
  total : table.tally .live + table.tally .free + table.tally .retired = table.slots.size
  /-- The free list names no slot twice. -/
  free_nodup : table.free.Nodup
  /-- The free list names slots only. -/
  free_lt : ∀ index, index ∈ table.free → index < table.slots.size
  /-- What becomes of a value to be taken in. -/
  admits : ∀ value, table.Admits value ((insert value).run table)

theorem WellFormed.accounted {table : Table α} (wellFormed : table.WellFormed) :
    table.Accounted where
  size_le := wellFormed.size_le
  existsUnique_stands := fun _ inside => wellFormed.existsUnique_stands inside
  stands_iff := fun _ _ => wellFormed.stands_iff
  total := table.tally_add_tally_add_tally
  free_nodup := wellFormed.free_nodup
  free_lt := by
    intro index named
    obtain ⟨slot, present, -⟩ := (wellFormed.mem_free_iff_standing index).mp named
    exact (Array.getElem?_eq_some_iff.mp present).1
  admits := wellFormed.admits

/-- After every list of requests to an empty table, all its slots are accounted for. -/
theorem accounted_after (kind : String) (tag : UInt8) (requests : List (Request α)) :
    ((empty kind tag).after requests).Accounted := by
  have ready : (empty kind tag : Table α).WellFormed := wellFormed_empty kind tag
  exact (ready.after_and_replay requests).1.accounted

end Table

end PackedStore
