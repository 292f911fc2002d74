import PackedStore.Proofs.Table.Request

/-!
# Warnings about handles

A handle that names nothing is turned away with a warning that names it, and so are two handles of
which one names nothing, with one exception: two handles of the table that contend for one slot are
turned away without a word.
-/

namespace PackedStore

namespace Record

/-- The handles that a record names. -/
def handles : Record → List Handle
  | created _ handle | destroyed _ handle | foreign _ handle | stale _ handle => [handle]
  | stalePair _ target source => [target, source]
  | growing .. | full .. | caught .. => []

/-- The record names the handle, and so does its text. -/
def Names (record : Record) (handle : Handle) : Prop :=
  handle ∈ record.handles ∧ ∃ front back, record.text = front ++ handle.text ++ back

/-- The text of a record contains that of every handle it names. -/
theorem names_of_mem {record : Record} {handle : Handle} (named : handle ∈ record.handles) :
    record.Names handle := by
  refine ⟨named, ?_⟩
  cases record with
  | created kind other =>
      obtain rfl := List.mem_singleton.mp named
      exact ⟨kind ++ " created: handle ", "", String.append_empty.symm⟩
  | destroyed kind other =>
      obtain rfl := List.mem_singleton.mp named
      exact ⟨kind ++ " destroyed: handle ", "", String.append_empty.symm⟩
  | foreign kind other =>
      obtain rfl := List.mem_singleton.mp named
      exact ⟨kind ++ ": handle ", " belongs to another table", rfl⟩
  | stale kind other =>
      obtain rfl := List.mem_singleton.mp named
      exact ⟨kind ++ ": stale or unknown handle ", "", String.append_empty.symm⟩
  | stalePair kind target source =>
      have stored : (stalePair kind target source).text =
          kind ++ ": stale or unknown handle in pair " ++ target.text ++ "/" ++ source.text := rfl
      simp only [handles, List.mem_cons, List.not_mem_nil, or_false] at named
      rcases named with rfl | rfl
      · exact ⟨_, "/" ++ source.text, stored.trans (String.append_assoc ..)⟩
      · exact ⟨_, "", stored.trans String.append_empty.symm⟩
  | growing | full | caught => exact absurd named List.not_mem_nil

end Record

namespace Table

variable {α : Type} {table : Table α} {handle target source : Handle} {handles : List Handle}

/-- Two different handles of the list carry the tag of the table and name the same slot. -/
def Contested (table : Table α) (handles : List Handle) : Prop :=
  ∃ left ∈ handles, ∃ right ∈ handles, left ≠ right ∧ left.parts.tag = table.tag ∧
    right.parts.tag = table.tag ∧ left.parts.slot = right.parts.slot

/-- The records are one warning, and it names a handle of the list that names nothing. -/
def Blames (table : Table α) (handles : List Handle) (records : List Record) : Prop :=
  ∃ record, records = [record] ∧ record.level = .warn ∧
    ∃ handle ∈ handles, record.Names handle ∧ table.find? handle = none

theorem any_isNone_iff : (handles.any fun handle => (table.find? handle).isNone) = true ↔
    ∃ handle ∈ handles, table.find? handle = none := by
  simp only [List.any_eq_true, Option.isNone_iff_eq_none]

theorem not_contested_of_length_le (few : handles.length ≤ 1) : ¬table.Contested handles := by
  rintro ⟨left, leftMember, right, rightMember, distinct, -⟩
  cases handles with
  | nil => exact List.not_mem_nil leftMember
  | cons only rest =>
      obtain rfl : rest = [] :=
        List.eq_nil_of_length_eq_zero (Nat.le_zero.mp (Nat.le_of_succ_le_succ few))
      rw [List.mem_singleton] at leftMember rightMember
      exact distinct (leftMember.trans rightMember.symm)

/-- Of handles that contend for a slot one names nothing. -/
theorem Contested.exists_none (contested : table.Contested handles) :
    ∃ handle ∈ handles, table.find? handle = none := by
  obtain ⟨left, leftMember, right, rightMember, distinct, -, -, same⟩ := contested
  cases leftFound : table.find? left with
  | none => exact ⟨left, leftMember, leftFound⟩
  | some leftValue =>
      cases rightFound : table.find? right with
      | none => exact ⟨right, rightMember, rightFound⟩
      | some rightValue => exact absurd (eq_of_slot_eq leftFound rightFound same) distinct

theorem contested_pair_iff (distinct : target ≠ source) :
    table.Contested [target, source] ↔ target.parts.tag = table.tag ∧
      source.parts.tag = table.tag ∧ target.parts.slot = source.parts.slot := by
  constructor
  · rintro ⟨left, leftMember, right, rightMember, apart, leftOwn, rightOwn, same⟩
    simp only [List.mem_cons, List.not_mem_nil, or_false] at leftMember rightMember
    rcases leftMember with rfl | rfl
    · obtain rfl := rightMember.resolve_left apart.symm
      exact ⟨leftOwn, rightOwn, same⟩
    · obtain rfl := rightMember.resolve_right apart.symm
      exact ⟨rightOwn, leftOwn, same.symm⟩
  · rintro ⟨own, sourceOwn, same⟩
    exact ⟨target, by simp, source, by simp, distinct, own, sourceOwn, same⟩

theorem blames_refusal (member : handle ∈ handles) (missing : table.find? handle = none) :
    table.Blames handles [table.refusal handle] := by
  refine ⟨_, rfl, ?_⟩
  by_cases own : handle.parts.tag = table.tag
  · rw [refusal, if_pos own]
    exact ⟨rfl, handle, member, Record.names_of_mem (List.mem_singleton_self handle), missing⟩
  · rw [refusal, if_neg own]
    exact ⟨rfl, handle, member, Record.names_of_mem (List.mem_singleton_self handle), missing⟩

/-- Two handles that contend for a slot are turned away without a word. -/
theorem pairRefusal?_of_contested (distinct : target ≠ source)
    (contested : table.Contested [target, source]) : table.pairRefusal? target source = none := by
  obtain ⟨own, sourceOwn, same⟩ := (contested_pair_iff distinct).mp contested
  rw [pairRefusal?, if_neg (not_not_intro own), if_neg (not_not_intro sourceOwn), if_pos same]

/-- Of two handles that do not contend for a slot, one that names nothing is blamed. -/
theorem blames_pairRefusal? (missing : table.find? target = none ∨ table.find? source = none)
    (distinct : target ≠ source) (apart : ¬table.Contested [target, source]) :
    table.Blames [target, source] (table.pairRefusal? target source).toList := by
  have first : target ∈ [target, source] := List.mem_cons_self
  have second : source ∈ [target, source] := List.mem_cons_of_mem target List.mem_cons_self
  by_cases own : target.parts.tag = table.tag
  case neg =>
    rw [pairRefusal?, if_pos own]
    exact blames_refusal first (find?_of_foreign own)
  by_cases sourceOwn : source.parts.tag = table.tag
  case neg =>
    rw [pairRefusal?, if_neg (not_not_intro own), if_pos sourceOwn]
    exact blames_refusal second (find?_of_foreign sourceOwn)
  rw [contested_pair_iff distinct, not_and, not_and] at apart
  rw [pairRefusal?, if_neg (not_not_intro own), if_neg (not_not_intro sourceOwn),
    if_neg (apart own sourceOwn)]
  split
  · next beyond =>
      apply blames_refusal first
      rw [find?_of_own own, Option.isNone_iff_eq_none.mp beyond, Option.bind_none]
  · split
    · next beyond =>
        apply blames_refusal second
        rw [find?_of_own sourceOwn, Option.isNone_iff_eq_none.mp beyond, Option.bind_none]
    · refine ⟨_, rfl, rfl, ?_⟩
      rcases missing with missing | missing
      · exact ⟨target, first, Record.names_of_mem first, missing⟩
      · exact ⟨source, second, Record.names_of_mem second, missing⟩

end Table

end PackedStore
