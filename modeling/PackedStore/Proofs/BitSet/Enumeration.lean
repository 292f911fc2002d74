import Mathlib.Order.Bounds.Basic
import PackedStore.BitSet.Cursor
import PackedStore.Proofs.BitSet.Cardinality

/-!
# Enumerating true bits

The true positions of a bit set are found one at a time, by a scan that starts where the caller says
or by a cursor that remembers where it stands. Both skip zero words and pick the lowest one of a
word. A scan finds the least position from its start on that reads true. A cursor gives out every
position that reads true, in ascending order, as repeated scans do, and then nothing more.
-/

namespace PackedStore

/-! ## Least positions -/

theorem isLowest_some_iff {view : Nat → Bool} {position : Nat} :
    IsLowest view (some position) ↔ IsLeast {index | view index = true} position := by
  constructor
  · rintro ⟨one, lower⟩
    refine ⟨one, fun index member => ?_⟩
    by_contra below
    exact Bool.eq_false_iff.mp (lower index (Nat.not_le.mp below)) member
  · rintro ⟨one, least⟩
    refine ⟨one, fun index below => ?_⟩
    rw [Bool.eq_false_iff]
    exact fun member => Nat.not_le.mpr below (least member)

theorem isLowest_none_iff {view : Nat → Bool} :
    IsLowest view none ↔ {index | view index = true} = ∅ := by
  simp [IsLowest, Set.eq_empty_iff_forall_notMem]

theorem IsLowest.eq_iff {view : Nat → Bool} {found expected : Option Nat}
    (lowest : IsLowest view found) : found = expected ↔ IsLowest view expected :=
  ⟨fun same => same ▸ lowest, lowest.unique⟩

/-- The head of an ascending list of all true positions is the lowest of them. -/
theorem isLowest_head? {view : Nat → Bool} {ones : List Nat} (ascending : ones.Pairwise (· < ·))
    (mem_iff : ∀ index, index ∈ ones ↔ view index = true) : IsLowest view ones.head? := by
  cases ones with
  | nil =>
      intro index
      rw [Bool.eq_false_iff]
      exact fun one => nomatch (mem_iff index).mpr one
  | cons position ones =>
      refine ⟨(mem_iff position).mp List.mem_cons_self, fun index below => ?_⟩
      rw [Bool.eq_false_iff]
      intro one
      rcases List.mem_cons.mp ((mem_iff index).mpr one) with here | later
      · exact absurd here (Nat.ne_of_lt below)
      · exact Nat.lt_asymm below (List.rel_of_pairwise_cons ascending later)

/-! ## The lowest one of a number -/

/-- A number is an odd multiple of the power of two at its lowest one. -/
theorem exists_eq_two_pow_mul {value place : Nat} (one : value.testBit place = true)
    (lower : ∀ offset, offset < place → value.testBit offset = false) :
    ∃ half, value = 2 ^ place * (2 * half + 1) := by
  have low : value % 2 ^ place = 0 := by
    apply Nat.eq_of_testBit_eq
    intro offset
    rw [Nat.testBit_mod_two_pow, Nat.zero_testBit]
    rcases Nat.lt_or_ge offset place with below | above
    · rw [lower offset below, Bool.and_false]
    · rw [decide_eq_false (Nat.not_lt.mpr above), Bool.false_and]
  have odd : value / 2 ^ place % 2 = 1 := by
    simpa [Nat.testBit_eq_decide_div_mod_eq] using one
  refine ⟨value / 2 ^ place / 2, ?_⟩
  calc
    value = 2 ^ place * (value / 2 ^ place) :=
      (Nat.mul_div_cancel' (Nat.dvd_of_mod_eq_zero low)).symm
    _ = 2 ^ place * (2 * (value / 2 ^ place / 2) + 1) := by rw [← odd, Nat.div_add_mod]

/-- A number and its predecessor have the same bits above the lowest one of the number, and none in
common from there on down. -/
theorem testBit_and_sub_one {value place : Nat} (one : value.testBit place = true)
    (lower : ∀ offset, offset < place → value.testBit offset = false) (offset : Nat) :
    (value &&& (value - 1)).testBit offset = (value.testBit offset && offset != place) := by
  obtain ⟨half, rfl⟩ := exists_eq_two_pow_mul one lower
  have positive := Nat.two_pow_pos place
  have predecessor :
      2 ^ place * (2 * half + 1) - 1 = 2 ^ place * (2 * half) + (2 ^ place - 1) := by
    rw [Nat.mul_add]
    omega
  rw [Nat.testBit_and, predecessor, Nat.testBit_two_pow_mul_add _ (Nat.sub_lt positive Nat.one_pos)]
  rcases Nat.lt_trichotomy offset place with below | rfl | above
  · rw [lower offset below, Bool.false_and, Bool.false_and]
  · simp
  · obtain ⟨further, rfl⟩ := Nat.exists_eq_add_of_lt above
    have there : place + further + 1 - place = further + 1 := by omega
    have same : (2 * half).testBit (further + 1) = (2 * half + 1).testBit (further + 1) := by
      rw [Nat.testBit_add_one, Nat.testBit_add_one]
      congr 1
      omega
    rw [if_neg (by omega), Nat.testBit_two_pow_mul, there, same, bne_iff_ne.mpr (by omega),
      Bool.and_true, Bool.and_assoc, Bool.and_self]

/-! ## The ones of a word -/

namespace Word

/-- The places of the ones of a word, ascending. -/
def ones (word : Word) : List Nat :=
  places.filter word.testBit

@[simp] theorem ones_zero : ones 0 = [] := by
  simp [ones]

theorem lowest?_eq_head? (word : Word) : word.lowest? = word.ones.head? := by
  rw [lowest?_eq_find?, ones, List.head?_filter]

theorem lowest?_eq_none_iff {word : Word} : word.lowest? = none ↔ word.ones = [] := by
  rw [lowest?_eq_head?, List.head?_eq_none_iff]

theorem testBit_eq_toNat (word : Word) {offset : Nat} (small : offset < width) :
    word.testBit offset = word.toNat.testBit offset := by
  rw [testBit_eq, Nat.mod_eq_of_lt small, ← BitVec.testBit_toNat, UInt64.toNat_toBitVec]

theorem testBit_clearLowest {word : Word} {place offset : Nat} (found : word.lowest? = some place)
    (small : offset < width) :
    word.clearLowest.testBit offset = (word.testBit offset && offset != place) := by
  have nonzero := ne_zero_of_lowest? found
  rw [lowest?_eq_find?, places, List.find?_range_eq_some] at found
  obtain ⟨one, member, lower⟩ := found
  have inside : place < width := List.mem_range.mp member
  rw [testBit_eq_toNat _ small, testBit_eq_toNat _ small, clearLowest, UInt64.toNat_and,
    toNat_sub_one nonzero]
  apply testBit_and_sub_one
  · rwa [← testBit_eq_toNat _ inside]
  · intro nearer below
    rw [← testBit_eq_toNat _ (Nat.lt_trans below inside)]
    simpa using lower nearer below

/-- Clearing the lowest one of a word leaves the others. -/
theorem ones_eq_cons {word : Word} {place : Nat} (found : word.lowest? = some place) :
    word.ones = place :: word.clearLowest.ones := by
  have head := found
  rw [lowest?_eq_head?] at head
  obtain ⟨others, split⟩ := List.head?_eq_some_iff.mp head
  have ascending : (place :: others).Nodup := split ▸ List.Nodup.filter _ List.nodup_range
  have kept : word.clearLowest.ones = (place :: others).filter (· != place) := by
    rw [← split, ones, ones, List.filter_filter]
    apply List.filter_congr
    intro offset member
    rw [testBit_clearLowest found (List.mem_range.mp member), Bool.and_comm]
  have others_eq : others.filter (· != place) = others := by
    rw [List.filter_eq_self]
    intro offset member
    exact bne_iff_ne.mpr fun same => (List.nodup_cons.mp ascending).1 (same ▸ member)
  rw [split, kept, List.filter_cons_of_neg (by simp), others_eq]

end Word

namespace BitSet

/-! ## The steps of a cursor -/

namespace Cursor

/-- The positions of the ones of consecutive words, of which the first begins at `base`. -/
def onesFrom (base : Nat) : List Word → List Nat
  | [] => []
  | word :: words => word.ones.map (base + ·) ++ onesFrom (base + Word.width) words

/-- The positions that a cursor has still to give out. -/
def remaining (cursor : Cursor) : List Nat :=
  onesFrom cursor.base (cursor.current :: cursor.later)

/-- Advancing over a word and the words after it gives out the first of their ones and leaves a
cursor with the others. -/
theorem advance_eq (base : Nat) (word : Word) (later : List Word) :
    (advance base word later).1 = (onesFrom base (word :: later)).head? ∧
      (advance base word later).2.remaining = (onesFrom base (word :: later)).tail := by
  fun_induction advance base word later with
  | case1 base word later place lowest =>
      simp [onesFrom, remaining, Word.ones_eq_cons lowest]
  | case2 base word lowest =>
      rw [Word.lowest?_eq_none_iff] at lowest
      simp [onesFrom, remaining, lowest]
  | case3 base word lowest following later induction =>
      rw [Word.lowest?_eq_none_iff] at lowest
      rwa [onesFrom, lowest, List.map_nil, List.nil_append]

theorem next_eq (cursor : Cursor) :
    cursor.next.1 = cursor.remaining.head? ∧ cursor.next.2.remaining = cursor.remaining.tail :=
  advance_eq cursor.base cursor.current cursor.later

/-- The steps of a cursor give out its positions one by one, and nothing from then on. -/
theorem steps_eq (cursor : Cursor) (count : Nat) :
    (cursor.steps count).1 = (List.range count).map (cursor.remaining[·]?) := by
  induction count generalizing cursor with
  | zero => rfl
  | succ count induction =>
      obtain ⟨first, others⟩ := cursor.next_eq
      rw [List.range_succ_eq_map, List.map_cons, List.map_map, ← List.head?_eq_getElem?, ← first]
      refine congrArg (_ :: ·) ((induction cursor.next.2).trans ?_)
      rw [others]
      apply List.map_congr_left
      intro call _
      rw [Function.comp_apply, List.getElem?_tail]

/-- Stepping a cursor until it gives out nothing collects its positions. -/
theorem collect_eq (cursor : Cursor) (given : List Nat) :
    cursor.collect given = given.reverse ++ cursor.remaining := by
  fun_induction collect cursor given with
  | case1 cursor given rest found =>
      have first := cursor.next_eq.1
      rw [found, eq_comm, List.head?_eq_none_iff] at first
      rw [first, List.append_nil]
  | case2 cursor given position rest found lighter induction =>
      obtain ⟨first, others⟩ := cursor.next_eq
      rw [found] at first others
      have split : cursor.remaining = position :: rest.remaining := by
        rw [others]
        exact List.eq_cons_of_mem_head? first.symm
      rw [induction, split, List.reverse_cons, List.append_assoc, List.singleton_append]

theorem toList_eq (cursor : Cursor) : cursor.toList = cursor.remaining := by
  rw [toList, collect_eq, List.reverse_nil, List.nil_append]

theorem remaining_ofWords (base : Nat) (words : List Word) :
    (ofWords base words).remaining = onesFrom base words := by
  cases words with
  | nil => simp [ofWords, remaining, onesFrom]
  | cons word words => rfl

/-- Words that hold the bits of a view from `base` on have their ones where the view is true. -/
theorem onesFrom_eq_filter (view : Nat → Bool) {base : Nat} {words : List Word}
    (holds : ∀ place word, words[place]? = some word → ∀ offset, offset < Word.width →
      view (base + (place * Word.width + offset)) = word.testBit offset) :
    onesFrom base words = (List.range' base (words.length * Word.width)).filter view := by
  induction words generalizing base with
  | nil => simp [onesFrom]
  | cons word words induction =>
      have here : word.ones.map (base + ·) = (List.range' base Word.width).filter view := by
        rw [List.range'_eq_map_range, List.filter_map, Word.ones, Word.places]
        congr 1
        apply List.filter_congr
        intro offset member
        have first := holds 0 word rfl offset (List.mem_range.mp member)
        rw [Nat.zero_mul, Nat.zero_add] at first
        exact first.symm
      have later : onesFrom (base + Word.width) words =
          (List.range' (base + Word.width) (words.length * Word.width)).filter view := by
        apply induction
        intro place following stored offset small
        rw [← holds (place + 1) following stored offset small, Nat.succ_mul]
        congr 1
        omega
      rw [onesFrom, here, later, ← List.filter_append, List.range'_append_1, List.length_cons,
        Nat.succ_mul, Nat.add_comm (words.length * Word.width)]

end Cursor

/-! ## The listed positions -/

section

variable {bits : BitSet} (wellFormed : bits.WellFormed)
include wellFormed

/-- The positions of a set are those of its true bits. -/
theorem WellFormed.positions_eq_filter :
    bits.positions = (List.range bits.length).filter bits.bit := by
  obtain ⟨extra, storage⟩ := Nat.exists_eq_add_of_le wellFormed.length_le_storage
  have beyond : ((List.range extra).map (bits.length + ·)).filter bits.bit = [] := by
    rw [List.filter_eq_nil_iff]
    intro index member
    obtain ⟨offset, -, rfl⟩ := List.mem_map.mp member
    simp [wellFormed.bit_eq_false _ (Nat.le_add_right bits.length offset)]
  rw [positions, Cursor.toList_eq, cursor, Cursor.remaining_ofWords,
    Cursor.onesFrom_eq_filter bits.bit, Array.length_toList, storage,
    ← List.range_eq_range', List.range_add, List.filter_append, beyond, List.append_nil]
  intro place word stored offset small
  rw [Nat.zero_add, bits.bit_add place small, wordOrZero, ← Array.getElem?_toList, stored]
  rfl

theorem WellFormed.pairwise_positions : bits.positions.Pairwise (· < ·) := by
  rw [wellFormed.positions_eq_filter]
  exact List.Pairwise.filter _ List.pairwise_lt_range

theorem WellFormed.mem_positions (index : Nat) : index ∈ bits.positions ↔ bits.bit index = true := by
  rw [wellFormed.positions_eq_filter, List.mem_filter, List.mem_range, and_iff_right_iff_imp]
  exact wellFormed.lt_length_of_bit

theorem WellFormed.length_positions : bits.positions.length = bits.cardinality := by
  rw [wellFormed.positions_eq_filter, ← List.countP_eq_length_filter, wellFormed.countP_bit]

/-- A scan finds the first listed position from its start on. -/
theorem WellFormed.nextOne?_eq_head? (start : Nat) :
    bits.nextOne? start = .ok (bits.positions.filter (start ≤ ·)).head? := by
  rw [wellFormed.nextOne?_eq]
  refine congrArg Except.ok ((bits.toFlags.isLowest_nextOne? start).unique ?_)
  apply isLowest_head?
  · exact List.Pairwise.filter _ wellFormed.pairwise_positions
  · intro index
    rw [List.mem_filter, wellFormed.mem_positions, wellFormed.bit_toFlags, Bool.and_eq_true,
      and_comm]

end

/-! ## Repeated scans -/

/-- What scans find of which the first begins at `start`, each other one right behind the position
found before, and the last finds nothing. -/
inductive Walk (bits : BitSet) : Nat → List Nat → Prop where
  /-- Nothing is found. -/
  | done {start : Nat} (nothing : bits.nextOne? start = .ok none) : Walk bits start []
  /-- A position is found, and the walk goes on behind it. -/
  | found {start position : Nat} {later : List Nat}
      (here : bits.nextOne? start = .ok (some position)) (behind : Walk bits (position + 1) later) :
      Walk bits start (position :: later)

/-- Of an ascending list, the entries from some bound on are the first of them and those behind
it. -/
theorem filter_le_eq_cons {ones : List Nat} (ascending : ones.Pairwise (· < ·))
    {start position : Nat} (first : (ones.filter (start ≤ ·)).head? = some position) :
    ones.filter (start ≤ ·) = position :: ones.filter (position + 1 ≤ ·) := by
  obtain ⟨later, split⟩ := List.head?_eq_some_iff.mp first
  have ordered : (position :: later).Pairwise (· < ·) := split ▸ List.Pairwise.filter _ ascending
  have bound : start ≤ position := by
    have member : position ∈ ones.filter (start ≤ ·) := split ▸ List.mem_cons_self
    simpa using (List.mem_filter.mp member).2
  have behind : ones.filter (position + 1 ≤ ·) = (position :: later).filter (position + 1 ≤ ·) := by
    rw [← split, List.filter_filter]
    apply List.filter_congr
    intro index _
    rw [Bool.eq_iff_iff]
    simp only [Bool.and_eq_true, decide_eq_true_eq]
    omega
  have later_eq : later.filter (position + 1 ≤ ·) = later := by
    rw [List.filter_eq_self]
    intro index member
    exact decide_eq_true (List.rel_of_pairwise_cons ordered member)
  rw [split, behind, List.filter_cons_of_neg (by simp), later_eq]

/-- Repeated scans find the listed positions from the start on, and no walk finds anything else. -/
theorem WellFormed.walk_iff {bits : BitSet} (wellFormed : bits.WellFormed) {start : Nat}
    {walked : List Nat} :
    bits.Walk start walked ↔ walked = bits.positions.filter (start ≤ ·) := by
  have ascending := wellFormed.pairwise_positions
  constructor
  · intro walk
    induction walk with
    | done nothing =>
        rw [wellFormed.nextOne?_eq_head?, Except.ok.injEq, List.head?_eq_none_iff] at nothing
        exact nothing.symm
    | found here _ induction =>
        rw [wellFormed.nextOne?_eq_head?, Except.ok.injEq] at here
        rw [filter_le_eq_cons ascending here, induction]
  · rintro rfl
    generalize listed : bits.positions.filter (start ≤ ·) = walked
    induction walked generalizing start with
    | nil =>
        apply Walk.done
        rw [wellFormed.nextOne?_eq_head?, listed]
        rfl
    | cons position later induction =>
        have first : (bits.positions.filter (start ≤ ·)).head? = some position := by
          rw [listed, List.head?_cons]
        have split := filter_le_eq_cons ascending first
        rw [listed] at split
        apply Walk.found
        · rw [wellFormed.nextOne?_eq_head?, first]
        · exact induction (List.cons.inj split).2.symm

/-! ## Scanning at the end of every history -/

/-- At the end of every history, a scan from any position on ends with the least position from there
on that reads true, and finds nothing exactly if there is none. -/
theorem nextOne?_finds_least (history : History) (start : Nat) :
    let bits := history.bits
    let ones := {index | start ≤ index ∧ index < bits.length ∧ bits.get index = .ok true}
    ∃ found, bits.nextOne? start = .ok found ∧
      (∀ position, found = some position ↔ IsLeast ones position) ∧ (found = none ↔ ones = ∅) := by
  intro bits ones
  have wellFormed : bits.WellFormed := history.wellFormed_and_flags?_eq.1
  have lowest := bits.toFlags.isLowest_nextOne? start
  have ones_eq :
      {index | (decide (start ≤ index) && bits.toFlags.bit index) = true} = ones := by
    ext index
    simp only [ones, Set.mem_ofPred_eq, Bool.and_eq_true, decide_eq_true_eq,
      wellFormed.bit_toFlags, wellFormed.get_eq_ok_true_iff]
    rw [and_iff_right_of_imp wellFormed.lt_length_of_bit]
  refine ⟨_, wellFormed.nextOne?_eq start, fun position => ?_, ?_⟩
  · rw [lowest.eq_iff, isLowest_some_iff, ones_eq]
  · rw [lowest.eq_iff, isLowest_none_iff, ones_eq]

end BitSet

end PackedStore
