import PackedStore.Proofs.Shelf
import PackedStore.Sampling.Draw

/-!
# Cutting elements into bursts

One word is drawn for each burst and says how long the burst is to be; only the last may turn out
shorter, for want of elements. No element is lost, repeated or moved, so a buffer that is passed all
bursts holds exactly the elements that were cut.
-/

namespace PackedStore

namespace BurstBuffer

variable {α : Type}

theorem foldl_append_ofBursts (earlier later : List (List α)) :
    later.foldl append (ofBursts earlier) = ofBursts (earlier ++ later) := by
  induction later generalizing earlier with
  | nil => rw [List.append_nil, List.foldl_nil]
  | cons burst later induction =>
      rw [List.foldl_cons, append_ofBursts, induction, List.append_assoc, List.singleton_append]

/-- A buffer that is passed bursts one after another shows them. -/
theorem shows_foldl_append (passed : List (List α)) :
    (passed.foldl append empty).Shows passed := by
  have folded : passed.foldl append empty = ofBursts passed := foldl_append_ofBursts [] passed
  rw [folded]
  exact shows_ofBursts passed

end BurstBuffer

namespace Sampling

variable {α : Type} {cuts : Stream} {maxBurst first : Nat} {elements : List α}
  {parts : List (List α)}

/-- The number of elements that the word with the given number asks for. -/
def asked (cuts : Stream) (maxBurst number : Nat) : Nat :=
  1 + (cuts number).toNat % maxBurst

theorem asked_le (positive : 0 < maxBurst) (number : Nat) :
    asked cuts maxBurst number ≤ maxBurst := by
  have below := Nat.mod_lt (cuts number).toNat positive
  rw [asked]
  omega

/-- The parts are the elements cut as the words from the one numbered `first` on ask. -/
structure Divides (cuts : Stream) (maxBurst first : Nat) (elements : List α)
    (parts : List (List α)) : Prop where
  /-- One after another, they are the elements. -/
  flatten_eq : parts.flatten = elements
  /-- None of them is empty. -/
  length_pos : ∀ part ∈ parts, 0 < part.length
  /-- None is longer than its word asks. -/
  length_le : ∀ index part, parts[index]? = some part →
    part.length ≤ asked cuts maxBurst (first + index)
  /-- All but the last are just as long. -/
  length_eq : ∀ index part, parts[index]? = some part → index + 1 < parts.length →
    part.length = asked cuts maxBurst (first + index)

namespace Divides

theorem nil : Divides cuts maxBurst first ([] : List α) [] where
  flatten_eq := rfl
  length_pos := nofun
  length_le := nofun
  length_eq := nofun

/-- If there are parts at all, there are elements. -/
theorem length_pos_of_parts (divides : Divides cuts maxBurst first elements parts)
    (some_part : 0 < parts.length) : 0 < elements.length := by
  obtain ⟨part, parts, rfl⟩ := List.exists_cons_of_length_pos some_part
  rw [← divides.flatten_eq, List.flatten_cons, List.length_append]
  exact Nat.add_pos_left (divides.length_pos part List.mem_cons_self) _

theorem filter_eq (divides : Divides cuts maxBurst first elements parts) :
    parts.filter (!·.isEmpty) = parts := by
  rw [List.filter_eq_self]
  intro part member
  rw [Bool.not_eq_true', List.isEmpty_eq_false_iff_exists_mem]
  exact List.length_pos_iff_exists_mem.mp (divides.length_pos part member)

/-- A part is cut off the front: what its word asks for, or everything if that is less. -/
theorem cons {element : α} {rest : List α} {more : Nat}
    (asks : asked cuts maxBurst first = 1 + more)
    (divides : Divides cuts maxBurst (first + 1) (rest.drop more) parts) :
    Divides cuts maxBurst first (element :: rest) ((element :: rest.take more) :: parts) where
  flatten_eq := by
    rw [List.flatten_cons, divides.flatten_eq, List.cons_append, List.take_append_drop]
  length_pos := by
    rintro part (_ | ⟨_, later⟩)
    · exact Nat.succ_pos _
    · exact divides.length_pos part later
  length_le := by
    rintro (_ | index) part found
    · obtain rfl := Option.some_inj.mp found
      rw [Nat.add_zero, asks, List.length_cons, List.length_take]
      omega
    · rw [← Nat.add_assoc, Nat.add_right_comm]
      exact divides.length_le index part found
  length_eq := by
    rintro (_ | index) part found others
    · obtain rfl := Option.some_inj.mp found
      -- Since another part follows, the elements did not run out in this one.
      have left_over := divides.length_pos_of_parts (Nat.lt_of_succ_lt_succ others)
      rw [List.length_drop] at left_over
      rw [Nat.add_zero, asks, List.length_cons, List.length_take]
      omega
    · rw [← Nat.add_assoc, Nat.add_right_comm]
      exact divides.length_eq index part found (Nat.lt_of_succ_lt_succ others)

end Divides

theorem divides_cutUp (cuts : Stream) (maxBurst first : Nat) (elements : List α) :
    Divides cuts maxBurst first elements (cutUp cuts maxBurst first elements) := by
  fun_induction cutUp cuts maxBurst first elements with
  | case1 first => exact .nil
  | case2 first element rest more induction => exact induction.cons rfl

theorem length_ints (data : Stream) (total : Nat) : (ints data total).length = total := by
  rw [ints, List.length_map, List.length_range]

/-- For every stream of elements and every stream of cuts, the bursts are the integers cut as the
words ask, each burst has one element at least and `maxBurst` at most, and a buffer that is passed
the bursts in order holds the integers, a chunk for every burst. -/
theorem bursts_divide_ints (data cuts : Stream) (total : Nat) (positive : 0 < maxBurst) :
    ∃ parts, bursts data cuts total maxBurst = .ok parts ∧
      Divides cuts maxBurst 0 (ints data total) parts ∧
      (∀ part ∈ parts, 1 ≤ part.length ∧ part.length ≤ maxBurst) ∧
      let buffer := parts.foldl BurstBuffer.append .empty
      buffer.size = total ∧ buffer.bursts.toList = parts ∧ buffer.bursts.size = parts.length ∧
        buffer.toList = ints data total := by
  have divides := divides_cutUp cuts maxBurst 0 (ints data total)
  refine ⟨_, if_neg (Nat.ne_of_gt positive), divides, ?_, ?_⟩
  · intro part member
    obtain ⟨index, found⟩ := List.getElem?_of_mem member
    exact ⟨divides.length_pos part member,
      Nat.le_trans (divides.length_le index part found) (asked_le positive _)⟩
  · intro buffer
    have shows : buffer.Shows (cutUp cuts maxBurst 0 (ints data total)) :=
      BurstBuffer.shows_foldl_append _
    have kept := shows.bursts_eq.trans divides.filter_eq
    refine ⟨?_, kept, ?_, shows.toList_eq.trans divides.flatten_eq⟩
    · rw [shows.size_eq, ← List.length_flatten, divides.flatten_eq, length_ints]
    · rw [← Array.length_toList, kept]

/-- Eight integers in bursts of at most three. The last burst is one short of what its word asks. -/
theorem bursts_divide_eight_ints :
    let data : Stream := fun number => .ofNat (10 * number)
    let cuts : Stream := fun number => .ofNat (2 * number + 2)
    let parts : List (List Int32) := [[0, 10, 20], [30, 40], [50], [60, 70]]
    let buffer := parts.foldl BurstBuffer.append .empty
    0 < 3 ∧ bursts data cuts 8 3 = .ok parts ∧ asked cuts 3 3 = 3 ∧
      Divides cuts 3 0 (ints data 8) parts ∧ buffer.size = 8 ∧ buffer.bursts.size = 4 ∧
      buffer.toList = [0, 10, 20, 30, 40, 50, 60, 70] := by
  intro data cuts parts buffer
  have positive : 0 < 3 := by decide
  have cut : bursts data cuts 8 3 = .ok parts := by decide +kernel
  obtain ⟨drawn, drawn_eq, divides, -, size_eq, -, count_eq, toList_eq⟩ :=
    bursts_divide_ints data cuts 8 positive
  obtain rfl : parts = drawn := Except.ok.inj (cut.symm.trans drawn_eq)
  have data_eq : ints data 8 = [0, 10, 20, 30, 40, 50, 60, 70] := by decide
  exact ⟨positive, cut, by decide, divides, size_eq, count_eq, toList_eq.trans data_eq⟩

end Sampling

end PackedStore
