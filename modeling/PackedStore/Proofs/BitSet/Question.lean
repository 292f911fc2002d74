import PackedStore.Proofs.BitSet.Mirror

/-!
# Questions about a bit set

Counting and scanning go word by word, but answer what the flags of a well-formed set answer
position by position.
-/

namespace PackedStore

/-! ## Counting -/

/-- Counting block by block, in blocks of `width` positions, gives the count of all positions. -/
theorem countP_range_mul (view : Nat → Bool) (width count : Nat) :
    (List.range (count * width)).countP view =
      (List.range count).foldl (fun total place =>
        total + (List.range width).countP fun offset => view (place * width + offset)) 0 := by
  induction count with
  | zero => simp
  | succ count induction =>
      rw [Nat.succ_mul, List.range_add, List.countP_append, induction, List.countP_map,
        List.range_succ, List.foldl_append]
      rfl

/-- Positions that hold false do not count. -/
theorem countP_range_add {view : Nat → Bool} {length : Nat}
    (blank : ∀ index, length ≤ index → view index = false) (extra : Nat) :
    (List.range (length + extra)).countP view = (List.range length).countP view := by
  rw [List.range_add, List.countP_append, List.countP_map, Nat.add_eq_left, List.countP_eq_zero]
  intro offset _
  simp [blank]

theorem Word.popCount_eq_countP (word : Word) :
    word.popCount = (List.range Word.width).countP word.testBit := by
  unfold popCount
  split
  · next zero =>
      rw [zero, eq_comm, List.countP_eq_zero]
      intro offset _
      simp
  · rfl

theorem Word.testBit_add (word : Word) (place offset : Nat) :
    word.testBit (place * width + offset) = word.testBit offset := by
  have same : (place * width + offset) % width = offset % width := by
    simp only [width] at *
    omega
  rw [testBit_eq, testBit_eq, same]

namespace BitSet

theorem bit_add (bits : BitSet) (place : Nat) {offset : Nat} (small : offset < Word.width) :
    bits.bit (place * Word.width + offset) = (bits.wordOrZero place).testBit offset := by
  have here : (place * Word.width + offset) / Word.width = place := by
    simp only [Word.width] at *
    omega
  rw [bit, here, Word.testBit_add]

theorem toList_words (bits : BitSet) :
    bits.words.toList = (List.range bits.words.size).map bits.wordOrZero := by
  apply List.ext_getElem?
  intro place
  rcases Nat.lt_or_ge place bits.words.size with inside | outside
  · simp [wordOrZero, inside]
  · simp [outside]

/-- The words of a set hold as many ones as the view has true positions in the storage. -/
theorem cardinality_eq_countP (bits : BitSet) :
    bits.cardinality = (List.range (bits.words.size * Word.width)).countP bits.bit := by
  rw [cardinality, ← Array.foldl_toList, toList_words, List.foldl_map, countP_range_mul]
  congr 1
  funext count place
  rw [Word.popCount_eq_countP, Nat.add_right_inj]
  apply List.countP_congr
  intro offset member
  rw [bits.bit_add place (List.mem_range.mp member)]

theorem WellFormed.length_le_storage {bits : BitSet} (wellFormed : bits.WellFormed) :
    bits.length ≤ bits.words.size * Word.width := by
  rw [wellFormed.size_words]
  simp only [Word.needed, Word.width]
  omega

/-- The count of whole words is the count of the positions within the length. -/
theorem WellFormed.countP_bit {bits : BitSet} (wellFormed : bits.WellFormed) :
    (List.range bits.length).countP bits.bit = bits.cardinality := by
  obtain ⟨extra, storage⟩ := Nat.exists_eq_add_of_le wellFormed.length_le_storage
  rw [cardinality_eq_countP, storage, countP_range_add wellFormed.bit_eq_false]

/-- A well-formed set has as many true bits as its flags. -/
theorem WellFormed.cardinality_toFlags {bits : BitSet} (wellFormed : bits.WellFormed) :
    bits.toFlags.cardinality = bits.cardinality := by
  rw [← wellFormed.countP_bit, toFlags, Flags.cardinality, List.count, List.countP_map]
  congr 1
  funext index
  simp

end BitSet

/-! ## Scanning -/

/-- `found` is the lowest position where `view` is true, if there is one. -/
def IsLowest (view : Nat → Bool) : Option Nat → Prop
  | some position => view position = true ∧ ∀ index, index < position → view index = false
  | none => ∀ index, view index = false

theorem IsLowest.unique {view : Nat → Bool} {left right : Option Nat}
    (leftLowest : IsLowest view left) (rightLowest : IsLowest view right) : left = right := by
  cases left with
  | none =>
      cases right with
      | none => rfl
      | some position => exact absurd rightLowest.1 (by rw [leftLowest position]; exact nofun)
  | some position =>
      cases right with
      | none => exact absurd leftLowest.1 (by rw [rightLowest position]; exact nofun)
      | some other =>
          rcases Nat.lt_trichotomy position other with below | same | above
          · exact absurd leftLowest.1 (by rw [rightLowest.2 position below]; exact nofun)
          · rw [same]
          · exact absurd rightLowest.1 (by rw [leftLowest.2 other above]; exact nofun)

namespace Flags

theorem isLowest_nextOne? (flags : Flags) (start : Nat) :
    IsLowest (fun index => decide (start ≤ index) && flags.bit index) (flags.nextOne? start) := by
  have view_add : ∀ offset, (decide (start ≤ start + offset) && flags.bit (start + offset)) =
      ((flags.bits.drop start)[offset]?).getD false := by
    intro offset
    rw [bit, get?, List.getElem?_drop, decide_eq_true (Nat.le_add_right start offset),
      Bool.true_and]
  unfold nextOne?
  cases first : (flags.bits.drop start).idxOf? true with
  | none =>
      have absent := List.idxOf?_eq_none_iff.mp first
      intro index
      rcases Nat.lt_or_ge index start with before | behind
      · simp [Nat.not_le.mpr before]
      · obtain ⟨offset, rfl⟩ := Nat.exists_eq_add_of_le behind
        refine (view_add offset).trans ?_
        cases stored : (flags.bits.drop start)[offset]? with
        | none => rfl
        | some value =>
            cases value with
            | false => rfl
            | true => exact absurd (List.mem_of_getElem? stored) absent
  | some offset =>
      obtain ⟨inside, here, earlier⟩ := List.idxOf?_eq_some_iff.mp first
      constructor
      · refine (view_add offset).trans ?_
        rw [List.getElem?_eq_getElem inside, here]
        rfl
      · intro index below
        rcases Nat.lt_or_ge index start with before | behind
        · simp [Nat.not_le.mpr before]
        · obtain ⟨nearer, rfl⟩ := Nat.exists_eq_add_of_le behind
          have near : nearer < offset := Nat.lt_of_add_lt_add_left below
          have value := earlier nearer near
          refine (view_add nearer).trans ?_
          rw [List.getElem?_eq_getElem (Nat.lt_trans near inside)]
          simpa using value

end Flags

namespace Word

theorem lowest?_eq_find? (word : Word) : word.lowest? = places.find? word.testBit := by
  unfold lowest?
  split
  · next zero =>
      rw [zero, eq_comm, List.find?_eq_none]
      intro offset _
      simp
  · rfl

theorem testBit_of_lowest?_eq_none {word : Word} (absent : word.lowest? = none) {offset : Nat}
    (small : offset < width) : word.testBit offset = false := by
  rw [lowest?_eq_find?, places, List.find?_range_eq_none] at absent
  simpa using absent offset small

end Word

namespace BitSet

/-- A view that is false before the word at `place`, and is silent there too, is false before the
next word. -/
theorem blank_before_next {view : Nat → Bool} {place : Nat}
    (earlier : ∀ index, index < place * Word.width → view index = false)
    (silent : ∀ offset, offset < Word.width → view (place * Word.width + offset) = false)
    (index : Nat) (below : index < (place + 1) * Word.width) : view index = false := by
  rcases Nat.lt_or_ge index (place * Word.width) with before | behind
  · exact earlier index before
  · obtain ⟨offset, rfl⟩ := Nat.exists_eq_add_of_le behind
    apply silent
    rw [Nat.succ_mul] at below
    exact Nat.lt_of_add_lt_add_left below

/-- A scan from the word at `place` on finds the lowest true position of a view that is false before
that word, `word` at it and the storage after it. -/
theorem isLowest_seek {words : Array Word} {view : Nat → Bool} (place : Nat) (word : Word)
    (earlier : ∀ index, index < place * Word.width → view index = false)
    (here : ∀ offset, offset < Word.width →
      view (place * Word.width + offset) = word.testBit offset)
    (later : ∀ next offset, place < next → offset < Word.width →
      view (next * Word.width + offset) = (words[next]?.getD 0).testBit offset) :
    IsLowest view (seek words place word) := by
  induction place, word using seek.induct words with
  | case1 place word offset found =>
      rw [seek, found]
      rw [Word.lowest?_eq_find?, Word.places, List.find?_range_eq_some] at found
      obtain ⟨one, member, lower⟩ := found
      have small := List.mem_range.mp member
      refine ⟨(here offset small).trans one, ?_⟩
      intro index below
      rcases Nat.lt_or_ge index (place * Word.width) with before | behind
      · exact earlier index before
      · obtain ⟨nearer, rfl⟩ := Nat.exists_eq_add_of_le behind
        have near := Nat.lt_of_add_lt_add_left below
        rw [here nearer (Nat.lt_trans near small)]
        simpa using lower nearer near
  | case2 place word absent inside induction =>
      have silent : ∀ offset, offset < Word.width →
          view (place * Word.width + offset) = false := by
        intro offset small
        rw [here offset small]
        exact Word.testBit_of_lowest?_eq_none absent small
      rw [seek, absent, dif_pos inside]
      apply induction
      · exact blank_before_next earlier silent
      · intro offset small
        rw [later (place + 1) offset (Nat.lt_succ_self place) small,
          Array.getElem?_eq_getElem inside]
        rfl
      · intro next offset behind small
        exact later next offset (Nat.lt_of_succ_lt behind) small
  | case3 place word absent outside =>
      have silent : ∀ offset, offset < Word.width →
          view (place * Word.width + offset) = false := by
        intro offset small
        rw [here offset small]
        exact Word.testBit_of_lowest?_eq_none absent small
      rw [seek, absent, dif_neg outside]
      intro index
      rcases Nat.lt_or_ge index ((place + 1) * Word.width) with before | behind
      · exact blank_before_next earlier silent index before
      · have next : place + 1 ≤ index / Word.width :=
          (Nat.le_div_iff_mul_le Word.width_pos).mpr behind
        have beyond : words.size ≤ index / Word.width :=
          Nat.le_trans (Nat.not_lt.mp outside) next
        rw [← Nat.div_add_mod' index Word.width,
          later _ _ next (Nat.mod_lt index Word.width_pos), Array.getElem?_eq_none beyond]
        simp

/-- Scanning a well-formed set from any position finds what scanning its flags finds. -/
theorem WellFormed.nextOne?_eq {bits : BitSet} (wellFormed : bits.WellFormed) (start : Nat) :
    bits.nextOne? start = .ok (bits.toFlags.nextOne? start) := by
  have flags := bits.toFlags.isLowest_nextOne? start
  simp only [wellFormed.bit_toFlags] at flags
  rcases Nat.lt_or_ge start bits.length with inside | outside
  · rw [nextOne?, if_neg (Nat.not_le.mpr inside), wordAt_eq (wellFormed.place_lt inside)]
    refine congrArg Except.ok (IsLowest.unique ?_ flags)
    apply isLowest_seek
    · intro index before
      have below : ¬start ≤ index := by
        have := Nat.div_mul_le_self start Word.width
        omega
      simp [below]
    · intro offset small
      have masked : start ≤ start / Word.width * Word.width + offset ↔
          start % Word.width ≤ offset % Word.width := by
        simp only [Word.width] at *
        omega
      rw [bits.bit_add _ small, Word.testBit_and, Word.testBit_upward, Bool.and_comm]
      simp only [masked]
    · intro next offset behind small
      have above : start ≤ next * Word.width + offset := by
        simp only [Word.width] at *
        omega
      rw [bits.bit_add _ small, decide_eq_true above, Bool.true_and, wordOrZero]
  · rw [nextOne?, if_pos outside]
    refine congrArg Except.ok (IsLowest.unique ?_ flags)
    intro index
    rcases Nat.lt_or_ge index start with before | behind
    · simp [Nat.not_le.mpr before]
    · simp [wellFormed.bit_eq_false index (Nat.le_trans outside behind)]

end BitSet

end PackedStore
