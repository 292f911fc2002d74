import Mathlib.Logic.Basic
import PackedStore.BitSet.View

/-!
# The effect of every update

Each update of a well-formed bit set either fails with a stated error and leaves the set as it was,
or succeeds and leaves a well-formed set whose length and bits are stated position by position.
-/

namespace PackedStore

namespace BitSet

/-- `after` has the storage, length and limit of `before`, and the bits of `view`. -/
structure Repaints (before after : BitSet) (view : Nat → Bool) : Prop where
  /-- No word is added or dropped. -/
  size_words : after.words.size = before.words.size
  /-- The length stays. -/
  length_eq : after.length = before.length
  /-- The limit stays. -/
  limit_eq : after.limit = before.limit
  /-- The bits are those of the view. -/
  bit_eq : ∀ index, after.bit index = view index

/-- `after` is a well-formed set of `length` bits with the limit of `before` and the bits of
`view`. -/
structure Becomes (before after : BitSet) (length : Nat) (view : Nat → Bool) : Prop where
  /-- The result is well formed. -/
  wellFormed : after.WellFormed
  /-- The limit stays. -/
  limit_eq : after.limit = before.limit
  /-- The new length. -/
  length_eq : after.length = length
  /-- The new bits. -/
  bit_eq : ∀ index, after.bit index = view index

/-- New bits that are false beyond the length keep a set well formed. -/
theorem Repaints.becomes {before after : BitSet} {view : Nat → Bool}
    (repaints : Repaints before after view) (wellFormed : before.WellFormed)
    (blank : ∀ index, before.length ≤ index → view index = false) :
    Becomes before after before.length view where
  wellFormed :=
    { size_words := by rw [repaints.size_words, repaints.length_eq, wellFormed.size_words]
      bit_eq_false := by
        intro index outside
        rw [repaints.bit_eq]
        exact blank index (repaints.length_eq ▸ outside)
      length_le := by
        rw [repaints.length_eq, repaints.limit_eq]
        exact wellFormed.length_le }
  limit_eq := repaints.limit_eq
  length_eq := repaints.length_eq
  bit_eq := repaints.bit_eq

/-! ## Sequences -/

theorem seq_of_ok {first second : Update Unit} {before middle : BitSet}
    (done : first before = .ok () middle) : (do first; second) before = second middle := by
  simp only [bind, EStateM.bind, done]

theorem seq_of_error {first second : Update Unit} {before middle : BitSet} {error : Error}
    (refused : first before = .error error middle) :
    (do first; second) before = .error error middle := by
  simp only [bind, EStateM.bind, refused]

/-! ## Words -/

theorem changeWord_repaints {place : Nat} {before : BitSet} (change : Word → Word)
    (paint : Nat → Bool → Bool) (inside : place < before.words.size)
    (paints : ∀ word index, index / Word.width = place →
      (change word).testBit index = paint index (word.testBit index)) :
    ∃ after, changeWord place change before = .ok () after ∧
      Repaints before after fun index =>
        if index / Word.width = place then paint index (before.bit index)
        else before.bit index := by
  have done : changeWord place change before = _ := changeWord_of_lt inside
  refine ⟨_, done, ?_⟩
  constructor
  · simp
  · rfl
  · rfl
  · intro index
    rw [bit_changeWord done]
    split
    · next here => rw [paints _ _ here, bit, here]
    · rfl

theorem invertWords_repaints {before : BitSet} (first : Nat) {last : Nat}
    (inside : last ≤ before.words.size) :
    ∃ after, invertWords first last before = .ok () after ∧
      Repaints before after fun index =>
        before.bit index ^^ decide (first ≤ index / Word.width ∧ index / Word.width < last) := by
  refine ⟨_, if_neg (Nat.not_lt.mpr inside), ?_⟩
  constructor
  · simp
  · rfl
  · rfl
  · intro index
    by_cases stored : index / Word.width < before.words.size
    · by_cases between : first ≤ index / Word.width ∧ index / Word.width < last
      · simp [bit, wordOrZero, stored, between]
      · simp [bit, wordOrZero, stored, between]
    · have beyond : ¬index / Word.width < last := by omega
      simp [bit, wordOrZero, stored, beyond]

theorem changeWords_repaints {before : BitSet} (change : Nat → Word → Word)
    (paint : Nat → Bool → Bool)
    (paints : ∀ word index,
      (change (index / Word.width) word).testBit index = paint index (word.testBit index))
    (blank : ∀ index, before.words.size ≤ index / Word.width → paint index false = false) :
    ∃ after, changeWords change before = .ok () after ∧
      Repaints before after fun index => paint index (before.bit index) := by
  have done : changeWords change before =
      .ok () { before with words := before.words.mapIdx change } := rfl
  refine ⟨_, done, ?_⟩
  constructor
  · simp
  · rfl
  · rfl
  · intro index
    rcases Nat.lt_or_ge (index / Word.width) before.words.size with stored | beyond
    · rw [bit_changeWords done stored, paints, bit]
    · have silent : before.bit index = false := by simp [bit, wordOrZero, beyond]
      rw [silent, blank index beyond]
      simp [bit, wordOrZero, beyond]

/-! ## Growth -/

/-- Words of zeros behind the storage change no bit. -/
theorem bit_append_zeros (before : BitSet) (count length index : Nat) :
    ({ before with
        words := before.words ++ Array.replicate count 0, length := length } : BitSet).bit index =
      before.bit index := by
  simp only [bit, wordOrZero, Array.getElem?_append]
  rcases Nat.lt_or_ge (index / Word.width) before.words.size with stored | beyond
  · simp [stored]
  · rw [if_neg (Nat.not_lt.mpr beyond), Array.getElem?_replicate]
    split <;> simp [beyond]

theorem needed_mono {shorter longer : Nat} (le : shorter ≤ longer) :
    Word.needed shorter ≤ Word.needed longer := by
  simp only [Word.needed, Word.width]
  omega

/-- Covering a length within the limit appends false bits, and none if there are enough. -/
theorem cover_of_le {before : BitSet} {length : Nat} (wellFormed : before.WellFormed)
    (within : length ≤ before.limit.maxLength) :
    ∃ after, cover length before = .ok () after ∧
      Becomes before after (max before.length length) before.bit := by
  rcases Nat.lt_or_ge before.length length with short | long
  · have grown : cover length before = .ok ()
        { before with
          words := before.words ++ Array.replicate (Word.needed length - before.words.size) 0
          length := length } := by
      rw [cover, if_pos short, extend, if_neg (Nat.not_lt.mpr within)]
    refine ⟨_, grown, ?_⟩
    constructor
    · constructor
      · have room := needed_mono (Nat.le_of_lt short)
        rw [← wellFormed.size_words] at room
        simp only [Array.size_append, Array.size_replicate]
        omega
      · intro index outside
        rw [bit_append_zeros]
        exact wellFormed.bit_eq_false index (Nat.le_trans (Nat.le_of_lt short) outside)
      · exact within
    · rfl
    · exact (Nat.max_eq_right (Nat.le_of_lt short)).symm
    · exact bit_append_zeros before _ length
  · refine ⟨before, if_neg (Nat.not_lt.mpr long), wellFormed, rfl, ?_, fun _ => rfl⟩
    exact (Nat.max_eq_left long).symm

/-- A length above the limit cannot be covered, whatever the present length. -/
theorem cover_of_lt {before : BitSet} {length : Nat} (wellFormed : before.WellFormed)
    (above : before.limit.maxLength < length) :
    cover length before = .error (.limitExceeded length before.limit.maxLength) before := by
  have short : before.length < length := Nat.lt_of_le_of_lt wellFormed.length_le above
  rw [cover, if_pos short, extend, if_pos above]

/-! ## Single bits -/

theorem check_of_lt {before : BitSet} {index : Nat} (inside : index < before.length) :
    check index before = .ok () before :=
  if_neg (Nat.not_le.mpr inside)

theorem check_of_le {before : BitSet} {index : Nat} (outside : before.length ≤ index) :
    check index before = .error (.outOfRange index before.length) before :=
  if_pos outside

/-- Within one word the offset tells positions apart. -/
theorem eq_iff_offset_eq {left right : Nat} (here : left / Word.width = right / Word.width) :
    left = right ↔ left % Word.width = right % Word.width := by
  simp only [Word.width] at *
  omega

/-- A change of one word that gives one position a value changes nothing else in the set. -/
theorem changeBit_of_lt {before : BitSet} {index : Nat} {change : Word → Word} {value : Bool}
    (wellFormed : before.WellFormed) (inside : index < before.length)
    (puts : ∀ word position, position / Word.width = index / Word.width →
      (change word).testBit position = if position = index then value else word.testBit position) :
    ∃ after, changeWord (index / Word.width) change before = .ok () after ∧
      Becomes before after before.length fun position =>
        if position = index then value else before.bit position := by
  obtain ⟨after, done, repaints⟩ :=
    changeWord_repaints change (fun position old => if position = index then value else old)
      (wellFormed.place_lt inside) puts
  have whole : Repaints before after fun position =>
      if position = index then value else before.bit position := by
    refine ⟨repaints.size_words, repaints.length_eq, repaints.limit_eq, ?_⟩
    intro position
    rw [repaints.bit_eq]
    split
    · rfl
    · next elsewhere =>
        have other : position ≠ index := fun same => elsewhere (same ▸ rfl)
        rw [if_neg other]
  refine ⟨after, done, whole.becomes wellFormed ?_⟩
  intro position outside
  have other : position ≠ index := by omega
  rw [if_neg other]
  exact wellFormed.bit_eq_false position outside

theorem raise_of_lt {before : BitSet} {index : Nat} (wellFormed : before.WellFormed)
    (inside : index < before.length) :
    ∃ after, raise index before = .ok () after ∧
      Becomes before after before.length fun position =>
        if position = index then true else before.bit position := by
  apply changeBit_of_lt wellFormed inside
  intro word position here
  simp only [eq_iff_offset_eq here, Word.testBit_or, Word.testBit_single]
  rcases eq_or_ne (position % Word.width) (index % Word.width) with same | other
  · simp [same]
  · simp [other, other.symm]

/-- Setting a position in range makes its bit true and keeps all others. -/
theorem set_of_lt {before : BitSet} {index : Nat} (wellFormed : before.WellFormed)
    (inside : index < before.length) :
    ∃ after, set index before = .ok () after ∧
      Becomes before after before.length fun position =>
        if position = index then true else before.bit position := by
  rw [set, seq_of_ok (check_of_lt inside)]
  exact raise_of_lt wellFormed inside

theorem set_of_le {before : BitSet} {index : Nat} (outside : before.length ≤ index) :
    set index before = .error (.outOfRange index before.length) before :=
  seq_of_error (check_of_le outside)

/-- Clearing a position in range makes its bit false and keeps all others. -/
theorem clear_of_lt {before : BitSet} {index : Nat} (wellFormed : before.WellFormed)
    (inside : index < before.length) :
    ∃ after, clear index before = .ok () after ∧
      Becomes before after before.length fun position =>
        if position = index then false else before.bit position := by
  rw [clear, seq_of_ok (check_of_lt inside)]
  apply changeBit_of_lt wellFormed inside
  intro word position here
  simp only [eq_iff_offset_eq here, Word.testBit_and, Word.testBit_complement,
    Word.testBit_single]
  rcases eq_or_ne (position % Word.width) (index % Word.width) with same | other
  · simp [same]
  · simp [other, other.symm]

theorem clear_of_le {before : BitSet} {index : Nat} (outside : before.length ≤ index) :
    clear index before = .error (.outOfRange index before.length) before :=
  seq_of_error (check_of_le outside)

/-! ## Lists of positions -/

theorem forM_check_of_forall_lt {before : BitSet} {positions : List Nat}
    (inside : ∀ index ∈ positions, index < before.length) :
    positions.forM check before = .ok () before := by
  induction positions with
  | nil => rfl
  | cons index positions induction =>
      rw [List.forM_eq_forM, List.forM_cons,
        seq_of_ok (check_of_lt (inside index List.mem_cons_self))]
      exact induction fun later member => inside later (List.mem_cons_of_mem index member)

theorem forM_check_of_find? {before : BitSet} {positions : List Nat} {index : Nat}
    (first : positions.find? (fun position => decide (before.length ≤ position)) = some index) :
    positions.forM check before = .error (.outOfRange index before.length) before := by
  induction positions with
  | nil => simp at first
  | cons position positions induction =>
      rw [List.forM_eq_forM, List.forM_cons]
      rcases Nat.lt_or_ge position before.length with inside | outside
      · rw [seq_of_ok (check_of_lt inside)]
        apply induction
        simpa [Nat.not_le.mpr inside] using first
      · obtain rfl : position = index := by simpa [outside] using first
        exact seq_of_error (check_of_le outside)

/-- Marking positions that are all in range one after the other marks all of them, whichever update
marks one. -/
theorem forM_of_forall_lt {mark : Nat → Update Unit}
    (marks : ∀ {before : BitSet} {index : Nat}, before.WellFormed → index < before.length →
      ∃ after, mark index before = .ok () after ∧
        Becomes before after before.length fun position =>
          if position = index then true else before.bit position)
    {before : BitSet} {positions : List Nat} (wellFormed : before.WellFormed)
    (inside : ∀ index ∈ positions, index < before.length) :
    ∃ after, positions.forM mark before = .ok () after ∧
      Becomes before after before.length fun position =>
        if position ∈ positions then true else before.bit position := by
  induction positions generalizing before with
  | nil =>
      refine ⟨before, rfl, wellFormed, rfl, rfl, ?_⟩
      simp
  | cons index positions induction =>
      obtain ⟨middle, marked, step⟩ := marks wellFormed (inside index List.mem_cons_self)
      have inside' : ∀ later ∈ positions, later < middle.length := by
        intro later member
        rw [step.length_eq]
        exact inside later (List.mem_cons_of_mem index member)
      obtain ⟨after, done, rest⟩ := induction step.wellFormed inside'
      refine ⟨after, ?_, rest.wellFormed, ?_, ?_, ?_⟩
      · rw [List.forM_eq_forM, List.forM_cons, seq_of_ok marked]
        exact done
      · rw [rest.limit_eq, step.limit_eq]
      · rw [rest.length_eq, step.length_eq]
      · intro position
        rw [rest.bit_eq, step.bit_eq]
        rcases eq_or_ne position index with rfl | other
        · simp
        · simp [other]

/-- Setting positions that are all in range makes their bits true and keeps all others. -/
theorem setAll_of_forall_lt {before : BitSet} {positions : List Nat}
    (wellFormed : before.WellFormed) (inside : ∀ index ∈ positions, index < before.length) :
    ∃ after, setAll positions before = .ok () after ∧
      Becomes before after before.length fun position =>
        if position ∈ positions then true else before.bit position := by
  rw [setAll, seq_of_ok (forM_check_of_forall_lt inside)]
  exact forM_of_forall_lt raise_of_lt wellFormed inside

/-- The first position out of range, in list order, stops the update before any bit changes. -/
theorem setAll_of_find? {before : BitSet} {positions : List Nat} {index : Nat}
    (first : positions.find? (fun position => decide (before.length ≤ position)) = some index) :
    setAll positions before = .error (.outOfRange index before.length) before :=
  seq_of_error (forM_check_of_find? first)

/-! ## Ranges -/

theorem changeWord_xor_repaints {place : Nat} {before : BitSet} (mask : Word)
    (inside : place < before.words.size) :
    ∃ after, changeWord place (· ^^^ mask) before = .ok () after ∧
      Repaints before after fun index =>
        before.bit index ^^ (decide (index / Word.width = place) && mask.testBit index) := by
  obtain ⟨after, done, repaints⟩ :=
    changeWord_repaints (· ^^^ mask) (fun index value => value ^^ mask.testBit index) inside
      fun word index _ => Word.testBit_xor word mask index
  refine ⟨after, done, repaints.size_words, repaints.length_eq, repaints.limit_eq, ?_⟩
  intro index
  rw [repaints.bit_eq]
  by_cases here : index / Word.width = place
  · simp [here]
  · simp [here]

theorem decide_xor_decide {left right : Prop} [Decidable left] [Decidable right]
    (disjoint : ¬(left ∧ right)) : (decide left ^^ decide right) = decide (left ∨ right) := by
  by_cases holds : left
  · have fails : ¬right := fun also => disjoint ⟨holds, also⟩
    simp [holds, fails]
  · simp [holds]

/-- The masks of a range toggle exactly the positions of the range, whether it ends in the word it
starts in or in a later one. -/
theorem toggle_repaints {start stop : Nat} {before : BitSet} (nonempty : start < stop)
    (inside : (stop - 1) / Word.width < before.words.size) :
    ∃ after, toggle start stop before = .ok () after ∧
      Repaints before after fun index =>
        before.bit index ^^ decide (start ≤ index ∧ index < stop) := by
  have ordered : start / Word.width ≤ (stop - 1) / Word.width :=
    Nat.div_le_div_right (by omega)
  rw [toggle]
  by_cases single : start / Word.width = (stop - 1) / Word.width
  · rw [if_pos single]
    obtain ⟨after, done, repaints⟩ :=
      changeWord_xor_repaints (Word.upward start &&& Word.downward (stop - 1)) (single ▸ inside)
    refine ⟨after, done, repaints.size_words, repaints.length_eq, repaints.limit_eq, ?_⟩
    intro index
    rw [repaints.bit_eq, Word.testBit_and, Word.testBit_upward, Word.testBit_downward,
      ← Bool.decide_and, ← Bool.decide_and]
    congr 2
    simp only [Word.width] at *
    apply propext
    omega
  · rw [if_neg single]
    obtain ⟨headed, head, first⟩ :=
      changeWord_xor_repaints (Word.upward start) (Nat.lt_of_le_of_lt ordered inside)
    have inside_headed : (stop - 1) / Word.width < headed.words.size := by
      rwa [first.size_words]
    obtain ⟨inverted, middle, second⟩ :=
      invertWords_repaints (start / Word.width + 1) (Nat.le_of_lt inside_headed)
    have inside_inverted : (stop - 1) / Word.width < inverted.words.size := by
      rwa [second.size_words]
    obtain ⟨after, tail, third⟩ :=
      changeWord_xor_repaints (Word.downward (stop - 1)) inside_inverted
    refine ⟨after, ?_, ?_, ?_, ?_, ?_⟩
    · rw [seq_of_ok head, seq_of_ok middle, tail]
    · rw [third.size_words, second.size_words, first.size_words]
    · rw [third.length_eq, second.length_eq, first.length_eq]
    · rw [third.limit_eq, second.limit_eq, first.limit_eq]
    · intro index
      rw [third.bit_eq, second.bit_eq, first.bit_eq, Word.testBit_upward, Word.testBit_downward,
        ← Bool.decide_and, ← Bool.decide_and, Bool.xor_assoc, Bool.xor_assoc]
      congr 1
      have beyond : ¬((start / Word.width + 1 ≤ index / Word.width ∧
          index / Word.width < (stop - 1) / Word.width) ∧
          index / Word.width = (stop - 1) / Word.width ∧
            index % Word.width ≤ (stop - 1) % Word.width) := by omega
      rw [decide_xor_decide beyond, decide_xor_decide (by omega), decide_eq_decide]
      simp only [Word.width] at *
      omega

theorem flip_of_lt {before : BitSet} {start stop : Nat} (inverted : stop < start) :
    flip start stop before = .error (.invalidRange start stop) before := by
  rw [flip, if_pos inverted]
  rfl

/-- A flip that ends above the limit is refused, also when its range is empty. -/
theorem flip_of_limit_lt {before : BitSet} {start stop : Nat} (wellFormed : before.WellFormed)
    (ordered : start ≤ stop) (above : before.limit.maxLength < stop) :
    flip start stop before = .error (.limitExceeded stop before.limit.maxLength) before := by
  rw [flip, if_neg (Nat.not_lt.mpr ordered)]
  exact seq_of_error (cover_of_lt wellFormed above)

/-- A flip within the limit toggles the bits of its range and covers the end of the range. -/
theorem flip_of_le {before : BitSet} {start stop : Nat} (wellFormed : before.WellFormed)
    (ordered : start ≤ stop) (within : stop ≤ before.limit.maxLength) :
    ∃ after, flip start stop before = .ok () after ∧
      Becomes before after (max before.length stop) fun index =>
        before.bit index ^^ decide (start ≤ index ∧ index < stop) := by
  obtain ⟨covered, grown, growth⟩ := cover_of_le wellFormed within
  rw [flip, if_neg (Nat.not_lt.mpr ordered), seq_of_ok grown]
  rcases Nat.lt_or_ge start stop with nonempty | empty
  · rw [if_pos nonempty]
    have last_inside : stop - 1 < covered.length := by
      rw [growth.length_eq]
      omega
    obtain ⟨after, toggled, repaints⟩ :=
      toggle_repaints nonempty (growth.wellFormed.place_lt last_inside)
    have result := repaints.becomes growth.wellFormed (by
      intro index outside
      have beyond : ¬(start ≤ index ∧ index < stop) := by
        rw [growth.length_eq] at outside
        omega
      simp [growth.wellFormed.bit_eq_false index outside, beyond])
    refine ⟨after, toggled, result.wellFormed, ?_, ?_, ?_⟩
    · rw [result.limit_eq, growth.limit_eq]
    · rw [result.length_eq, growth.length_eq]
    · intro index
      rw [result.bit_eq, growth.bit_eq]
  · rw [if_neg (Nat.not_lt.mpr empty)]
    refine ⟨covered, rfl, growth.wellFormed, growth.limit_eq, growth.length_eq, ?_⟩
    intro index
    have outside : ¬(start ≤ index ∧ index < stop) := by omega
    simp [growth.bit_eq, outside]

/-! ## Two sets -/

/-- Combining with an operand word by word, after covering its length, combines the two sets bit by
bit, each continued by false bits. -/
theorem combine_of_le {before other : BitSet} {combine : Word → Word → Word}
    {operation : Bool → Bool → Bool} (wellFormed : before.WellFormed)
    (otherWellFormed : other.WellFormed) (within : other.length ≤ before.limit.maxLength)
    (combines : ∀ left right index, (combine left right).testBit index =
      operation (left.testBit index) (right.testBit index))
    (blank : operation false false = false) :
    ∃ after,
      (do cover other.length
          changeWords fun place word => combine word (other.wordOrZero place)) before =
        .ok () after ∧
      Becomes before after (max before.length other.length) fun index =>
        operation (before.bit index) (other.bit index) := by
  obtain ⟨covered, grown, growth⟩ := cover_of_le wellFormed within
  have other_blank : ∀ index, covered.length ≤ index → other.bit index = false := by
    intro index outside
    apply otherWellFormed.bit_eq_false
    rw [growth.length_eq] at outside
    omega
  have blank_beyond : ∀ index, covered.words.size ≤ index / Word.width →
      operation false (other.bit index) = false := by
    intro index outside
    rcases Nat.lt_or_ge index covered.length with inside | beyond
    · exact absurd (growth.wellFormed.place_lt inside) (Nat.not_lt.mpr outside)
    · rw [other_blank index beyond, blank]
  obtain ⟨after, changed, repaints⟩ :=
    changeWords_repaints (fun place word => combine word (other.wordOrZero place))
      (fun index value => operation value (other.bit index))
      (fun word index => combines word _ index) blank_beyond
  have result := repaints.becomes growth.wellFormed (by
    intro index outside
    rw [growth.wellFormed.bit_eq_false index outside, other_blank index outside, blank])
  refine ⟨after, ?_, result.wellFormed, ?_, ?_, ?_⟩
  · rw [seq_of_ok grown, changed]
  · rw [result.limit_eq, growth.limit_eq]
  · rw [result.length_eq, growth.length_eq]
  · intro index
    rw [result.bit_eq, growth.bit_eq]

theorem intersect_of_le {before other : BitSet} (wellFormed : before.WellFormed)
    (otherWellFormed : other.WellFormed) (within : other.length ≤ before.limit.maxLength) :
    ∃ after, intersect other before = .ok () after ∧
      Becomes before after (max before.length other.length) fun index =>
        before.bit index && other.bit index :=
  combine_of_le wellFormed otherWellFormed within Word.testBit_and rfl

theorem intersect_of_lt {before other : BitSet} (wellFormed : before.WellFormed)
    (above : before.limit.maxLength < other.length) :
    intersect other before =
      .error (.limitExceeded other.length before.limit.maxLength) before :=
  seq_of_error (cover_of_lt wellFormed above)

theorem unite_of_le {before other : BitSet} (wellFormed : before.WellFormed)
    (otherWellFormed : other.WellFormed) (within : other.length ≤ before.limit.maxLength) :
    ∃ after, unite other before = .ok () after ∧
      Becomes before after (max before.length other.length) fun index =>
        before.bit index || other.bit index :=
  combine_of_le wellFormed otherWellFormed within Word.testBit_or rfl

theorem unite_of_lt {before other : BitSet} (wellFormed : before.WellFormed)
    (above : before.limit.maxLength < other.length) :
    unite other before = .error (.limitExceeded other.length before.limit.maxLength) before :=
  seq_of_error (cover_of_lt wellFormed above)

end BitSet

end PackedStore
