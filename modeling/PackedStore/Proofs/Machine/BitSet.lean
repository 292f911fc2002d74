import PackedStore.Proofs.BitSet.Question
import PackedStore.Proofs.Machine.Arithmetic

/-!
# Bit sets on the machine

The operations on bit sets written out with every index, slice, difference, shift and sum of the
machine, any of which may stop it. On a set that is well formed and shorter than two to the
sixty-fourth none of them does, and each operation ends as it ends without the checks.
-/

namespace PackedStore

theorem Word.lt_width_of_lowest? {word : Word} {offset : Nat}
    (found : word.lowest? = some offset) : offset < width := by
  rw [lowest?_eq_find?, places] at found
  exact List.mem_range.mp (List.mem_of_find?_eq_some found)

namespace BitSet

/-- An update that may stop the machine. -/
abbrev CheckedUpdate : Type :=
  BitSet → Option (EStateM.Result Error BitSet Unit)

namespace CheckedUpdate

/-- An update without any index, slice or arithmetic. -/
def lift (update : Update Unit) : CheckedUpdate :=
  fun bits => some (update bits)

/-- One update and, if it succeeds, another. -/
def andThen (first second : CheckedUpdate) : CheckedUpdate := fun bits => do
  match ← first bits with
  | .ok _ middle => second middle
  | .error error middle => return .error error middle

/-- Two checked updates in a row end as the two updates do, if each ends as its own does. -/
theorem andThen_eq {first second : CheckedUpdate} {update next : Update Unit} {bits : BitSet}
    (first_eq : first bits = some (update bits))
    (second_eq : ∀ middle, update bits = .ok () middle → second middle = some (next middle)) :
    first.andThen second bits = some ((do update; next : Update Unit) bits) := by
  rw [andThen, first_eq]
  cases done : update bits with
  | ok _ middle => exact (second_eq middle done).trans (congrArg some (seq_of_ok done).symm)
  | error error middle => exact congrArg some (seq_of_error done).symm

end CheckedUpdate

open CheckedUpdate

/-! ## Single bits -/

/-- The bit at `index`. -/
def getChecked (bits : BitSet) (index : Nat) : Option (Except Error Bool) :=
  if bits.length ≤ index then
    some (.error (.outOfRange index bits.length))
  else do
    let word ← bits.words[index / Word.width]?
    let mask ← Machine.single index
    return .ok (word &&& mask != 0)

/-- Applies `change` to the word at `place`. -/
def changeWordChecked (place : Nat) (change : Word → Word) : CheckedUpdate := fun bits => do
  let word ← bits.words[place]?
  return .ok () { bits with words := bits.words.setIfInBounds place (change word) }

/-- Makes the bit at `index` true, wherever the storage holds it. -/
def raiseChecked (index : Nat) : CheckedUpdate := fun bits => do
  let mask ← Machine.single index
  changeWordChecked (index / Word.width) (· ||| mask) bits

/-- Makes the bit at `index` true. -/
def setChecked (index : Nat) : CheckedUpdate :=
  (lift (check index)).andThen (raiseChecked index)

/-- Makes every listed bit true, wherever the storage holds it. -/
def raiseAllChecked : List Nat → CheckedUpdate
  | [] => lift (pure ())
  | index :: positions => (raiseChecked index).andThen (raiseAllChecked positions)

/-- Makes every listed bit true, once all positions have been found in range. -/
def setAllChecked (positions : List Nat) : CheckedUpdate :=
  (lift (positions.forM check)).andThen (raiseAllChecked positions)

/-- Makes the bit at `index` false. -/
def clearChecked (index : Nat) : CheckedUpdate :=
  (lift (check index)).andThen fun bits => do
    let mask ← Machine.single index
    changeWordChecked (index / Word.width) (· &&& ~~~mask) bits

theorem getChecked_eq {bits : BitSet} (wellFormed : bits.WellFormed) (index : Nat) :
    bits.getChecked index = some (bits.get index) := by
  rcases Nat.lt_or_ge index bits.length with inside | outside
  · have stored := wellFormed.place_lt inside
    rw [getChecked, get, if_neg (Nat.not_le.mpr inside), if_neg (Nat.not_le.mpr inside),
      wordAt_eq stored, Array.getElem?_eq_getElem stored, Machine.single_eq]
    simp [wordOrZero, stored, Except.map, Word.testBit]
  · rw [getChecked, get, if_pos outside, if_pos outside]

/-- A set that lacks the word of one of its positions stops the machine. -/
example : (⟨#[], 1, {}⟩ : BitSet).getChecked 0 = none := rfl

theorem changeWordChecked_eq {bits : BitSet} {place : Nat} (change : Word → Word)
    (inside : place < bits.words.size) :
    changeWordChecked place change bits = some (changeWord place change bits) := by
  rw [changeWordChecked, changeWord_of_lt inside, Array.getElem?_eq_getElem inside]
  simp [Array.setIfInBounds, inside]

theorem raiseChecked_eq {bits : BitSet} {index : Nat} (wellFormed : bits.WellFormed)
    (inside : index < bits.length) : raiseChecked index bits = some (raise index bits) := by
  rw [raiseChecked, Machine.single_eq]
  exact changeWordChecked_eq _ (wellFormed.place_lt inside)

theorem of_check_eq_ok {bits middle : BitSet} {index : Nat}
    (passed : check index bits = .ok () middle) : index < bits.length ∧ middle = bits := by
  rcases Nat.lt_or_ge index bits.length with inside | outside
  · rw [check_of_lt inside] at passed
    exact ⟨inside, (EStateM.Result.ok.inj passed).2.symm⟩
  · rw [check_of_le outside] at passed
    exact nomatch passed

theorem of_forM_check_eq_ok {bits middle : BitSet} {positions : List Nat}
    (passed : positions.forM check bits = .ok () middle) :
    (∀ index ∈ positions, index < bits.length) ∧ middle = bits := by
  cases first : positions.find? fun position => decide (bits.length ≤ position) with
  | none =>
      have inside : ∀ index ∈ positions, index < bits.length := by
        simpa using first
      rw [forM_check_of_forall_lt inside] at passed
      exact ⟨inside, (EStateM.Result.ok.inj passed).2.symm⟩
  | some index =>
      rw [forM_check_of_find? first] at passed
      exact nomatch passed

theorem setChecked_eq {bits : BitSet} (wellFormed : bits.WellFormed) (index : Nat) :
    setChecked index bits = some (set index bits) := by
  refine andThen_eq rfl fun middle passed => ?_
  obtain ⟨inside, rfl⟩ := of_check_eq_ok passed
  exact raiseChecked_eq wellFormed inside

theorem raiseAllChecked_eq {bits : BitSet} {positions : List Nat} (wellFormed : bits.WellFormed)
    (inside : ∀ index ∈ positions, index < bits.length) :
    raiseAllChecked positions bits = some (positions.forM raise bits) := by
  induction positions generalizing bits with
  | nil => rfl
  | cons index positions induction =>
      have here : index < bits.length := inside index List.mem_cons_self
      refine andThen_eq (raiseChecked_eq wellFormed here) fun middle raised => ?_
      obtain ⟨after, done, becomes⟩ := raise_of_lt wellFormed here
      obtain rfl : after = middle := (EStateM.Result.ok.inj (done.symm.trans raised)).2
      apply induction becomes.wellFormed
      intro later member
      rw [becomes.length_eq]
      exact inside later (List.mem_cons_of_mem index member)

theorem setAllChecked_eq {bits : BitSet} (wellFormed : bits.WellFormed) (positions : List Nat) :
    setAllChecked positions bits = some (setAll positions bits) := by
  refine andThen_eq rfl fun middle passed => ?_
  obtain ⟨inside, rfl⟩ := of_forM_check_eq_ok passed
  exact raiseAllChecked_eq wellFormed inside

theorem clearChecked_eq {bits : BitSet} (wellFormed : bits.WellFormed) (index : Nat) :
    clearChecked index bits = some (clear index bits) := by
  refine andThen_eq rfl fun middle passed => ?_
  obtain ⟨inside, rfl⟩ := of_check_eq_ok passed
  rw [Machine.single_eq]
  exact changeWordChecked_eq _ (wellFormed.place_lt inside)

/-- A set whose limit fits in a machine word has words for no more positions than that. -/
theorem WellFormed.size_le {bits : BitSet} (wellFormed : bits.WellFormed)
    (fits : bits.limit.maxLength < 2 ^ 64) : bits.words.size ≤ 2 ^ 58 := by
  have := wellFormed.length_le
  rw [wellFormed.size_words, Word.needed, Word.width]
  omega

/-! ## Ranges -/

/-- Inverts the words of the places `first`, …, `last - 1`, which the storage must hold. -/
def invertWordsChecked (first last : Nat) : CheckedUpdate := fun bits => do
  let _ ← Machine.slice bits.words first last
  return .ok () { bits with
    words := bits.words.mapIdx fun place word =>
      if first ≤ place ∧ place < last then ~~~word else word }

/-- Toggles the bits of `[start, stop)`: a masked first word, inverted words between, a masked last
word. -/
def toggleChecked (start stop : Nat) : CheckedUpdate := fun bits => do
  let final ← Machine.sub stop 1
  let first := start / Word.width
  let last := final / Word.width
  let head ← Machine.upward start
  let tail ← Machine.downward final
  if first = last then
    changeWordChecked first (· ^^^ (head &&& tail)) bits
  else do
    let second ← Machine.add first 1
    ((changeWordChecked first (· ^^^ head)).andThen
      ((invertWordsChecked second last).andThen (changeWordChecked last (· ^^^ tail)))) bits

/-- Toggles the bits of `[start, stop)`, in a set grown to `stop` bits if it had fewer. -/
def flipChecked (start stop : Nat) : CheckedUpdate :=
  if stop < start then
    lift (throw (.invalidRange start stop))
  else
    (lift (cover stop)).andThen
      (if start < stop then toggleChecked start stop else lift (pure ()))

theorem invertWordsChecked_eq {bits : BitSet} {first last : Nat} (ordered : first ≤ last)
    (inside : last ≤ bits.words.size) :
    invertWordsChecked first last bits = some (invertWords first last bits) := by
  rw [invertWordsChecked, invertWords, Machine.slice_of_le ordered inside,
    if_neg (Nat.not_lt.mpr inside)]
  rfl

theorem size_of_changeWord {before after : BitSet} {place : Nat} {change : Word → Word}
    (done : changeWord place change before = .ok () after) :
    after.words.size = before.words.size := by
  rw [changeWord] at done
  split at done
  · next inside =>
      rw [← (EStateM.Result.ok.inj done).2]
      exact Array.size_set inside
  · exact nomatch done

theorem size_of_invertWords {before after : BitSet} {first last : Nat}
    (done : invertWords first last before = .ok () after) :
    after.words.size = before.words.size := by
  rw [invertWords] at done
  split at done
  · exact nomatch done
  · rw [← (EStateM.Result.ok.inj done).2]
    exact Array.size_mapIdx

theorem toggleChecked_eq {bits : BitSet} {start stop : Nat} (nonempty : start < stop)
    (inside : (stop - 1) / Word.width < bits.words.size) (fits : bits.words.size ≤ 2 ^ 58) :
    toggleChecked start stop bits = some (toggle start stop bits) := by
  have ordered : start / Word.width ≤ (stop - 1) / Word.width :=
    Nat.div_le_div_right (by omega)
  rw [toggleChecked, toggle, Machine.sub_of_le (by omega)]
  simp only [Option.bind_eq_bind, Option.bind_some, Machine.upward_eq, Machine.downward_eq]
  split
  · next single => exact changeWordChecked_eq _ (single ▸ inside)
  · next apart =>
      have later : start / Word.width + 1 ≤ (stop - 1) / Word.width := by omega
      rw [Machine.add_of_lt (by omega), Option.bind_some]
      -- No update changes the number of words, so what lies inside at first stays inside.
      refine andThen_eq (changeWordChecked_eq _ (Nat.lt_of_le_of_lt ordered inside))
        fun headed head => ?_
      rw [← size_of_changeWord head] at inside
      refine andThen_eq (invertWordsChecked_eq later (Nat.le_of_lt inside))
        fun inverted middle => ?_
      rw [← size_of_invertWords middle] at inside
      exact changeWordChecked_eq _ inside

theorem flipChecked_eq {bits : BitSet} (wellFormed : bits.WellFormed)
    (fits : bits.limit.maxLength < 2 ^ 64) (start stop : Nat) :
    flipChecked start stop bits = some (flip start stop bits) := by
  rw [flipChecked, flip]
  split
  · rfl
  · refine andThen_eq rfl fun middle covered => ?_
    rcases Nat.lt_or_ge bits.limit.maxLength stop with above | within
    · rw [cover_of_lt wellFormed above] at covered
      cases covered
    · obtain ⟨after, done, becomes⟩ := cover_of_le wellFormed within
      obtain rfl : after = middle := (EStateM.Result.ok.inj (done.symm.trans covered)).2
      split
      · next nonempty =>
          have last : stop - 1 < after.length := by
            rw [becomes.length_eq]
            omega
          exact toggleChecked_eq nonempty (becomes.wellFormed.place_lt last)
            (becomes.wellFormed.size_le (becomes.limit_eq ▸ fits))
      · rfl

/-! ## Counting and scanning -/

/-- The number of true bits. -/
def cardinalityChecked (bits : BitSet) : Option Nat :=
  bits.words.foldlM (fun count word => Machine.add count word.popCount) 0

/-- The lowest one in `word`, the word at `place`, or else in a later word. -/
def seekChecked (words : Array Word) (place : Nat) (word : Word) : Option (Option Nat) :=
  match word.lowest? with
  | some offset => do
      let base ← Machine.mul place Word.width
      return some (← Machine.add base offset)
  | none => do
      let _ ← Machine.add place 1
      if inside : place + 1 < words.size then
        seekChecked words (place + 1) words[place + 1]
      else
        return none
termination_by words.size - place

/-- The lowest position at or after `start` that holds a true bit. -/
def nextOneChecked (bits : BitSet) (start : Nat) : Option (Except Error (Option Nat)) :=
  if bits.length ≤ start then
    some (.ok none)
  else do
    let word ← bits.words[start / Word.width]?
    let mask ← Machine.upward start
    return .ok (← seekChecked bits.words (start / Word.width) (word &&& mask))

theorem foldlM_add_popCount {words : List Word} {count : Nat}
    (fits : words.foldl (fun count word => count + word.popCount) count < 2 ^ 64) :
    words.foldlM (fun count word => Machine.add count word.popCount) count =
      some (words.foldl (fun count word => count + word.popCount) count) := by
  have below : ∀ (words : List Word) (count : Nat),
      count ≤ words.foldl (fun count word => count + word.popCount) count := by
    intro words
    induction words with
    | nil => exact fun count => Nat.le_refl count
    | cons word words induction =>
        exact fun count => Nat.le_trans (Nat.le_add_right _ _) (induction _)
  induction words generalizing count with
  | nil => rfl
  | cons word words induction =>
      rw [List.foldlM_cons, Machine.add_of_lt (Nat.lt_of_le_of_lt (below words _) fits)]
      exact induction fits

theorem cardinalityChecked_eq {bits : BitSet} (wellFormed : bits.WellFormed)
    (fits : bits.limit.maxLength < 2 ^ 64) : bits.cardinalityChecked = some bits.cardinality := by
  have small : bits.cardinality < 2 ^ 64 := by
    rw [← wellFormed.cardinality_toFlags]
    refine Nat.lt_of_le_of_lt List.count_le_length ?_
    rw [← Flags.length, length_toFlags]
    exact Nat.lt_of_le_of_lt wellFormed.length_le fits
  rw [cardinality, ← Array.foldl_toList] at small
  rw [cardinalityChecked, cardinality, ← Array.foldlM_toList, ← Array.foldl_toList]
  exact foldlM_add_popCount small

theorem seekChecked_eq {words : Array Word} (fits : words.size ≤ 2 ^ 58) (place : Nat)
    (word : Word) (inside : place < words.size) :
    seekChecked words place word = some (seek words place word) := by
  have counted : Machine.add place 1 = some (place + 1) := Machine.add_of_lt (by omega)
  induction place, word using seek.induct words with
  | case1 place word offset found =>
      have small := Word.lt_width_of_lowest? found
      -- The last of the words that there can be ends right at the greatest position.
      have sum_lt : place * Word.width + offset < 2 ^ 64 := by
        simp only [Word.width] at *
        omega
      have product_lt : place * Word.width < 2 ^ 64 :=
        Nat.lt_of_le_of_lt (Nat.le_add_right _ offset) sum_lt
      rw [seekChecked, seek, found]
      simp only [Machine.mul_of_lt product_lt, Option.bind_eq_bind, Option.bind_some,
        Machine.add_of_lt sum_lt]
      rfl
  | case2 place word absent more induction =>
      rw [seekChecked, seek, absent]
      simp only [counted, dif_pos more]
      exact induction more (Machine.add_of_lt (by omega))
  | case3 place word absent outside =>
      rw [seekChecked, seek, absent]
      simp only [counted, dif_neg outside]
      rfl

theorem nextOneChecked_eq {bits : BitSet} (wellFormed : bits.WellFormed)
    (fits : bits.limit.maxLength < 2 ^ 64) (start : Nat) :
    bits.nextOneChecked start = some (bits.nextOne? start) := by
  rcases Nat.lt_or_ge start bits.length with inside | outside
  · have stored := wellFormed.place_lt inside
    rw [nextOneChecked, nextOne?, if_neg (Nat.not_le.mpr inside), if_neg (Nat.not_le.mpr inside),
      wordAt_eq stored, Array.getElem?_eq_getElem stored, Machine.upward_eq]
    simp only [Option.bind_eq_bind, Option.bind_some,
      seekChecked_eq (wellFormed.size_le fits) _ _ stored]
    simp [wordOrZero, stored, Except.map]
  · rw [nextOneChecked, nextOne?, if_pos outside, if_pos outside]

/-! ## Every operation -/

/-- No operation on a bit set stops the machine, and each ends as it ends without the checks. -/
structure Steady (bits : BitSet) : Prop where
  /-- Reading a bit. -/
  get_eq : ∀ index, bits.getChecked index = some (bits.get index)
  /-- Making a bit true. -/
  set_eq : ∀ index, setChecked index bits = some (set index bits)
  /-- Making many bits true. -/
  setAll_eq : ∀ positions, setAllChecked positions bits = some (setAll positions bits)
  /-- Making a bit false. -/
  clear_eq : ∀ index, clearChecked index bits = some (clear index bits)
  /-- Toggling a range. -/
  flip_eq : ∀ start stop, flipChecked start stop bits = some (flip start stop bits)
  /-- Counting. -/
  cardinality_eq : bits.cardinalityChecked = some bits.cardinality
  /-- Scanning. -/
  nextOne_eq : ∀ start, bits.nextOneChecked start = some (bits.nextOne? start)

theorem WellFormed.steady {bits : BitSet} (wellFormed : bits.WellFormed)
    (fits : bits.limit.maxLength < 2 ^ 64) : bits.Steady where
  get_eq := getChecked_eq wellFormed
  set_eq := setChecked_eq wellFormed
  setAll_eq := setAllChecked_eq wellFormed
  clear_eq := clearChecked_eq wellFormed
  flip_eq := flipChecked_eq wellFormed fits
  cardinality_eq := cardinalityChecked_eq wellFormed fits
  nextOne_eq := nextOneChecked_eq wellFormed fits

/-- Combining one set with another meets no missing word. -/
structure Combines (bits other : BitSet) : Prop where
  /-- Conjunction. -/
  intersect_ne : ∀ cause after, intersect other bits ≠ .error (.fault cause) after
  /-- Disjunction. -/
  unite_ne : ∀ cause after, unite other bits ≠ .error (.fault cause) after

theorem WellFormed.combines {bits other : BitSet} (wellFormed : bits.WellFormed)
    (otherWellFormed : other.WellFormed) : bits.Combines other := by
  rcases Nat.lt_or_ge bits.limit.maxLength other.length with above | within
  · constructor
    · intro cause after
      rw [intersect_of_lt wellFormed above]
      exact nofun
    · intro cause after
      rw [unite_of_lt wellFormed above]
      exact nofun
  · obtain ⟨intersected, intersect_eq, -⟩ := intersect_of_le wellFormed otherWellFormed within
    obtain ⟨united, unite_eq, -⟩ := unite_of_le wellFormed otherWellFormed within
    constructor
    · intro cause after
      rw [intersect_eq]
      exact nofun
    · intro cause after
      rw [unite_eq]
      exact nofun

end BitSet

end PackedStore
