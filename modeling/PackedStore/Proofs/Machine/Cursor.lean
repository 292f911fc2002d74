import PackedStore.Proofs.BitSet.Enumeration
import PackedStore.Proofs.Machine.BitSet

/-!
# Cursors on the machine

On the machine a cursor keeps the words of its set and the place of the word it stands in. Each step
that finds nothing moves it on by one place, also behind the last word. As long as the machine can
count these places no step stops it, and the cursor gives out what one gives out that drops the
words it has left behind. At the end of every history both list the positions that read true.
-/

namespace PackedStore

namespace BitSet

/-- A cursor among all words of a set. -/
structure PlacedCursor where
  /-- The words of the set. -/
  words : Array Word
  /-- The place of the current word. -/
  place : Nat
  /-- The ones of the current word that have not been given out. -/
  current : Word

namespace PlacedCursor

/-- A cursor in front of the first of `words`. -/
def ofWords (words : Array Word) : PlacedCursor :=
  ⟨words, 0, words[0]?.getD 0⟩

/-- The next one in `current`, the word at `place`, or in a later word, and the cursor behind it. -/
def advance (words : Array Word) (place : Nat) (current : Word) :
    Option (Option Nat × PlacedCursor) :=
  match current.lowest? with
  | some offset => do
      let base ← Machine.mul place Word.width
      let position ← Machine.add base offset
      return (some position, ⟨words, place, current.clearLowest⟩)
  | none => do
      let _ ← Machine.add place 1
      if inside : place + 1 < words.size then
        advance words (place + 1) words[place + 1]
      else
        return (none, ⟨words, place + 1, 0⟩)
termination_by words.size - place

/-- The next true position, or `none` when all have been given out, and the cursor behind it. -/
def next (cursor : PlacedCursor) : Option (Option Nat × PlacedCursor) :=
  advance cursor.words cursor.place cursor.current

/-- What the next `count` steps give out. -/
def steps (cursor : PlacedCursor) : Nat → Option (List (Option Nat))
  | 0 => some []
  | count + 1 => do
      let (given, rest) ← cursor.next
      return given :: (← rest.steps count)

/-- The cursor without the words it has left behind. -/
def toCursor (cursor : PlacedCursor) : Cursor :=
  ⟨cursor.place * Word.width, cursor.current, cursor.words.toList.drop (cursor.place + 1)⟩

/-- A cursor can make `count` more steps: its places can be counted that far, and it holds no ones
behind the last word. -/
structure Ready (cursor : PlacedCursor) (count : Nat) : Prop where
  /-- There are no more words than bits that can be counted. -/
  size_le : cursor.words.size ≤ 2 ^ 58
  /-- Every step passes at most one place that is not of a word. -/
  place_lt : max cursor.words.size cursor.place + count < 2 ^ 64
  /-- Nothing is left behind the last word. -/
  current_eq : cursor.words.size ≤ cursor.place → cursor.current = 0

/-- A step of a ready cursor does not stop the machine. -/
theorem exists_advance_eq {words : Array Word} {place : Nat} {current : Word} {count : Nat}
    (ready : Ready ⟨words, place, current⟩ (count + 1)) :
    ∃ given rest, advance words place current = some (given, rest) ∧ rest.Ready count ∧
      Cursor.advance (place * Word.width) current (words.toList.drop (place + 1)) =
        (given, rest.toCursor) := by
  induction place, current using seek.induct words with
  | case1 place current offset found =>
      obtain ⟨size_le, place_lt, current_eq⟩ := ready
      simp only at size_le place_lt current_eq
      have inside : place < words.size := by
        by_contra outside
        exact Word.ne_zero_of_lowest? found (current_eq (Nat.not_lt.mp outside))
      have small := Word.lt_width_of_lowest? found
      have sum_lt : place * Word.width + offset < 2 ^ 64 := by
        simp only [Word.width] at *
        omega
      have product_lt : place * Word.width < 2 ^ 64 :=
        Nat.lt_of_le_of_lt (Nat.le_add_right _ offset) sum_lt
      refine ⟨some (place * Word.width + offset), ⟨words, place, current.clearLowest⟩, ?_, ?_, ?_⟩
      · rw [advance, found]
        simp only [Machine.mul_of_lt product_lt, Option.bind_eq_bind, Option.bind_some,
          Machine.add_of_lt sum_lt]
        rfl
      · exact ⟨size_le, by simp only; omega, fun outside => absurd inside (Nat.not_lt.mpr outside)⟩
      · unfold Cursor.advance
        rw [found]
        rfl
  | case2 place current absent inside induction =>
      obtain ⟨size_le, place_lt, -⟩ := ready
      simp only at size_le place_lt
      have counted : Machine.add place 1 = some (place + 1) := Machine.add_of_lt (by omega)
      have moved : Ready ⟨words, place + 1, words[place + 1]⟩ (count + 1) :=
        ⟨size_le, by simp only; omega, fun outside => absurd inside (Nat.not_lt.mpr outside)⟩
      obtain ⟨given, rest, done, restReady, same⟩ := induction moved
      refine ⟨given, rest, ?_, restReady, ?_⟩
      · rw [advance, absent]
        simp only [counted, Option.bind_eq_bind, Option.bind_some, dif_pos inside, done]
      · have stored : place + 1 < words.toList.length := inside
        unfold Cursor.advance
        rw [absent, List.drop_eq_getElem_cons stored]
        rw [Nat.succ_mul] at same
        exact same
  | case3 place current absent outside =>
      obtain ⟨size_le, place_lt, -⟩ := ready
      simp only at size_le place_lt
      have counted : Machine.add place 1 = some (place + 1) := Machine.add_of_lt (by omega)
      refine ⟨none, ⟨words, place + 1, 0⟩, ?_, ⟨size_le, by simp only; omega, fun _ => rfl⟩, ?_⟩
      · rw [advance, absent]
        simp only [counted, Option.bind_eq_bind, Option.bind_some, dif_neg outside]
        rfl
      · have gone : words.toList.drop (place + 1) = [] :=
          List.drop_of_length_le (Nat.not_lt.mp outside)
        have later_gone : words.toList.drop (place + 1 + 1) = [] :=
          List.drop_of_length_le (Nat.le_succ_of_le (Nat.not_lt.mp outside))
        unfold Cursor.advance
        rw [absent, gone, toCursor, later_gone, Nat.succ_mul]

/-- As many steps of a ready cursor do not stop the machine. -/
theorem Ready.steps_eq {cursor : PlacedCursor} {count : Nat} (ready : cursor.Ready count) :
    cursor.steps count = some (cursor.toCursor.steps count).1 := by
  induction count generalizing cursor with
  | zero => rfl
  | succ count induction =>
      obtain ⟨given, rest, done, restReady, same⟩ := exists_advance_eq ready
      have step : cursor.toCursor.next = (given, rest.toCursor) := same
      rw [steps, next, done]
      simp only [Option.bind_eq_bind, Option.bind_some, induction restReady, Cursor.steps, step]
      rfl

theorem toCursor_ofWords (words : Array Word) :
    (ofWords words).toCursor = Cursor.ofWords 0 words.toList := by
  obtain ⟨words⟩ := words
  cases words with
  | nil => rfl
  | cons word words => simp [ofWords, toCursor, Cursor.ofWords]

end PlacedCursor

/-- A cursor of a well-formed set does not stop the machine before it has been asked more often than
there are places to count behind the last word. It gives out the positions of the set one by one,
and nothing from then on. -/
theorem WellFormed.placedCursor_steps_eq {bits : BitSet} (wellFormed : bits.WellFormed)
    (fits : bits.limit.maxLength < 2 ^ 64) {count : Nat}
    (countable : bits.words.size + count < 2 ^ 64) :
    (PlacedCursor.ofWords bits.words).steps count =
      some ((List.range count).map (bits.positions[·]?)) := by
  have ready : (PlacedCursor.ofWords bits.words).Ready count :=
    { size_le := wellFormed.size_le fits
      place_lt := by
        rw [PlacedCursor.ofWords, Nat.max_eq_left (Nat.zero_le _)]
        exact countable
      current_eq := by
        intro (empty : bits.words.size ≤ 0)
        simp only [PlacedCursor.ofWords]
        rw [Array.getElem?_eq_none empty]
        rfl }
  rw [ready.steps_eq, PlacedCursor.toCursor_ofWords, Cursor.steps_eq, positions, Cursor.toList_eq,
    cursor]

/-! ## Stepping at the end of every history -/

/-- At the end of every history, the listed positions ascend and are those that read true. The steps
of the cursor give them out one by one and nothing from then on, repeated scans from the start find
them and nothing else, and the count of true bits is their number. The steps on the machine give
them out alike, until its words can no longer count the places that they pass. -/
theorem positions_enumerate_ones (history : History) :
    let bits := history.bits
    bits.positions.Pairwise (· < ·) ∧
      (∀ index, index ∈ bits.positions ↔ index < bits.length ∧ bits.get index = .ok true) ∧
      (∀ count, (bits.cursor.steps count).1 = (List.range count).map (bits.positions[·]?)) ∧
      (∀ walked, bits.Walk 0 walked ↔ walked = bits.positions) ∧
      bits.positions.length = bits.cardinality ∧
      ∀ count, bits.limit.maxLength < 2 ^ 64 → bits.words.size + count < 2 ^ 64 →
        (PlacedCursor.ofWords bits.words).steps count =
          some ((List.range count).map (bits.positions[·]?)) := by
  intro bits
  have wellFormed : bits.WellFormed := history.wellFormed_and_flags?_eq.1
  refine ⟨wellFormed.pairwise_positions, fun index => ?_, fun count => ?_, fun walked => ?_,
    wellFormed.length_positions,
    fun count fits countable => wellFormed.placedCursor_steps_eq fits countable⟩
  · rw [wellFormed.mem_positions, wellFormed.get_eq_ok_true_iff,
      and_iff_right_of_imp wellFormed.lt_length_of_bit]
  · rw [Cursor.steps_eq, positions, Cursor.toList_eq]
  · rw [wellFormed.walk_iff, List.filter_eq_self.mpr]
    exact fun index _ => decide_eq_true (Nat.zero_le index)

/-- Three positions on either side of the end of a word, and two steps behind the last of them. -/
theorem positions_enumerate_ones_across_words :
    let history : History := .flip (.zeros 66 {} (by decide)) 63 66
    let bits := history.bits
    bits.limit.maxLength < 2 ^ 64 ∧ bits.words.size + 5 < 2 ^ 64 ∧
      (PlacedCursor.ofWords bits.words).steps 5 = some [some 63, some 64, some 65, none, none] := by
  intro history bits
  have limit_lt : bits.limit.maxLength < 2 ^ 64 := by decide
  have countable : bits.words.size + 5 < 2 ^ 64 := by decide
  obtain ⟨-, -, -, -, -, steps_eq⟩ := positions_enumerate_ones history
  have listed : bits.positions = [63, 64, 65] := by
    rw [history.wellFormed.positions_eq_filter]
    decide
  refine ⟨limit_lt, countable, ?_⟩
  rw [steps_eq 5 limit_lt countable, listed]
  rfl

end BitSet

end PackedStore
