import Mathlib.Data.List.Forall2
import PackedStore.BitSet.Cursor
import PackedStore.Proofs.BitSet.Canonical
import PackedStore.Proofs.BitSet.History

/-!
# Equal sets

Two sets are compared by their lengths and their words, whatever their limits. At the ends of
histories this compares them bit by bit, whichever calls led there. No question tells equal sets
apart, and they stay equal under the same operations, as long as all of these succeed on both.
-/

namespace PackedStore

namespace BitSet

variable {left right : BitSet}

/-! ## What is compared -/

/-- Comparing well-formed sets compares their flags. -/
theorem WellFormed.sameBits_iff_toFlags_eq (leftWellFormed : left.WellFormed)
    (rightWellFormed : right.WellFormed) :
    left.sameBits right = true ↔ left.toFlags = right.toFlags := by
  rw [sameBits_iff]
  constructor
  · rintro ⟨lengths, words⟩
    have bits : left.bit = right.bit := by
      funext index
      rw [bit, bit, wordOrZero, wordOrZero, words]
    rw [toFlags, toFlags, lengths, bits]
  · intro flags
    have lengths : left.length = right.length := by
      rw [← length_toFlags left, flags, length_toFlags]
    refine ⟨lengths, leftWellFormed.words_eq rightWellFormed lengths ?_⟩
    intro index
    rw [← leftWellFormed.bit_toFlags, flags, rightWellFormed.bit_toFlags]

/-- Well-formed sets are equal exactly if they have the same length and read the same below it. -/
theorem WellFormed.sameBits_iff_get_eq (leftWellFormed : left.WellFormed)
    (rightWellFormed : right.WellFormed) :
    left.sameBits right = true ↔
      left.length = right.length ∧
        ∀ index, index < left.length → left.get index = right.get index := by
  rw [sameBits_iff]
  refine and_congr_right fun lengths => ⟨fun words index _ => ?_, fun reads => ?_⟩
  · rw [get, get, wordAt, wordAt, lengths, words]
  · apply leftWellFormed.words_eq rightWellFormed lengths
    intro index
    rcases Nat.lt_or_ge index left.length with inside | outside
    · have same := reads index inside
      rwa [leftWellFormed.get_of_lt inside, rightWellFormed.get_of_lt (lengths ▸ inside),
        Except.ok.injEq] at same
    · rw [leftWellFormed.bit_eq_false index outside,
        rightWellFormed.bit_eq_false index (lengths ▸ outside)]

/-- No question tells the two sets apart, and neither does comparing them. -/
structure Alike (left right : BitSet) : Prop where
  /-- The number of bits. -/
  length_eq : left.length = right.length
  /-- Every bit, and the error where there is none. -/
  get_eq : ∀ index, left.get index = right.get index
  /-- The number of true bits. -/
  cardinality_eq : left.cardinality = right.cardinality
  /-- The lowest true position from every start on. -/
  nextOne?_eq : ∀ start, left.nextOne? start = right.nextOne? start
  /-- The list of true positions. -/
  positions_eq : left.positions = right.positions
  /-- The true positions that a cursor gives out one by one. -/
  steps_eq : ∀ count, (left.cursor.steps count).1 = (right.cursor.steps count).1
  /-- Comparison. -/
  sameBits : left.sameBits right = true

/-- Questions read nothing but the length and the words. -/
theorem alike_of_sameBits (same : left.sameBits right = true) : left.Alike right := by
  obtain ⟨lengths, words⟩ := sameBits_iff.mp same
  have cursors : left.cursor = right.cursor := by rw [cursor, cursor, words]
  constructor
  case length_eq => exact lengths
  case get_eq =>
    intro index
    rw [get, get, wordAt, wordAt, lengths, words]
  case cardinality_eq => rw [cardinality, cardinality, words]
  case nextOne?_eq =>
    intro start
    rw [nextOne?, nextOne?, wordAt, wordAt, lengths, words]
  case positions_eq => rw [positions, positions, cursors]
  case steps_eq =>
    intro count
    rw [cursors]
  case sameBits => exact same

/-! ## One operation -/

/-- An operation on a set. The operand of a combination has a history of its own. -/
inductive Change where
  /-- A copy takes the set's place. -/
  | clone
  /-- A bit is made true. -/
  | set (index : Nat)
  /-- A bit is made false. -/
  | clear (index : Nat)
  /-- All listed bits are made true. -/
  | setAll (positions : List Nat)
  /-- The bits of `[start, stop)` are toggled. -/
  | flip (start stop : Nat)
  /-- The conjunction with another set is taken. -/
  | intersect (other : History)
  /-- The disjunction with another set is taken. -/
  | unite (other : History)

namespace Change

/-- What the operation does to a set. -/
def update : Change → Update Unit
  | clone => pure ()
  | set index => BitSet.set index
  | clear index => BitSet.clear index
  | setAll positions => BitSet.setAll positions
  | flip start stop => BitSet.flip start stop
  | intersect other => BitSet.intersect other.bits
  | unite other => BitSet.unite other.bits

/-- What the operation does to a flag sequence. -/
def flags? : Change → Flags → Option Flags
  | clone => some
  | set index => (·.set? index)
  | clear index => (·.clear? index)
  | setAll positions => (·.setAll? positions)
  | flip start stop => fun flags => (flags.flip start stop).toOption
  | intersect other => fun flags => some (flags.intersect other.bits.toFlags)
  | unite other => fun flags => some (flags.unite other.bits.toFlags)

theorem mirrors (change : Change) : Mirrors change.update change.flags? := by
  cases change with
  | clone => exact fun before wellFormed => .inl ⟨before, rfl, wellFormed, rfl, rfl⟩
  | set index => exact mirrors_set index
  | clear index => exact mirrors_clear index
  | setAll positions => exact mirrors_setAll positions
  | flip start stop => exact mirrors_flip start stop
  | intersect other => exact mirrors_intersect other.wellFormed
  | unite other => exact mirrors_unite other.wellFormed

/-- The two operations are the same and have the same arguments; operands need only be equal. -/
inductive Matches : Change → Change → Prop where
  /-- Nothing differs. -/
  | refl (change : Change) : Matches change change
  /-- Conjunctions with equal sets. -/
  | intersect {other another : History} (same : other.bits.sameBits another.bits = true) :
      Matches (.intersect other) (.intersect another)
  /-- Disjunctions with equal sets. -/
  | unite {other another : History} (same : other.bits.sameBits another.bits = true) :
      Matches (.unite other) (.unite another)

theorem toFlags_eq_of_sameBits {other another : History}
    (same : other.bits.sameBits another.bits = true) :
    other.bits.toFlags = another.bits.toFlags :=
  (WellFormed.sameBits_iff_toFlags_eq other.wellFormed
    another.wellFormed).mp same

theorem Matches.flags?_eq {change counterpart : Change} (pair : Matches change counterpart) :
    change.flags? = counterpart.flags? := by
  cases pair with
  | refl => rfl
  | intersect same => rw [flags?, flags?, toFlags_eq_of_sameBits same]
  | unite same => rw [flags?, flags?, toFlags_eq_of_sameBits same]

/-- Operations that match end in equal sets, if they start from equal sets and both succeed. -/
theorem Matches.sameBits_of_ok {change counterpart : Change} (pair : Matches change counterpart)
    (leftWellFormed : left.WellFormed) (rightWellFormed : right.WellFormed)
    (same : left.sameBits right = true) {leftAfter rightAfter : BitSet}
    (leftDone : change.update.run left = .ok () leftAfter)
    (rightDone : counterpart.update.run right = .ok () rightAfter) :
    leftAfter.WellFormed ∧ rightAfter.WellFormed ∧ leftAfter.sameBits rightAfter = true := by
  obtain ⟨leftReady, leftFlags⟩ := change.mirrors.of_ok leftWellFormed leftDone
  obtain ⟨rightReady, rightFlags⟩ := counterpart.mirrors.of_ok rightWellFormed rightDone
  -- The words need not take the same way on both sides, but the flags do.
  refine ⟨leftReady, rightReady, (leftReady.sameBits_iff_toFlags_eq rightReady).mpr ?_⟩
  rw [leftWellFormed.sameBits_iff_toFlags_eq rightWellFormed] at same
  rw [← Option.some_inj, ← leftFlags, ← rightFlags, pair.flags?_eq, same]

end Change

/-! ## Many operations -/

/-- The sets that operations made one after the other lead through, from the set itself to the last
one, or `none` if one of the operations fails. -/
def trail (before : BitSet) : List Change → Option (List BitSet)
  | [] => some [before]
  | change :: changes =>
      match change.update.run before with
      | .ok _ after => (after.trail changes).map (before :: ·)
      | .error _ _ => none

theorem trail_cons_eq_some {before : BitSet} {change : Change} {changes : List Change}
    {sets : List BitSet} (led : before.trail (change :: changes) = some sets) :
    ∃ after later, change.update.run before = .ok () after ∧
      after.trail changes = some later ∧ before :: later = sets := by
  cases done : change.update.run before with
  | ok _ after =>
      simp only [trail, done, Option.map_eq_some_iff] at led
      obtain ⟨later, rest, split⟩ := led
      exact ⟨after, later, rfl, rest, split⟩
  | error error after =>
      simp only [trail, done] at led
      exact nomatch led

/-- Operations that match lead equal sets through sets that nothing tells apart. -/
theorem alike_trail {changes counterparts : List Change}
    (pairs : List.Forall₂ Change.Matches changes counterparts) {sets otherSets : List BitSet}
    (leftWellFormed : left.WellFormed) (rightWellFormed : right.WellFormed)
    (same : left.sameBits right = true) (led : left.trail changes = some sets)
    (otherLed : right.trail counterparts = some otherSets) : List.Forall₂ Alike sets otherSets := by
  induction pairs generalizing left right sets otherSets with
  | nil =>
      obtain rfl := Option.some.inj led
      obtain rfl := Option.some.inj otherLed
      exact .cons (alike_of_sameBits same) .nil
  | cons pair _ induction =>
      obtain ⟨leftAfter, later, leftDone, rest, rfl⟩ := trail_cons_eq_some led
      obtain ⟨rightAfter, otherLater, rightDone, otherRest, rfl⟩ := trail_cons_eq_some otherLed
      obtain ⟨leftReady, rightReady, still⟩ :=
        pair.sameBits_of_ok leftWellFormed rightWellFormed same leftDone rightDone
      exact .cons (alike_of_sameBits same)
        (induction leftReady rightReady still rest otherRest)

/-- The ends of two histories are equal exactly if they have the same length and every position
below it reads the same, whatever the limits. Operations that match and all succeed lead from equal
ends through sets that nothing tells apart, the last ones included. -/
theorem sameBits_iff_get_eq_and_alike_trail (history another : History) :
    let bits := history.bits
    let others := another.bits
    (bits.sameBits others = true ↔
        bits.length = others.length ∧
          ∀ index, index < bits.length → bits.get index = others.get index) ∧
      (bits.sameBits others = true →
        ∀ (changes counterparts : List Change) (sets otherSets : List BitSet),
          List.Forall₂ Change.Matches changes counterparts → bits.trail changes = some sets →
            others.trail counterparts = some otherSets → List.Forall₂ Alike sets otherSets) := by
  intro bits others
  have wellFormed : bits.WellFormed := history.wellFormed
  have otherWellFormed : others.WellFormed := another.wellFormed
  refine ⟨wellFormed.sameBits_iff_get_eq otherWellFormed, ?_⟩
  intro same changes counterparts sets otherSets pairs led otherLed
  exact alike_trail pairs wellFormed otherWellFormed same led otherLed

/-- Sets of seventy bits under different limits, one made at full length and the other grown to it,
before and after a flip that grows both, a conjunction with operands of different limits and two
changes of single bits. -/
theorem alike_trail_of_two_limits :
    let history : History := .flip (.zeros 70 ⟨300⟩ (by decide)) 3 66
    let another : History :=
      .unite (.flip (.zeros 5 ⟨200⟩ (by decide)) 3 66) (.zeros 70 ⟨90⟩ (by decide))
    let operand : History := .flip (.zeros 64 ⟨90⟩ (by decide)) 1 62
    let substitute : History := .flip (.flip (.zeros 0 ⟨64⟩ (by decide)) 1 62) 64 64
    let changes : List Change := [.flip 60 130, .intersect operand, .setAll [1, 64], .clear 64]
    let counterparts : List Change :=
      [.flip 60 130, .intersect substitute, .setAll [1, 64], .clear 64]
    history.bits.sameBits another.bits = true ∧ List.Forall₂ Change.Matches changes counterparts ∧
      ∃ sets otherSets, history.bits.trail changes = some sets ∧
        another.bits.trail counterparts = some otherSets ∧
          sets.map (·.length) = [70, 130, 130, 130, 130] ∧ List.Forall₂ Alike sets otherSets := by
  intro history another operand substitute changes counterparts
  have same : history.bits.sameBits another.bits = true := by decide
  have operands : operand.bits.sameBits substitute.bits = true := by decide
  have pairs : List.Forall₂ Change.Matches changes counterparts :=
    .cons (.refl _) (.cons (.intersect operands) (.cons (.refl _) (.cons (.refl _) .nil)))
  have lengths : (history.bits.trail changes).map (·.map (·.length)) =
      some [70, 130, 130, 130, 130] := by decide +kernel
  have otherLengths : (another.bits.trail counterparts).map (·.map (·.length)) =
      some [70, 130, 130, 130, 130] := by decide +kernel
  obtain ⟨sets, led, length_eq⟩ := Option.map_eq_some_iff.mp lengths
  obtain ⟨otherSets, otherLed, -⟩ := Option.map_eq_some_iff.mp otherLengths
  exact ⟨same, pairs, sets, otherSets, led, otherLed, length_eq,
    (sameBits_iff_get_eq_and_alike_trail history another).2 same _ _ _ _ pairs led otherLed⟩

end BitSet

end PackedStore
