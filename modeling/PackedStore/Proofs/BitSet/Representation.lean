import PackedStore.Proofs.BitSet.History

/-!
# The form of every bit set

Counting, scanning and comparison work on whole words. They may, since no history of calls leaves a
word too many or too few, a true bit behind the length, or a length above the limit. The limit is
that of the set first made, and the length only grows.
-/

namespace PackedStore

namespace BitSet

/-- An update that mirrors a change of flags keeps the limit, whether it succeeds or fails, and the
length too, unless the change makes the flags longer. -/
theorem Mirrors.leave_extends {update : Update Unit} {change : Flags → Option Flags}
    (mirrors : Mirrors update change)
    (longer : ∀ flags after : Flags, change flags = some after → flags.length ≤ after.length)
    {before : BitSet} (wellFormed : before.WellFormed) :
    (update.leave before).limit = before.limit ∧
      before.length ≤ (update.leave before).length := by
  rcases mirrors before wellFormed with ⟨after, done, -, limit_eq, changed⟩ | ⟨error, refused, -⟩
  · have length_le := longer _ _ changed
    rw [length_toFlags, length_toFlags] at length_le
    rw [Update.leave_of_ok done]
    exact ⟨limit_eq, length_le⟩
  · rw [Update.leave_of_error refused]
    exact ⟨rfl, Nat.le_refl _⟩

/-! ## Words and their tail -/

/-- A bit set is stored in exactly the words it needs, with zeros behind its length, and keeps to
its limit. -/
structure Packed (bits : BitSet) : Prop where
  /-- There are as many words as sixty-fourths of the length, rounded up. -/
  size_words : bits.words.size = (bits.length + 63) / 64
  /-- No word holds a one at or beyond the length. -/
  getLsbD_eq_false : ∀ place word, bits.words[place]? = some word → ∀ offset, offset < 64 →
    bits.length ≤ 64 * place + offset → word.toBitVec.getLsbD offset = false
  /-- The length keeps to the limit. -/
  length_le : bits.length ≤ bits.limit.maxLength

theorem WellFormed.packed {bits : BitSet} (wellFormed : bits.WellFormed) : bits.Packed where
  size_words := wellFormed.size_words
  getLsbD_eq_false := by
    intro place word stored offset inside beyond
    have blank := wellFormed.bit_eq_false (64 * place + offset) beyond
    have here : (64 * place + offset) / Word.width = place := by
      simp only [Word.width]
      omega
    have there : (64 * place + offset) % Word.width = offset := by
      simp only [Word.width]
      omega
    rwa [bit, wordOrZero, here, stored, Option.getD_some, Word.testBit_eq, there] at blank
  length_le := wellFormed.length_le

namespace History

/-! ## Stages of a history -/

/-- The history without its last call, or that of the set which was copied; a set that was made new
has none. -/
def earlier? : History → Option History
  | zeros .. => none
  | clone earlier | set earlier _ | clear earlier _ | setAll earlier _ | flip earlier _ _
  | intersect earlier _ | unite earlier _ => some earlier

/-- The first history is the second one broken off before some of its last calls. -/
inductive Stage : History → History → Prop where
  /-- No call is left out. -/
  | whole (history : History) : Stage history history
  /-- The last call is left out, and perhaps calls before it. -/
  | broken {stage earlier history : History} (last : history.earlier? = some earlier)
      (before : Stage stage earlier) : Stage stage history

/-- The limit of the set that was made first. -/
def limit : History → Limit
  | zeros _ limit _ => limit
  | clone earlier | set earlier _ | clear earlier _ | setAll earlier _ | flip earlier _ _
  | intersect earlier _ | unite earlier _ => earlier.limit

/-- The last call of a history keeps the limit and takes no bit away. -/
theorem extends_earlier {history earlier : History} (last : history.earlier? = some earlier) :
    history.bits.limit = earlier.bits.limit ∧ earlier.bits.length ≤ history.bits.length := by
  have ready : ∀ history : History, history.bits.WellFormed := wellFormed
  cases history with
  | zeros => exact nomatch last
  | clone original =>
      obtain rfl := Option.some.inj last
      exact ⟨rfl, Nat.le_refl _⟩
  | set before index =>
      obtain rfl := Option.some.inj last
      exact (mirrors_set index).leave_extends
        (fun _ _ changed => Nat.le_of_eq (Flags.length_of_put? changed).symm) (ready before)
  | clear before index =>
      obtain rfl := Option.some.inj last
      exact (mirrors_clear index).leave_extends
        (fun _ _ changed => Nat.le_of_eq (Flags.length_of_put? changed).symm) (ready before)
  | setAll before positions =>
      obtain rfl := Option.some.inj last
      exact (mirrors_setAll positions).leave_extends
        (fun _ _ changed => Nat.le_of_eq (Flags.length_of_setAll? changed).symm) (ready before)
  | flip before start stop =>
      obtain rfl := Option.some.inj last
      refine (mirrors_flip start stop).leave_extends (fun flags after changed => ?_) (ready before)
      rw [Flags.length_of_flip changed]
      exact Nat.le_max_left _ _
  | intersect before other =>
      obtain rfl := Option.some.inj last
      exact (mirrors_intersect (ready other)).leave_extends
        (fun _ _ changed => Flags.length_le_of_combine (Option.some.inj changed)) (ready before)
  | unite before other =>
      obtain rfl := Option.some.inj last
      exact (mirrors_unite (ready other)).leave_extends
        (fun _ _ changed => Flags.length_le_of_combine (Option.some.inj changed)) (ready before)

theorem limit_eq (history : History) : history.bits.limit = history.limit := by
  induction history with
  | zeros length limit within =>
      obtain ⟨-, made⟩ := zeros_eq_ok_iff.mp (zeros_eq_zerosWithin within)
      exact congrArg BitSet.limit made
  | clone earlier induction | set earlier _ induction | clear earlier _ induction
  | setAll earlier _ induction | flip earlier _ _ induction | intersect earlier _ induction _
  | unite earlier _ induction _ => exact (extends_earlier rfl).1.trans induction

/-- Every history ends in a packed set with the limit of the set made first, and at no stage was the
limit another or the set longer. -/
theorem packed_and_extends (history : History) :
    history.bits.Packed ∧ history.bits.limit = history.limit ∧
      ∀ stage : History, stage.Stage history →
        stage.bits.limit = history.bits.limit ∧ stage.bits.length ≤ history.bits.length := by
  refine ⟨history.wellFormed_and_flags?_eq.1.packed, history.limit_eq, ?_⟩
  intro stage broken
  induction broken with
  | whole => exact ⟨rfl, Nat.le_refl _⟩
  | broken last before induction =>
      obtain ⟨limit_eq, length_le⟩ := extends_earlier last
      exact ⟨induction.1.trans limit_eq.symm, Nat.le_trans induction.2 length_le⟩

end History

end BitSet

end PackedStore
