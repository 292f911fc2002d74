import PackedStore.Proofs.BitSet.Order

/-!
# The algebra of conjunctions and disjunctions

Conjunctions and disjunctions in place grow the set they are made on, up to its own limit, and
continue the shorter operand by false bits. Where the limits let them succeed they obey the laws of
a Boolean algebra, lengths included: both are commutative and associative, the one distributes over
the other, and flipping both operands turns the one into the other. Several operands may be combined
into a set in any order, each accepted or refused as if it were the first.
-/

namespace PackedStore

namespace BitSet

/-! ## Laws -/

/-- Two sets combined in either order, where both orders succeed, end in equal sets. -/
def Commutes (combine : BitSet → Update Unit) (first second : BitSet) : Prop :=
  ∀ left right, (combine second).run first = .ok () left →
    (combine first).run second = .ok () right → left.sameBits right = true

/-- Three sets combined from the left or from the right, where all calls succeed, end in equal
sets. -/
def Associates (combine : BitSet → Update Unit) (first second third : BitSet) : Prop :=
  ∀ pair left rest right, (combine second).run first = .ok () pair →
    (combine third).run pair = .ok () left → (combine third).run second = .ok () rest →
      (combine rest).run first = .ok () right → left.sameBits right = true

/-- A set combined with two combined sets, or with each of them before the results are combined,
ends in equal sets, where all calls succeed. -/
def Distributes (outer inner : BitSet → Update Unit) (first second third : BitSet) : Prop :=
  ∀ rest left one other right, (inner third).run second = .ok () rest →
    (outer rest).run first = .ok () left → (outer second).run first = .ok () one →
      (outer third).run first = .ok () other → (inner other).run one = .ok () right →
        left.sameBits right = true

/-- Operands may be combined into a set in any order: all orders end in the same set, and the length
of each operand alone tells whether it is refused, which is for exceeding the limit. -/
def Accumulates (combine : BitSet → Update Unit) (before : BitSet) : Prop :=
  ∀ operands order : List History, order.Perm operands →
    let update := fun operand : History => combine operand.bits
    let cause := fun operand : History => before.limit.cause? operand.bits.length
    Update.leaveAll update order before = Update.leaveAll update operands before ∧
      Update.refusals update order before = order.map cause ∧
        Update.refusals update operands before = operands.map cause

/-! ## Bitwise combinations -/

/-- Combining with an operand is refused if the limit does not permit its length, and else makes room
for it and combines the two sets bit by bit. -/
structure Bitwise (combine : BitSet → Update Unit) (operation : Bool → Bool → Bool) : Prop where
  /-- An operand that the limit permits is combined bit by bit. -/
  accepts : ∀ before other, before.WellFormed → other.WellFormed →
    other.length ≤ before.limit.maxLength →
      ∃ after, combine other before = .ok () after ∧
        Becomes before after (max before.length other.length) fun index =>
          operation (before.bit index) (other.bit index)
  /-- An operand longer than the limit is refused. -/
  refuses : ∀ before other, before.WellFormed → before.limit.maxLength < other.length →
    combine other before = .error (.limitExceeded other.length before.limit.maxLength) before

theorem bitwise_intersect : Bitwise intersect (· && ·) where
  accepts _ _ := intersect_of_le
  refuses _ _ := intersect_of_lt

theorem bitwise_unite : Bitwise unite (· || ·) where
  accepts _ _ := unite_of_le
  refuses _ _ := unite_of_lt

namespace Bitwise

variable {combine : BitSet → Update Unit} {operation : Bool → Bool → Bool}
  (bitwise : Bitwise combine operation) {before other after first second third : BitSet}
include bitwise

/-- A combination that succeeds has combined the two sets bit by bit. -/
theorem becomes (wellFormed : before.WellFormed)
    (otherWellFormed : other.WellFormed) (done : (combine other).run before = .ok () after) :
    Becomes before after (max before.length other.length) fun index =>
      operation (before.bit index) (other.bit index) := by
  rcases Nat.lt_or_ge before.limit.maxLength other.length with above | within
  · have refused := bitwise.refuses before other wellFormed above
    exact nomatch done.symm.trans refused
  · obtain ⟨result, accepted, becomes⟩ :=
      bitwise.accepts before other wellFormed otherWellFormed within
    obtain rfl : result = after := (EStateM.Result.ok.inj (accepted.symm.trans done)).2
    exact becomes

/-- Combining a set with itself leaves it as it is, down to its storage. -/
theorem combine_self (idempotent : ∀ value, operation value value = value)
    (wellFormed : before.WellFormed) : combine before before = .ok () before := by
  obtain ⟨after, done, becomes⟩ :=
    bitwise.accepts before before wellFormed wellFormed wellFormed.length_le
  have same : Becomes before before before.length before.bit := ⟨wellFormed, rfl, rfl, fun _ => rfl⟩
  obtain rfl : after = before :=
    becomes.eq same rfl (Nat.max_self _) fun index => idempotent (before.bit index)
  exact done

section

variable (firstWellFormed : first.WellFormed) (secondWellFormed : second.WellFormed)
  (thirdWellFormed : third.WellFormed)
include firstWellFormed secondWellFormed

theorem commutes (comm : ∀ left right, operation left right = operation right left) :
    Commutes combine first second := by
  intro left right done done'
  have one := bitwise.becomes firstWellFormed secondWellFormed done
  have other := bitwise.becomes secondWellFormed firstWellFormed done'
  apply one.sameBits other
  · exact Nat.max_comm _ _
  · exact fun index => comm _ _

include thirdWellFormed

theorem associates
    (assoc : ∀ left middle right,
      operation (operation left middle) right = operation left (operation middle right)) :
    Associates combine first second third := by
  intro pair left rest right paired leftDone rested rightDone
  have toPair := bitwise.becomes firstWellFormed secondWellFormed paired
  have toLeft := bitwise.becomes toPair.wellFormed thirdWellFormed leftDone
  have toRest := bitwise.becomes secondWellFormed thirdWellFormed rested
  have toRight := bitwise.becomes firstWellFormed toRest.wellFormed rightDone
  apply toLeft.sameBits toRight
  · rw [toPair.length_eq, toRest.length_eq, Nat.max_assoc]
  · intro index
    rw [toPair.bit_eq, toRest.bit_eq]
    exact assoc _ _ _

theorem distributes {inner : BitSet → Update Unit} {innerOperation : Bool → Bool → Bool}
    (innerBitwise : Bitwise inner innerOperation)
    (distrib : ∀ left middle right, operation left (innerOperation middle right) =
      innerOperation (operation left middle) (operation left right)) :
    Distributes combine inner first second third := by
  intro rest left one other right rested leftDone oneDone otherDone rightDone
  have toRest := innerBitwise.becomes secondWellFormed thirdWellFormed rested
  have toLeft := bitwise.becomes firstWellFormed toRest.wellFormed leftDone
  have toOne := bitwise.becomes firstWellFormed secondWellFormed oneDone
  have toOther := bitwise.becomes firstWellFormed thirdWellFormed otherDone
  have toRight := innerBitwise.becomes toOne.wellFormed toOther.wellFormed rightDone
  apply toLeft.sameBits toRight
  · rw [toRest.length_eq, toOne.length_eq, toOther.length_eq]
    omega
  · intro index
    rw [toRest.bit_eq, toOne.bit_eq, toOther.bit_eq]
    exact distrib _ _ _

end

/-- Combinations with the ends of histories are overlays: the limit alone tells which is refused. -/
theorem overlays
    (right_comm : ∀ value first second,
      operation (operation value first) second = operation (operation value second) first) :
    Update.Overlays (fun operand : History => combine operand.bits)
      (fun limit operand => limit.cause? operand.bits.length) (fun operand => operand.bits.length)
      operation (fun operand => operand.bits.bit) where
  refuses := by
    intro operand before error wellFormed cause
    have operandWellFormed : operand.bits.WellFormed := operand.wellFormed
    have fails : (combine operand.bits).FailsFor before _ :=
      Update.failsFor_cause?
        (fun within => (bitwise.accepts before _ wellFormed operandWellFormed within).imp
          fun _ => And.left)
        (bitwise.refuses before _ wellFormed)
    exact (fails error before).mpr ⟨cause, rfl⟩
  accepts := by
    intro operand before wellFormed cause
    exact bitwise.accepts before _ wellFormed operand.wellFormed
      (Limit.cause?_eq_none_iff.mp cause)
  right_comm := right_comm

theorem accumulates (wellFormed : before.WellFormed)
    (right_comm : ∀ value first second,
      operation (operation value first) second = operation (operation value second) first) :
    Accumulates combine before := by
  intro operands order perm update cause
  have overlays := bitwise.overlays right_comm
  exact ⟨overlays.leaveAll_perm wellFormed perm, overlays.refusals_eq_map wellFormed order,
    overlays.refusals_eq_map wellFormed operands⟩

end Bitwise

/-! ## Complements -/

/-- Flipping the whole of a conjunction is the disjunction of the two sets flipped, each up to the
same end. -/
theorem flip_intersect_sameBits {first second : BitSet} {stop : Nat}
    (firstWellFormed : first.WellFormed) (secondWellFormed : second.WellFormed)
    (firstInside : first.length ≤ stop) (secondInside : second.length ≤ stop)
    (firstWithin : stop ≤ first.limit.maxLength) (secondWithin : stop ≤ second.limit.maxLength) :
    ∃ met left one other right,
      (intersect second).run first = .ok () met ∧ (flip 0 stop).run met = .ok () left ∧
        (flip 0 stop).run first = .ok () one ∧ (flip 0 stop).run second = .ok () other ∧
          (unite other).run one = .ok () right ∧ left.sameBits right = true := by
  have ordered : 0 ≤ stop := Nat.zero_le stop
  obtain ⟨met, meets, toMet⟩ :=
    intersect_of_le firstWellFormed secondWellFormed (Nat.le_trans secondInside firstWithin)
  obtain ⟨left, leftDone, toLeft⟩ :=
    flip_of_le toMet.wellFormed ordered (toMet.limit_eq ▸ firstWithin)
  obtain ⟨one, oneDone, toOne⟩ := flip_of_le firstWellFormed ordered firstWithin
  obtain ⟨other, otherDone, toOther⟩ := flip_of_le secondWellFormed ordered secondWithin
  have admits : other.length ≤ one.limit.maxLength := by
    rw [toOther.length_eq, toOne.limit_eq]
    omega
  obtain ⟨right, rightDone, toRight⟩ := unite_of_le toOne.wellFormed toOther.wellFormed admits
  refine ⟨met, left, one, other, right, meets, leftDone, oneDone, otherDone, rightDone, ?_⟩
  apply toLeft.sameBits toRight
  · rw [toMet.length_eq, toOne.length_eq, toOther.length_eq]
    omega
  · intro index
    rw [toMet.bit_eq, toOne.bit_eq, toOther.bit_eq]
    rcases Nat.lt_or_ge index stop with inside | outside
    · simp [inside, Bool.not_and]
    · -- Behind the end nothing is flipped, and neither set has a bit there.
      rw [firstWellFormed.bit_eq_false index (Nat.le_trans firstInside outside),
        secondWellFormed.bit_eq_false index (Nat.le_trans secondInside outside)]
      simp

/-! ## The ends of histories -/

/-- Whatever histories three sets have, conjunctions and disjunctions of them commute and associate,
conjunctions distribute over disjunctions, and operands accumulate in any order. A conjunction
flipped up to an end behind both sets and within both limits is the disjunction of the two sets
flipped. -/
theorem combinations_obey_laws (first second third : History) :
    let a := first.bits
    let b := second.bits
    let c := third.bits
    Commutes intersect a b ∧ Commutes unite a b ∧
      Associates intersect a b c ∧ Associates unite a b c ∧ Distributes intersect unite a b c ∧
      Accumulates intersect a ∧ Accumulates unite a ∧
      ∀ stop, a.length ≤ stop → b.length ≤ stop → stop ≤ a.limit.maxLength →
        stop ≤ b.limit.maxLength →
          ∃ met left one other right,
            (intersect b).run a = .ok () met ∧ (flip 0 stop).run met = .ok () left ∧
              (flip 0 stop).run a = .ok () one ∧ (flip 0 stop).run b = .ok () other ∧
                (unite other).run one = .ok () right ∧ left.sameBits right = true := by
  intro a b c
  have firstWellFormed : a.WellFormed := first.wellFormed_and_flags?_eq.1
  have secondWellFormed : b.WellFormed := second.wellFormed_and_flags?_eq.1
  have thirdWellFormed : c.WellFormed := third.wellFormed_and_flags?_eq.1
  have meets := bitwise_intersect
  have joins := bitwise_unite
  refine ⟨?_, ?_, ?_, ?_, ?_, ?_, ?_, ?_⟩
  · exact meets.commutes firstWellFormed secondWellFormed Bool.and_comm
  · exact joins.commutes firstWellFormed secondWellFormed Bool.or_comm
  · exact meets.associates firstWellFormed secondWellFormed thirdWellFormed Bool.and_assoc
  · exact joins.associates firstWellFormed secondWellFormed thirdWellFormed Bool.or_assoc
  · exact meets.distributes firstWellFormed secondWellFormed thirdWellFormed joins
      Bool.and_or_distrib_left
  · exact meets.accumulates firstWellFormed Bool.and_right_comm
  · exact joins.accumulates firstWellFormed Bool.or_right_comm
  · exact fun stop => flip_intersect_sameBits firstWellFormed secondWellFormed

/-- Sets of seventy, a hundred and thirty, and sixty-four bits with limits of their own, of which all
but the last admit a hundred and fifty bits; an operand too long for the first is refused at any
turn. -/
theorem combinations_obey_laws_of_three_lengths :
    let first : History := .flip (.zeros 70 ⟨300⟩ (by decide)) 3 66
    let second : History := .flip (.zeros 5 ⟨200⟩ (by decide)) 60 130
    let third : History := .flip (.zeros 64 ⟨90⟩ (by decide)) 1 62
    let long : History := .zeros 301 ⟨400⟩ (by decide)
    let a := first.bits
    let b := second.bits
    let c := third.bits
    let update := fun operand : History => intersect operand.bits
    (∃ left right, (intersect b).run a = .ok () left ∧ (intersect a).run b = .ok () right ∧
        left.sameBits right = true) ∧
      (∃ pair left rest right, (unite b).run a = .ok () pair ∧ (unite c).run pair = .ok () left ∧
        (unite c).run b = .ok () rest ∧ (unite rest).run a = .ok () right ∧
          left.sameBits right = true) ∧
      (∃ rest left one other right, (unite c).run b = .ok () rest ∧
        (intersect rest).run a = .ok () left ∧ (intersect b).run a = .ok () one ∧
          (intersect c).run a = .ok () other ∧ (unite other).run one = .ok () right ∧
            left.sameBits right = true) ∧
      [third, long, second].Perm [long, second, third] ∧
      Update.leaveAll update [third, long, second] a =
        Update.leaveAll update [long, second, third] a ∧
      Update.refusals update [third, long, second] a =
        [none, some (.limitExceeded 301 300), none] ∧
      Update.refusals update [long, second, third] a =
        [some (.limitExceeded 301 300), none, none] ∧
      a.length ≤ 150 ∧ b.length ≤ 150 ∧ 150 ≤ a.limit.maxLength ∧ 150 ≤ b.limit.maxLength ∧
      ∃ met left one other right,
        (intersect b).run a = .ok () met ∧ (flip 0 150).run met = .ok () left ∧
          (flip 0 150).run a = .ok () one ∧ (flip 0 150).run b = .ok () other ∧
            (unite other).run one = .ok () right ∧ left.sameBits right = true := by
  intro first second third long a b c update
  obtain ⟨comm, -, -, assoc, distrib, accumulate, -, complement⟩ :=
    combinations_obey_laws first second third
  have perm : [third, long, second].Perm [long, second, third] :=
    (List.Perm.swap long third [second]).trans ((List.Perm.swap second third []).cons long)
  obtain ⟨same, backward, forward⟩ := accumulate _ _ perm
  have lengths : a.length ≤ 150 ∧ b.length ≤ 150 ∧ 150 ≤ a.limit.maxLength ∧
      150 ≤ b.limit.maxLength := by decide
  obtain ⟨one, two, three, four⟩ := lengths
  refine ⟨⟨_, _, rfl, rfl, comm _ _ rfl rfl⟩,
    ⟨_, _, _, _, rfl, rfl, rfl, rfl, assoc _ _ _ _ rfl rfl rfl rfl⟩,
    ⟨_, _, _, _, _, rfl, rfl, rfl, rfl, rfl, distrib _ _ _ _ _ rfl rfl rfl rfl rfl⟩,
    perm, same, ?_, ?_, one, two, three, four, complement 150 one two three four⟩
  · rw [backward]
    decide
  · rw [forward]
    decide

end BitSet

end PackedStore
