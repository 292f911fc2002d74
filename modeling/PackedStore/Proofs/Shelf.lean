import Mathlib.Algebra.GroupWithZero.Nat
import Mathlib.Data.List.Forall2
import PackedStore.Proofs.Layout

/-!
# A shelf of buffers

Buffers are made, copied, appended to and read in any order. Whatever the order, a buffer is known
by the bursts that were passed to it or, before it was copied, to the buffer it is a copy of;
reading it changes nothing, and how its elements were split into bursts shows nowhere but in the
bursts.
-/

namespace PackedStore

namespace BurstBuffer

variable {α : Type}

/-! ## The buffer of a list of bursts -/

/-- The buffer that was passed some bursts, empty ones perhaps among them. -/
def ofBursts (passed : List (List α)) : BurstBuffer α :=
  ⟨(passed.filter (!·.isEmpty)).toArray, (passed.map List.length).sum⟩

theorem append_ofBursts (passed : List (List α)) (burst : List α) :
    (ofBursts passed).append burst = ofBursts (passed ++ [burst]) := by
  rw [append]
  split
  · next nothing => simp [ofBursts, List.isEmpty_iff.mp nothing]
  · next something => simp [ofBursts, something]

theorem toList_ofBursts (passed : List (List α)) : (ofBursts passed).toList = passed.flatten :=
  List.flatten_filter_not_isEmpty

theorem wellFormed_ofBursts (passed : List (List α)) : (ofBursts passed).WellFormed := by
  rw [WellFormed, toList_ofBursts, List.length_flatten]
  rfl

/-- A buffer shows the bursts that were passed to it, however it is asked. -/
structure Shows (buffer : BurstBuffer α) (passed : List (List α)) : Prop where
  /-- Its bursts are those that were not empty, in order. -/
  bursts_eq : buffer.bursts.toList = passed.filter (!·.isEmpty)
  /-- There are as many of them. -/
  count_eq : buffer.bursts.size = passed.countP (!·.isEmpty)
  /-- It counts the elements of all bursts. -/
  size_eq : buffer.size = (passed.map List.length).sum
  /-- It is empty exactly if every burst was. -/
  isEmpty_iff : buffer.isEmpty = true ↔ ∀ burst ∈ passed, burst = []
  /-- Its elements are those of all bursts, in order. -/
  toList_eq : buffer.toList = passed.flatten
  /-- Copying them into a destination of the buffer's size ends behind the last of them. -/
  copied : ∀ destination : Array α, destination.size = buffer.size →
    (buffer.bursts.foldlM copyBurst 0 : EStateM Error (Array α) Nat) destination =
      .ok buffer.size passed.flatten.toArray
  /-- A destination of the buffer's size is filled with them, any other stays as it is. -/
  layOut_eq : ∀ destination : Array α, buffer.layOut destination =
    if destination.size = buffer.size then .ok () passed.flatten.toArray
    else .error (.capacityMismatch buffer.size destination.size) destination

theorem layOut_ofBursts (passed : List (List α)) (destination : Array α) :
    (ofBursts passed).layOut destination =
      if destination.size = (passed.map List.length).sum then .ok () passed.flatten.toArray
      else .error (.capacityMismatch (passed.map List.length).sum destination.size)
        destination := by
  split
  · next same =>
      rw [(wellFormed_ofBursts passed).layOut_of_size_eq same, toList_ofBursts]
  · next other => exact layOut_of_size_ne other

theorem shows_ofBursts (passed : List (List α)) : (ofBursts passed).Shows passed where
  bursts_eq := rfl
  count_eq := List.countP_eq_length_filter.symm
  size_eq := rfl
  isEmpty_iff := by
    simp [isEmpty, ofBursts, List.sum_eq_zero_iff_forall_eq_nat]
  toList_eq := toList_ofBursts passed
  copied := by
    intro destination same
    rw [(wellFormed_ofBursts passed).foldlM_copyBurst_of_size_eq same, toList_ofBursts]
  layOut_eq := layOut_ofBursts passed

end BurstBuffer

/-! ## Uses of a shelf -/

/-- Something done with a shelf of buffers, each named by its place. -/
inductive Use (α : Type) where
  /-- Puts an empty buffer behind the last one. -/
  | make
  /-- Puts a copy of a buffer behind the last one. -/
  | clone (place : Nat)
  /-- Appends a burst to a buffer. -/
  | append (place : Nat) (burst : List α)
  /-- Lays a buffer out in a destination. -/
  | layOut (place : Nat) (destination : Array α)
  /-- Asks for all elements of a buffer. -/
  | elements (place : Nat)
  /-- Asks for the bursts of a buffer. -/
  | bursts (place : Nat)

namespace Use

variable {α σ : Type}

/-- What a read of a buffer gives. -/
inductive Answer (α : Type) where
  /-- The destination after a layout. -/
  | laidOut (result : EStateM.Result BurstBuffer.Error (Array α) Unit)
  /-- All elements. -/
  | elements (elements : List α)
  /-- All bursts. -/
  | bursts (bursts : List (List α))

/-- Does something with a shelf; only a read of a buffer that is there has an answer. -/
def perform (use : Use α) (shelf : List (BurstBuffer α)) :
    Option (Answer α) × List (BurstBuffer α) :=
  match use with
  | make => (none, shelf ++ [.empty])
  | clone place => (none, shelf ++ shelf[place]?.toList)
  | append place burst => (none, shelf.modify place (·.append burst))
  | layOut place destination =>
      (shelf[place]?.map fun buffer => .laidOut (buffer.layOut.run destination), shelf)
  | elements place => (shelf[place]?.map fun buffer => .elements buffer.toList, shelf)
  | bursts place => (shelf[place]?.map fun buffer => .bursts buffer.bursts.toList, shelf)

/-- What to expect of the same if only the bursts passed to each buffer are known. -/
def expect (use : Use α) (log : List (List (List α))) :
    Option (Answer α) × List (List (List α)) :=
  match use with
  | make => (none, log ++ [[]])
  | clone place => (none, log ++ log[place]?.toList)
  | append place burst => (none, log.modify place (· ++ [burst]))
  | layOut place destination =>
      (log[place]?.map fun passed => .laidOut <|
        if destination.size = passed.flatten.length then .ok () passed.flatten.toArray
        else .error (.capacityMismatch passed.flatten.length destination.size) destination, log)
  | elements place => (log[place]?.map fun passed => .elements passed.flatten, log)
  | bursts place => (log[place]?.map fun passed => .bursts (passed.filter (!·.isEmpty)), log)

/-- The answers to a list of uses, and the state behind the last. -/
def run (step : Use α → σ → Option (Answer α) × σ) (state : σ) :
    List (Use α) → List (Option (Answer α)) × σ
  | [] => ([], state)
  | use :: uses =>
      let (answer, next) := step use state
      let (answers, last) := run step next uses
      (answer :: answers, last)

/-- The bursts that a use appends to the buffer at `place`. -/
def appends (place : Nat) : Use α → List (List α)
  | append other burst => if other = place then [burst] else []
  | make | clone _ | layOut .. | elements _ | bursts _ => []

/-- The bursts that a list of uses appends to the buffer at `place`. -/
def appended (place : Nat) (uses : List (Use α)) : List (List α) :=
  uses.flatMap (·.appends place)

theorem run_append (step : Use α → σ → Option (Answer α) × σ) (state : σ)
    (earlier later : List (Use α)) :
    (run step state (earlier ++ later)).2 = (run step (run step state earlier).2 later).2 := by
  induction earlier generalizing state with
  | nil => rfl
  | cons use earlier induction => exact induction (step use state).2

/-! ## What to expect -/

theorem modify_map_ofBursts (place : Nat) (burst : List α) (log : List (List (List α))) :
    (log.map BurstBuffer.ofBursts).modify place (·.append burst) =
      (log.modify place (· ++ [burst])).map .ofBursts := by
  apply List.ext_getElem?
  intro other
  rw [List.getElem?_modify, List.getElem?_map, List.getElem?_map, List.getElem?_modify]
  by_cases here : place = other
  · simp [here, Function.comp_def, BurstBuffer.append_ofBursts]
  · simp [here]

/-- Every use of a shelf does what is expected of it. -/
theorem perform_map_ofBursts (use : Use α) (log : List (List (List α))) :
    use.perform (log.map .ofBursts) =
      ((use.expect log).1, (use.expect log).2.map .ofBursts) := by
  cases use with
  | make => simp [perform, expect, BurstBuffer.ofBursts, BurstBuffer.empty]
  | clone place => cases found : log[place]? <;> simp [perform, expect, found]
  | append place burst =>
      exact congrArg (none, ·) (modify_map_ofBursts place burst log)
  | layOut place destination =>
      cases found : log[place]? with
      | none => simp [perform, expect, found]
      | some passed =>
          simp [perform, expect, found, EStateM.run, BurstBuffer.layOut_ofBursts]
  | elements place =>
      simp [perform, expect, BurstBuffer.toList_ofBursts, Function.comp_def]
  | bursts place =>
      simp [perform, expect, BurstBuffer.ofBursts, Function.comp_def]

theorem run_map_ofBursts (log : List (List (List α))) (uses : List (Use α)) :
    run perform (log.map .ofBursts) uses =
      ((run expect log uses).1, (run expect log uses).2.map .ofBursts) := by
  induction uses generalizing log with
  | nil => rfl
  | cons use uses induction =>
      simp only [run, perform_map_ofBursts, induction]

/-! ## What was passed -/

/-- A use leaves every buffer its bursts and appends to one buffer at most. -/
theorem getElem?_expect {log : List (List (List α))} {place : Nat} {passed : List (List α)}
    (logged : log[place]? = some passed) (use : Use α) :
    (use.expect log).2[place]? = some (passed ++ use.appends place) := by
  have inside : place < log.length := (List.getElem?_eq_some_iff.mp logged).1
  cases use with
  | make | clone =>
      rw [expect, List.getElem?_append_left inside, logged, appends, List.append_nil]
  | append other burst =>
      rw [expect, List.getElem?_modify, logged, appends]
      by_cases here : other = place
      · simp [here]
      · simp [here]
  | layOut | elements | bursts => rw [expect, logged, appends, List.append_nil]

/-- A buffer that was passed some bursts has been passed, after more uses, those bursts and the ones
appended since. -/
theorem getElem?_run_expect {log : List (List (List α))} {place : Nat} {passed : List (List α)}
    (logged : log[place]? = some passed) (uses : List (Use α)) :
    (run expect log uses).2[place]? = some (passed ++ appended place uses) := by
  induction uses generalizing log passed with
  | nil => simpa [run, appended] using logged
  | cons use uses induction =>
      rw [appended, List.flatMap_cons, ← List.append_assoc]
      exact induction (getElem?_expect logged use)

/-- The shelf after a list of uses, from the empty shelf on. -/
def shelf (uses : List (Use α)) : List (BurstBuffer α) :=
  (run perform [] uses).2

/-- The bursts passed to each buffer of the shelf after a list of uses. -/
def log (uses : List (Use α)) : List (List (List α)) :=
  (run expect [] uses).2

/-- Two buffers cannot be told apart but by their bursts. -/
structure Alike (left right : BurstBuffer α) : Prop where
  /-- They have the same number of elements. -/
  size_eq : left.size = right.size
  /-- They have the same elements. -/
  toList_eq : left.toList = right.toList
  /-- They are laid out in the same way. -/
  layOut_eq : ∀ destination : Array α, left.layOut destination = right.layOut destination

/-- What holds of a shelf and of all answers after a list of uses. -/
structure Faithful (uses : List (Use α)) : Prop where
  /-- Every read is answered as the bursts passed so far tell. -/
  answers_eq : (run perform [] uses).1 = (run expect [] uses).1
  /-- Every buffer shows the bursts that were passed to it. -/
  shows : List.Forall₂ BurstBuffer.Shows (shelf uses) (log uses)
  /-- Later uses change nothing of a buffer but by the bursts they append to it. -/
  later : ∀ later place passed, (log uses)[place]? = some passed →
    (log (uses ++ later))[place]? = some (passed ++ appended place later)
  /-- A buffer of this run and one of another are alike if the bursts passed to the one and to the
  other hold the same elements in all. -/
  alike : ∀ (others : List (Use α)) (place other : Nat) (buffer otherBuffer : BurstBuffer α)
      (passed otherPassed : List (List α)),
    (shelf uses)[place]? = some buffer → (shelf others)[other]? = some otherBuffer →
    (log uses)[place]? = some passed → (log others)[other]? = some otherPassed →
    passed.flatten = otherPassed.flatten → Alike buffer otherBuffer

theorem shelf_eq_map (uses : List (Use α)) : shelf uses = (log uses).map .ofBursts :=
  congrArg Prod.snd (run_map_ofBursts [] uses)

theorem eq_ofBursts {uses : List (Use α)} {place : Nat} {buffer : BurstBuffer α}
    {passed : List (List α)} (kept : (shelf uses)[place]? = some buffer)
    (logged : (log uses)[place]? = some passed) : buffer = .ofBursts passed := by
  rw [shelf_eq_map, List.getElem?_map, logged] at kept
  exact (Option.some.inj kept).symm

theorem alike_ofBursts {left right : List (List α)} (same : left.flatten = right.flatten) :
    Alike (BurstBuffer.ofBursts left) (.ofBursts right) := by
  have total : (left.map List.length).sum = (right.map List.length).sum := by
    rw [← List.length_flatten, ← List.length_flatten, same]
  constructor
  · exact total
  · rw [BurstBuffer.toList_ofBursts, BurstBuffer.toList_ofBursts, same]
  · intro destination
    rw [BurstBuffer.layOut_ofBursts, BurstBuffer.layOut_ofBursts, total, same]

/-- Whatever is done with a shelf of buffers, every answer is the expected one and every buffer
shows the bursts that were passed to it; nothing but the bursts tells how its elements were
split. -/
theorem faithful (uses : List (Use α)) : Faithful uses where
  answers_eq := congrArg Prod.fst (run_map_ofBursts [] uses)
  shows := by
    rw [shelf_eq_map, List.forall₂_map_left_iff, List.forall₂_same]
    exact fun passed _ => BurstBuffer.shows_ofBursts passed
  later := by
    intro later place passed logged
    rw [log, run_append]
    exact getElem?_run_expect logged later
  alike := by
    intro others place other buffer otherBuffer passed otherPassed kept otherKept logged
      otherLogged same
    rw [eq_ofBursts kept logged, eq_ofBursts otherKept otherLogged]
    exact alike_ofBursts same

end Use

end PackedStore
