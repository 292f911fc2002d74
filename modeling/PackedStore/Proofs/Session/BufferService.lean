import PackedStore.Proofs.Layout
import PackedStore.Proofs.Session.Service
import PackedStore.Session.BufferCall

/-!
# Calls on buffers serve their callers

A caller sees the elements of each buffer, in the order in which they were appended. Every call on a
table of buffers ends without a fault and changes what is seen as a list would change.
-/

namespace PackedStore

variable {α : Type}

/-- What is seen of the buffers of a session. -/
def BurstBuffer.reading : Reading (BurstBuffer α) (List α) where
  Fits := WellFormed
  view := toList

namespace BufferCall

open Operation

/-- What a call does to what is seen of the buffers. -/
def effect : BufferCall α → Effect (List α)
  | create _ => .bind fun _ => some []
  | destroy handle => .unbind handle
  | append handle elements =>
      .rewrite handle fun _ seen => some (seen ++ elements.elements.toOption.getD [])
  | size .. | layOut .. => .idle

theorem amends_appendBurst (burst : List α) :
    Amends (appendBurst burst) BurstBuffer.reading fun seen => some (seen ++ burst) := by
  intro before fits
  left
  refine ⟨before.append burst, [], rfl, fits.append burst, ?_⟩
  exact congrArg some (BurstBuffer.toList_append before burst).symm

/-- The reply to a layout of `elements` in a destination that holds `room`. -/
def replyLayOut (output : List α → Output) (elements room : List α) : Reply :=
  if room.length = elements.length then
    .give (output elements)
  else
    ⟨.capacityMismatch, some (output room)⟩

theorem layOut_eq_finish {buffer : BurstBuffer α} (wellFormed : buffer.WellFormed)
    (output : List α → Output) (room : List α) :
    answer (buffer.layOut.run room.toArray) output =
      finish (replyLayOut output buffer.toList room) := by
  unfold replyLayOut
  split
  · next same =>
      rw [EStateM.run, wellFormed.layOut_of_size_eq (same.trans wellFormed.symm)]
      rfl
  · next other =>
      rw [EStateM.run, BurstBuffer.layOut_of_size_ne fun same => other (same.trans wellFormed)]
      rfl

variable (output : List α → Output)
  (plain : ∀ status elements, (Reply.mk status (some (output elements))).handle? = none)

include plain in
theorem handle?_replyLayOut (elements room : List α) :
    (replyLayOut output elements room).handle? = none := by
  unfold replyLayOut
  split
  · exact plain .ok elements
  · exact plain .capacityMismatch room

include plain in
/-- Every call on the buffers serves its caller. -/
theorem serves (call : BufferCall α) :
    (call.operation output).Serves BurstBuffer.reading call.effect := by
  cases call with
  | create placed =>
      cases placed with
      | false => exact serves_invalidArgument
      | true =>
          have works : Works (register .empty) BurstBuffer.reading _ :=
            works_register (BurstBuffer.wellFormed_empty : (.empty : BurstBuffer α).WellFormed)
          exact serves_work works
  | destroy handle => exact serves_work (works_release handle)
  | append handle elements =>
      cases listed : elements.elements with
      | error status =>
          obtain rfl := Span.status_of_elements_eq_error listed
          simp only [operation, listed]
          exact serves_invalidArgument
      | ok burst =>
          simp only [operation, effect, listed]
          exact serves_work (works_amend (amends_appendBurst burst))
  | size handle placed =>
      apply serves_work
      apply works_withValue
      intro buffer _
      cases placed with
      | true => exact ⟨.give (.count _), rfl, rfl⟩
      | false => exact ⟨.failed _, rfl, rfl⟩
  | layOut handle destination =>
      cases listed : destination.elements with
      | error status =>
          obtain rfl := Span.status_of_elements_eq_error listed
          simp only [operation, listed]
          exact serves_invalidArgument
      | ok room =>
          simp only [operation, listed]
          apply serves_work
          apply works_withValue
          intro buffer fits
          exact ⟨_, layOut_eq_finish fits output room, handle?_replyLayOut output plain _ room⟩

end BufferCall

end PackedStore
