import PackedStore.Session.Work

/-!
# Calls on buffers

The calls that a session offers on its buffers, the same for either element type. A missing place
for a size is noticed only after the handle has been found.
-/

namespace PackedStore

/-- A call on a table of burst buffers. -/
inductive BufferCall (α : Type) where
  /-- Makes an empty buffer, if its handle has a place to go to. -/
  | create (placed : Bool)
  /-- Gives a buffer up. -/
  | destroy (handle : Handle)
  /-- Appends the elements as one burst. -/
  | append (handle : Handle) (elements : Span α)
  /-- Asks for the number of elements. -/
  | size (handle : Handle) (placed : Bool)
  /-- Copies all elements, in order, into a destination of exactly the buffer's size. -/
  | layOut (handle : Handle) (destination : Span α)
deriving DecidableEq, Repr

namespace BufferCall

open Operation

variable {α : Type}

/-- Ends with the destination as the layout left it: full or, if its size is wrong, as it was. -/
def answer (result : EStateM.Result BurstBuffer.Error (Array α) Unit)
    (output : List α → Output) : Step (Table (BurstBuffer α)) Ending :=
  match result with
  | .ok _ filled => finish (.give (output filled.toList))
  | .error (.fault cause) _ => crash cause
  | .error error destination => finish ⟨error.status, some (output destination.toList)⟩

/-- Appends a burst in place. -/
def appendBurst (burst : List α) : Step (BurstBuffer α) Ending := do
  let buffer ← Step.read
  Step.replace (buffer.append burst)
  finish .done

/-- What a call does to a table of buffers; `output` makes an output of a list of elements. -/
def operation (output : List α → Output) : BufferCall α → Operation (BurstBuffer α)
  | create placed =>
      if placed then .work (register .empty) true else .refused .invalidArgument
  | destroy handle => .work (release handle) true
  | append handle elements =>
      match elements.elements with
      | .error status => .refused status
      | .ok burst =>
          .work (amend handle (appendBurst burst)) true
  | size handle placed =>
      .work (withValue handle fun buffer =>
        if placed then
          finish (.give (.count (UInt64.ofNat buffer.size)))
        else
          fail .invalidArgument) true
  | layOut handle destination =>
      match destination.elements with
      | .error status => .refused status
      | .ok room =>
          .work (withValue handle fun buffer =>
            answer (buffer.layOut.run room.toArray) output) true

end BufferCall

end PackedStore
