import PackedStore.Session.Basic

/-!
# Reading the latest panic

The text of the latest panic is handed out as bytes closed by a zero, cut to the room there is.
-/

namespace PackedStore

namespace PanicText

/-- The greatest length that can be reported. -/
def maxReported : Nat := 0x7fffffff

/-- The bytes of a text. -/
def bytes (text : String) : List UInt8 :=
  text.toUTF8.toList

/-- The number of bytes of a text, as reported to a caller. -/
def reported (text : String) : Nat :=
  min (bytes text).length maxReported

/-- The buffer after a text was copied into its first `capacity` places: as many bytes as leave
room for a zero, then that zero, then what stood there before. -/
def copyInto (text : String) (capacity : Nat) (buffer : List UInt8) : List UInt8 :=
  if capacity = 0 then
    buffer
  else
    let copied := (bytes text).take (capacity - 1)
    copied ++ 0 :: buffer.drop (copied.length + 1)

end PanicText

namespace Session

/-- Reports the length of the latest panic's text and copies it into a buffer, if there is one. -/
def readPanic (session : Session) (capacity : Nat) (buffer : Option (List UInt8)) :
    Nat × Option (List UInt8) :=
  (PanicText.reported session.panicText, buffer.map (PanicText.copyInto session.panicText capacity))

end Session

end PackedStore
