import PackedStore.Status

/-!
# Spans

An array handed to a call: a base, which may be missing, and an explicit length. Only the length
says how many elements belong to the span.
-/

namespace PackedStore

/-- An array argument. -/
structure Span (α : Type) where
  /-- The elements from the base on, or `none` for a missing base. -/
  base : Option (List α)
  /-- The number of elements handed over. -/
  length : UInt64
deriving DecidableEq, Repr

namespace Span

variable {α : Type}

/-- The elements of a span. A base may be missing only when the length is zero. -/
def elements (span : Span α) : Except Status (List α) :=
  if span.length = 0 then
    .ok []
  else
    match span.base with
    | none => .error .invalidArgument
    | some values => .ok (values.take span.length.toNat)

end Span

end PackedStore
