/-!
# Runs of positions

An ascending list of positions written as its maximal runs of consecutive members: `0-63,70`.
-/

namespace PackedStore

/-- The consecutive positions `first`, …, `last`. -/
structure Run where
  /-- The lowest position. -/
  first : Nat
  /-- The highest position. -/
  last : Nat
deriving DecidableEq, Repr

namespace Run

/-- A run of one is its only position, a longer run its two ends. -/
def text (run : Run) : String :=
  if run.first = run.last then toString run.first else s!"{run.first}-{run.last}"

/-- Adds the next position to the runs so far, latest first. -/
def extend (runs : List Run) (position : Nat) : List Run :=
  match runs with
  | [] => [⟨position, position⟩]
  | run :: older =>
      if run.last + 1 = position then
        { run with last := position } :: older
      else
        ⟨position, position⟩ :: run :: older

/-- The maximal runs of an ascending list of positions. -/
def ofPositions (positions : List Nat) : List Run :=
  (positions.foldl extend []).reverse

/-- The runs of an ascending list of positions, joined by commas. -/
def render (positions : List Nat) : String :=
  ",".intercalate ((ofPositions positions).map text)

end Run

end PackedStore
