import ScriptLint.Text.Bytes
/-!
# Lines of a text

Lines are counted from 0 and are known by the offsets at which they start:
the first starts at 0 and each other one byte past a newline.

Key definitions: `LineIndex.ofText`, `LineIndex.lineOf`, `LineIndex.lineStart?`.
-/

namespace ScriptLint

/-- The offsets at which the lines after the first one start, when the
characters themselves start at `offset`. -/
def newlineEnds : Nat → List Char → List Nat
  | _, [] => []
  | offset, c :: cs =>
    if c = '\n' then (offset + 1) :: newlineEnds (offset + 1) cs
    else newlineEnds (offset + c.utf8Size) cs

/-- The line starts of a text. The first line starts at 0 and is not listed. -/
structure LineIndex where
  laterStarts : List Nat
  deriving DecidableEq, Repr

namespace LineIndex

/-- The lines of a text. -/
def ofText (text : String) : LineIndex :=
  ⟨newlineEnds 0 text.toList⟩

/-- The offsets at which all lines start. -/
def starts (index : LineIndex) : List Nat :=
  0 :: index.laterStarts

/-- There is one line more than there are newlines. -/
def count (index : LineIndex) : Nat :=
  index.starts.length

/-- The line that holds an offset: the last one that starts at or before it. -/
def lineOf (index : LineIndex) (offset : Nat) : Nat :=
  index.laterStarts.countP (· ≤ offset)

/-- The offset at which a line starts, if there is such a line. -/
def lineStart? (index : LineIndex) (line : Nat) : Option Nat :=
  index.starts[line]?

end LineIndex

end ScriptLint
