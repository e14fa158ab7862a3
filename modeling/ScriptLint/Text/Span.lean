/-!
# Spans of a text

A span is a stretch of a text, given by the byte at which it starts and by
its length in bytes, so every value of the type is a proper stretch and no
span can end before it starts. Bounds that come from outside are checked
once, by `Span.between?`.

Key definitions: `Span`, `Span.stop`, `Span.cover`, `Span.contains`.
-/

namespace ScriptLint

/-- A stretch of a text: `length` bytes from the byte `start` on. -/
structure Span where
  start : Nat
  length : Nat
  deriving DecidableEq, Repr

namespace Span

/-- The byte after the last byte of the span. -/
def stop (s : Span) : Nat :=
  s.start + s.length

/-- The empty span at `offset`. -/
def emptyAt (offset : Nat) : Span :=
  ⟨offset, 0⟩

/-- The span from `start` up to `stop`; it is empty at `start` when `stop` lies before. -/
def upTo (start stop : Nat) : Span :=
  ⟨start, stop - start⟩

/-- The span with the given bounds, unless they are reversed. -/
def between? (start stop : Nat) : Option Span :=
  if start ≤ stop then some (upTo start stop) else none

/-- A span without bytes. -/
def isEmpty (s : Span) : Bool :=
  s.length == 0

/-- The least span that holds both spans. -/
def cover (s t : Span) : Span :=
  upTo (min s.start t.start) (max s.stop t.stop)

/-- Every byte of `t`, and both of its ends, lie within `s`. -/
def contains (s t : Span) : Bool :=
  decide (s.start ≤ t.start ∧ t.stop ≤ s.stop)

/-- The span `count` bytes further on. -/
def shift (count : Nat) (s : Span) : Span :=
  ⟨s.start + count, s.length⟩

/-- Two bounds with two dots between them. -/
def render (s : Span) : String :=
  toString s.start ++ ".." ++ toString s.stop

@[simp] theorem start_upTo (a b : Nat) : (upTo a b).start = a := rfl

theorem stop_upTo (a b : Nat) : (upTo a b).stop = max a b := by
  simp only [stop, upTo]
  omega

theorem start_le_stop (s : Span) : s.start ≤ s.stop :=
  Nat.le_add_right _ _

end Span

end ScriptLint
