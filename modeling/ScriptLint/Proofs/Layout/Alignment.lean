import ScriptLint.Syntax.Error
import ScriptLint.Text.Span
/-!
# Aligned texts

Two texts with the same tokens differ in the offsets of these tokens alone.
An alignment says which offset of the one text corresponds to which of the
other. Starts of spans are compared with each other, so corresponding starts
have to be ordered alike; ends of spans are never compared, and may
correspond more loosely. Where the second text goes on behind something that
has been read before, the errors noted there correspond to none of the first.

Key definitions: `Alignment`, `Alignment.Spans`.
-/

namespace ScriptLint

/-- Which offsets of two texts correspond, as starts and as ends of spans, and which errors were
noted in the second text before. -/
structure Alignment where
  starts : Nat → Nat → Prop
  stops : Nat → Nat → Prop
  earlier : List SyntaxError := []
  le_iff : ∀ {a b c d : Nat}, starts a b → starts c d → (a ≤ c ↔ b ≤ d)
  stops_of_starts : ∀ {a b : Nat}, starts a b → stops a b
  stops_max : ∀ {a b c d : Nat}, stops a b → stops c d → stops (max a c) (max b d)

namespace Alignment

variable {A : Alignment} {a b c d : Nat}

/-- Two spans with corresponding bounds. -/
structure Spans (A : Alignment) (s t : Span) : Prop where
  start : A.starts s.start t.start
  stop : A.stops s.stop t.stop

/-- Corresponding starts are told apart alike. -/
theorem eq_iff (h : A.starts a b) (h' : A.starts c d) : a = c ↔ b = d := by
  have hle := A.le_iff h h'
  have hge := A.le_iff h' h
  omega

theorem starts_min (h : A.starts a b) (h' : A.starts c d) : A.starts (min a c) (min b d) := by
  have hle := A.le_iff h h'
  by_cases hac : a ≤ c
  · rw [Nat.min_eq_left hac, Nat.min_eq_left (hle.mp hac)]
    exact h
  · have hca : c ≤ a := by omega
    have hdb : d ≤ b := by omega
    rw [Nat.min_eq_right hca, Nat.min_eq_right hdb]
    exact h'

theorem spans_upTo (h : A.starts a b) (h' : A.stops c d) :
    A.Spans (Span.upTo a c) (Span.upTo b d) := by
  refine ⟨h, ?_⟩
  rw [Span.stop_upTo, Span.stop_upTo]
  exact A.stops_max (A.stops_of_starts h) h'

theorem spans_emptyAt (h : A.starts a b) : A.Spans (Span.emptyAt a) (Span.emptyAt b) :=
  ⟨h, A.stops_of_starts h⟩

theorem Spans.cover {s s' t t' : Span} (h : A.Spans s t) (h' : A.Spans s' t') :
    A.Spans (s.cover s') (t.cover t') :=
  spans_upTo (starts_min h.start h'.start) (A.stops_max h.stop h'.stop)

end Alignment

end ScriptLint
