import ScriptLint.Parsing.State
import ScriptLint.Text.Lines
/-!
# Operations that have no result everywhere

A difference has no result if it would be negative, a span none if its bounds
are reversed, and the start of a line none if there is no such line. Where
such an operation is used it must have a result. For the spans that a reader
makes from where it is this is so by the way they are made, whatever the
operation does otherwise. For the line of an offset it rests on the order of
the lines: a search for the offset among their starts either finds it or stops
behind a line.

Key definitions: `minus?`, `Span.betweenOr`, `LineIndex.search`, `LineIndex.lineOf?`.
Key theorems: `Parse.spanFrom_eq`, `Span.cover_eq`, `LineIndex.lineOf?_eq`,
`LineIndex.lineStart?_lineOf`.
-/

namespace ScriptLint

/-- The difference, unless it is negative. -/
def minus? (a b : Nat) : Option Nat :=
  if b ≤ a then some (a - b) else none

theorem minus?_of_le {a b : Nat} (h : b ≤ a) : minus? a b = some (a - b) :=
  if_pos h

@[simp] theorem minus?_add_one (a : Nat) : minus? (a + 1) 1 = some a :=
  minus?_of_le (Nat.le_add_left 1 a)

/-! ### Spans -/

namespace Span

/-- The span with the given bounds, or `panic` if they are reversed. -/
def betweenOr (panic : Span) (start stop : Nat) : Span :=
  (between? start stop).getD panic

theorem between?_of_le {start stop : Nat} (h : start ≤ stop) :
    between? start stop = some (upTo start stop) :=
  if_pos h

theorem betweenOr_of_le {panic : Span} {start stop : Nat} (h : start ≤ stop) :
    betweenOr panic start stop = upTo start stop := by
  rw [betweenOr, between?_of_le h, Option.getD_some]

/-- The bounds of what two spans cover are in order. -/
theorem cover_eq (panic s t : Span) :
    s.cover t = betweenOr panic (min s.start t.start) (max s.stop t.stop) := by
  have hs := s.start_le_stop
  rw [betweenOr_of_le (by omega)]
  rfl

theorem emptyAt_eq (panic : Span) (offset : Nat) :
    emptyAt offset = betweenOr panic offset offset := by
  rw [betweenOr_of_le (Nat.le_refl offset), upTo, Nat.sub_self]
  rfl

theorem minus?_stop_start (s : Span) : minus? s.stop s.start = some s.length := by
  rw [minus?_of_le s.start_le_stop, stop, Nat.add_sub_cancel_left]

end Span

/-- The span of a whole text. -/
theorem Script.span_eq (panic : Span) (script : Script) :
    script.span = Span.betweenOr panic 0 script.text.utf8ByteSize := by
  rw [Span.betweenOr_of_le (Nat.zero_le _)]
  rfl

/-- The bounds of what a reader has consumed since `start` are in order. -/
theorem Parse.spanFrom_eq (panic : Span) (start : Nat) :
    Parse.spanFrom start =
      (return Span.betweenOr panic start (max (← get).consumedTo start) : Parse Span) := by
  have h : ∀ consumedTo, Span.upTo start consumedTo =
      Span.betweenOr panic start (max consumedTo start) := by
    intro consumedTo
    rw [Span.betweenOr_of_le (Nat.le_max_right _ _), Span.upTo, Span.upTo]
    congr 1
    omega
  rw [Parse.spanFrom]
  simp only [h]

/-! ### Lines -/

/-- Behind the start of the text the lines start one behind the other, and no line starts behind the
end. -/
theorem newlineEnds_ordered (offset : Nat) (cs : List Char) :
    (newlineEnds offset cs).Pairwise (· < ·) ∧
      ∀ start ∈ newlineEnds offset cs, offset < start ∧ start ≤ offset + byteLength cs := by
  induction cs generalizing offset with
  | nil => simp [newlineEnds]
  | cons c cs ih =>
    have hpos := c.utf8Size_pos
    rw [newlineEnds]
    split
    · rename_i hc
      obtain ⟨hordered, hbounds⟩ := ih (offset + 1)
      have hsize : c.utf8Size = 1 := by rw [hc]; decide
      refine ⟨List.pairwise_cons.mpr ⟨fun start hstart => (hbounds start hstart).1, hordered⟩, ?_⟩
      intro start hstart
      rw [byteLength_cons]
      rcases List.mem_cons.mp hstart with rfl | hstart
      · omega
      · have := hbounds start hstart
        omega
    · obtain ⟨hordered, hbounds⟩ := ih (offset + c.utf8Size)
      refine ⟨hordered, fun start hstart => ?_⟩
      have := hbounds start hstart
      rw [byteLength_cons]
      omega

/-- In a list in order as many numbers are not greater than one of them as stand before it, and
one more. -/
theorem countP_le_of_getElem? {l : List Nat} {i x : Nat} (h : l.Pairwise (· < ·))
    (hx : l[i]? = some x) : l.countP (· ≤ x) = i + 1 := by
  induction l generalizing i with
  | nil => simp at hx
  | cons y l ih =>
    obtain ⟨hy, hl⟩ := List.pairwise_cons.mp h
    cases i with
    | zero =>
      obtain rfl : y = x := by simpa using hx
      have hnone : l.countP (· ≤ y) = 0 :=
        List.countP_eq_zero.mpr fun z hz => by simpa using hy z hz
      simp [hnone]
    | succ i =>
      have hx' : l[i]? = some x := by simpa using hx
      have hyx : y ≤ x := Nat.le_of_lt (hy x (List.mem_of_getElem? hx'))
      rw [List.countP_cons_of_pos (by simpa using hyx), ih hl hx']

/-- The last of the numbers that are not greater than another one. -/
theorem getElem?_of_countP_le {l : List Nat} {i x : Nat} (h : l.Pairwise (· < ·))
    (hi : l.countP (· ≤ x) = i + 1) : ∃ y, l[i]? = some y ∧ y ≤ x := by
  induction l generalizing i with
  | nil => simp at hi
  | cons y l ih =>
    obtain ⟨hy, hl⟩ := List.pairwise_cons.mp h
    by_cases hyx : y ≤ x
    · rw [List.countP_cons_of_pos (by simpa using hyx), Nat.add_right_cancel_iff] at hi
      cases i with
      | zero => exact ⟨y, rfl, hyx⟩
      | succ i => exact ih hl hi
    · have hnone : l.countP (· ≤ x) = 0 :=
        List.countP_eq_zero.mpr fun z hz => by
          have := hy z hz
          simp only [decide_eq_true_eq]
          omega
      rw [List.countP_cons_of_neg (by simpa using hyx), hnone] at hi
      cases hi

namespace LineIndex

/-- The starts of the lines are in order. -/
def Ordered (index : LineIndex) : Prop :=
  index.starts.Pairwise (· < ·)

theorem ordered_ofText (text : String) : (ofText text).Ordered := by
  obtain ⟨hordered, hbounds⟩ := newlineEnds_ordered 0 text.toList
  exact List.pairwise_cons.mpr ⟨fun start hstart => (hbounds start hstart).1, hordered⟩

/-- What a search for an offset among the starts of the lines finds: the line that starts there, or
else the number of lines that start before. -/
def search (index : LineIndex) (offset : Nat) : Except Nat Nat :=
  match index.starts.idxOf? offset with
  | some line => .ok line
  | none => .error (index.starts.countP (· < offset))

/-- The line that holds an offset, found by a search. -/
def lineOf? (index : LineIndex) (offset : Nat) : Option Nat :=
  match index.search offset with
  | .ok line => some line
  | .error next => minus? next 1

theorem countP_starts (index : LineIndex) (offset : Nat) :
    index.starts.countP (· ≤ offset) = index.lineOf offset + 1 := by
  simp [starts, lineOf]

/-- **A search for an offset ends at its line.** -/
theorem lineOf?_eq {index : LineIndex} (h : index.Ordered) (offset : Nat) :
    index.lineOf? offset = some (index.lineOf offset) := by
  have hcount := index.countP_starts offset
  unfold lineOf? search
  cases hfind : index.starts.idxOf? offset with
  | some line =>
    obtain ⟨hlt, hline, -⟩ := List.idxOf?_eq_some_iff.mp hfind
    have := countP_le_of_getElem? h (List.getElem?_eq_some_iff.mpr ⟨hlt, hline⟩)
    simp only [Option.some.injEq]
    omega
  | none =>
    have hnot : offset ∉ index.starts := List.idxOf?_eq_none_iff.mp hfind
    have hsame : index.starts.countP (· < offset) = index.starts.countP (· ≤ offset) := by
      refine List.countP_congr fun start hstart => ?_
      have hne : start ≠ offset := fun heq => hnot (heq ▸ hstart)
      simp only [decide_eq_true_eq]
      omega
    simp only [hsame, hcount, minus?_add_one]

/-- **The line of an offset has a start,** and it is not behind the offset. -/
theorem lineStart?_lineOf {index : LineIndex} (h : index.Ordered) (offset : Nat) :
    ∃ start, index.lineStart? (index.lineOf offset) = some start ∧ start ≤ offset :=
  getElem?_of_countP_le h (index.countP_starts offset)

/-- A line ends behind its start. -/
theorem lineStart?_lt {index : LineIndex} (h : index.Ordered) {line start next : Nat}
    (hstart : index.lineStart? line = some start) (hnext : index.lineStart? (line + 1) = some next) :
    start < next := by
  obtain ⟨hline, rfl⟩ := List.getElem?_eq_some_iff.mp hstart
  obtain ⟨hlater, rfl⟩ := List.getElem?_eq_some_iff.mp hnext
  exact List.pairwise_iff_getElem.mp h line (line + 1) hline hlater (Nat.lt_succ_self line)

theorem lineStart?_ofText_le {text : String} {line start : Nat}
    (h : (ofText text).lineStart? line = some start) : start ≤ byteLength text.toList := by
  have hmem : start ∈ (ofText text).starts := List.mem_of_getElem? h
  rcases List.mem_cons.mp hmem with rfl | hmem
  · exact Nat.zero_le _
  · simpa using ((newlineEnds_ordered 0 text.toList).2 start hmem).2

end LineIndex

end ScriptLint
