import ScriptLint.Proofs.Text.Partial
import ScriptLint.Proofs.Token.Places
/-!
# Scanning by offsets

A scanner that knows the whole text and where it is in it makes the spans of
what it scans from the offsets at hand: where the piece began, where the next
character is, where the text ends, and one byte before the character behind a
backslash. Words and numbers it cuts out of the text. Each of this has to have
a result: the bounds in order, nothing below zero, and the cuts between two
characters. It has, and what is scanned in this way is what `scan` lists.

Key definitions: `Munch.Regular`, `Munch.span?`, `Munch.piece?`, `scan?`.
Key theorems: `regular_munch`, `Munch.Regular.read?_eq`, `scan?_eq`.
-/

namespace ScriptLint

/-- What the text of a number stands for. -/
def numberPiece (text : List Char) : Piece :=
  match Binary64.parse? (text.filter (· ≠ '_')) with
  | some value => .token (.number value)
  | none => .fault (.invalidNumber (String.ofList text))

theorem numberPiece_cases (text : List Char) :
    (∃ value, numberPiece text = .token (.number value)) ∨
      numberPiece text = .fault (.invalidNumber (String.ofList text)) := by
  unfold numberPiece
  cases Binary64.parse? (text.filter (· ≠ '_')) with
  | some value => exact .inl ⟨value, rfl⟩
  | none => exact .inr rfl

theorem Token.ofWord_cases (text : String) :
    (∃ word, Token.ofWord text = .keyword word) ∨ Token.ofWord text = .identifier text := by
  unfold Token.ofWord
  cases Keyword.ofSpelling? text with
  | some word => exact .inl ⟨word, rfl⟩
  | none => exact .inr rfl

namespace Munch

/-- All that a piece of text can be. Only in front of an unknown escape something is left over. -/
inductive Regular : Munch → Prop
  | gap (body rest : List Char) : Regular ⟨.gap, [], body, rest⟩
  | sign (sign : Punctuator) (body rest : List Char) :
    Regular ⟨.token (.punctuator sign), [], body, rest⟩
  | word (body rest : List Char) :
    Regular ⟨.token (Token.ofWord (String.ofList body)), [], body, rest⟩
  | number (body rest : List Char) : Regular ⟨numberPiece body, [], body, rest⟩
  | string (value : String) (body rest : List Char) :
    Regular ⟨.token (.string value), [], body, rest⟩
  | openString (body rest : List Char) : Regular ⟨.fault .unterminatedString, [], body, rest⟩
  | escape (lead : List Char) (e : Char) (rest : List Char) :
    Regular ⟨.fault (.invalidEscape e), lead, ['\\', e], rest⟩
  | openComment (body : List Char) : Regular ⟨.fault .unterminatedComment, [], body, []⟩
  | character (c : Char) (rest : List Char) :
    Regular ⟨.fault (.unexpectedCharacter c), [], [c], rest⟩

end Munch

theorem close_readString {quote e : Char} {cs : List Char}
    (h : (readString quote cs).ending = .invalidEscape e) :
    (readString quote cs).close = ['\\', e] := by
  fun_induction readString quote cs <;> simp_all [StringText.extend]

theorem regular_munchComment (inside : List Char) : (munchComment inside).Regular := by
  unfold munchComment
  split
  · exact .gap _ _
  · exact .openComment _

theorem regular_munchString (quote : Char) (cs : List Char) : (munchString quote cs).Regular := by
  unfold munchString
  dsimp only
  split
  · exact .string _ _ _
  · exact .openString _ _
  next e hending =>
    rw [close_readString hending]
    exact .escape _ e _

theorem munchNumber_eq (digit : Char) (cs : List Char) :
    ∃ body rest, munchNumber digit cs = ⟨numberPiece body, [], body, rest⟩ := by
  refine ⟨digit :: (cs.takeWhile isDigitOrSeparator ++
    (splitFraction (cs.dropWhile isDigitOrSeparator)).1),
    (splitFraction (cs.dropWhile isDigitOrSeparator)).2, ?_⟩
  unfold munchNumber numberPiece
  dsimp only
  generalize Binary64.parse? _ = value
  cases value <;> rfl

/-- **A piece is one of those.** -/
theorem regular_munch (c : Char) (cs : List Char) : (munch c cs).Regular := by
  unfold munch
  split
  · exact .gap _ _
  split
  · exact .gap _ _
  split
  · exact regular_munchComment _
  split
  · exact regular_munchString c cs
  split
  · obtain ⟨body, rest, heq⟩ := munchNumber_eq c cs
    rw [heq]
    exact .number body rest
  split
  · exact .word _ _
  split
  · exact .sign _ _ _
  · exact .character c cs

/-- What is scanned if a piece stands at a span. -/
def Piece.items (span : Span) : Piece → List Scanned
  | .gap => []
  | .token t => [.ok ⟨t, span⟩]
  | .fault f => [.error ⟨f, span⟩]

namespace Munch

/-- Where the next character is, if the piece began at `offset`. -/
def next (offset : Nat) (m : Munch) : Nat :=
  offset + byteLength m.lead + byteLength m.body

/-- The span of a piece that began at `offset` in a text of the given size. A comment without end
goes on to the end of the text, and of a string with an unknown escape only the escape is meant: it
begins one byte before the place behind the backslash. -/
def span? (size offset : Nat) (m : Munch) : Option Span :=
  match m.piece with
  | .fault .unterminatedComment => Span.between? offset size
  | .fault (.invalidEscape _) => do
    let start ← minus? (offset + byteLength m.lead + byteLength (m.body.take 1)) 1
    Span.between? start (m.next offset)
  | _ => Span.between? offset (m.next offset)

/-- What a piece is. Words and numbers are cut out of the text to find out. -/
def piece? (text : List Char) (span : Span) (m : Munch) : Option Piece :=
  match m.piece with
  | .token (.keyword _) | .token (.identifier _) =>
    (slice? span text).map fun word => .token (Token.ofWord (String.ofList word))
  | .token (.number _) | .fault (.invalidNumber _) => (slice? span text).map numberPiece
  | piece => some piece

/-- What a piece that began at `offset` adds to what is scanned of the text. -/
def read? (text : List Char) (offset : Nat) (m : Munch) : Option (List Scanned) :=
  match m.piece with
  | .gap => some []
  | _ => do
    let span ← m.span? (byteLength text) offset
    let piece ← m.piece? text span
    return piece.items span

namespace Regular

variable {m : Munch}

/-- The bounds of a piece are in order. -/
theorem span?_eq (h : m.Regular) (before : List Char) :
    m.span? (byteLength (before ++ m.text)) (byteLength before) =
      some ⟨byteLength before + byteLength m.lead, byteLength m.body⟩ := by
  have hbetween : ∀ start length, Span.between? start (start + length) = some ⟨start, length⟩ := by
    intro start length
    rw [Span.between?_of_le (Nat.le_add_right _ _), Span.upTo, Nat.add_sub_cancel_left]
  cases h with
  | escape lead e rest =>
    have hslash : '\\'.utf8Size = 1 := by decide
    simp [span?, next, hbetween, hslash]
  | openComment body => simp [span?, text, hbetween]
  | number body rest =>
    rcases numberPiece_cases body with ⟨value, hpiece⟩ | hpiece <;>
      simp [span?, hpiece, next, hbetween]
  | _ => simp [span?, next, hbetween]

/-- The cuts around a word or a number are between two characters. -/
theorem piece?_eq (h : m.Regular) (before : List Char) :
    m.piece? (before ++ m.text) ⟨byteLength before + byteLength m.lead, byteLength m.body⟩ =
      some m.piece := by
  have hslice := slice?_append (before ++ m.lead) m.body m.rest
  rw [byteLength_append, List.append_assoc] at hslice
  cases h with
  | word body rest =>
    simp only [List.nil_append, byteLength_nil, Nat.add_zero] at hslice
    rcases Token.ofWord_cases (String.ofList body) with ⟨word, hpiece⟩ | hpiece <;>
      simp [piece?, hpiece, text, hslice]
  | number body rest =>
    simp only [List.nil_append, byteLength_nil, Nat.add_zero] at hslice
    rcases numberPiece_cases body with ⟨value, hpiece⟩ | hpiece <;>
      simp [piece?, hpiece, text, hslice]
  | _ => rfl

/-- **A piece is read as it stands.** -/
theorem read?_eq (h : m.Regular) (before : List Char) :
    m.read? (before ++ m.text) (byteLength before) =
      some (m.scanned? (byteLength before)).toList := by
  have hitems : (m.scanned? (byteLength before)).toList =
      m.piece.items ⟨byteLength before + byteLength m.lead, byteLength m.body⟩ := by
    unfold scanned?
    cases m.piece <;> rfl
  rw [hitems]
  unfold read?
  split
  next hpiece => rw [hpiece, Piece.items]
  next hpiece =>
    rw [h.span?_eq]
    simp [h.piece?_eq]

end Regular

end Munch

/-- What is scanned of `text` when the characters from `offset` on are still to be read. -/
def scanFrom? (text : List Char) (offset : Nat) : List Char → Option (List Scanned)
  | [] => some []
  | c :: cs => do
    let items ← (munch c cs).read? text offset
    let later ← scanFrom? text ((munch c cs).next offset) (munch c cs).rest
    return items ++ later
termination_by cs => cs.length
decreasing_by exact Nat.lt_succ_of_le (length_rest_munch_le c cs)

/-- What is scanned of a text. -/
def scan? (text : String) : Option (List Scanned) :=
  scanFrom? text.toList 0 text.toList

theorem scanFrom?_eq (cs : List Char) : ∀ before,
    scanFrom? (before ++ cs) (byteLength before) cs = some (scanFrom (byteLength before) cs) := by
  induction cs using munch_induction with
  | nil => simp [scanFrom?, scanFrom]
  | cons c cs ih =>
    intro before
    have htext := text_munch c cs
    have hread := (regular_munch c cs).read?_eq before
    have hlater := ih (before ++ ((munch c cs).lead ++ (munch c cs).body))
    rw [htext] at hread
    rw [byteLength_append, byteLength_append, List.append_assoc, List.append_assoc, ← Munch.text,
      htext, ← Nat.add_assoc] at hlater
    rw [scanFrom?, hread, scanFrom_cons]
    simp [Munch.next, hlater]

/-- **Scanning by offsets always has a result.** -/
theorem scan?_eq (text : String) : scan? text = some (scan text) :=
  scanFrom?_eq text.toList []

end ScriptLint
