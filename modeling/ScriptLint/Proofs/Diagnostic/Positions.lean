import Mathlib.Data.Prod.Lex
import ScriptLint.Proofs.Diagnostic.Partial
import ScriptLint.Proofs.Layout.Bounds
import ScriptLint.Proofs.Text.Lines
/-!
# Positions count lines and characters

The printer finds the position of an offset by its line and the characters
between the start of the line and the offset. Where a character begins, this
is what a reader of the text would count: the newlines and the characters
since the last of them. A step to a later character leads to a later line or
to a later column in the same line, so no two such offsets have one position.

Key theorems: `Printer.position_byteLength`, `Printer.position_lt`, `Printer.positions_faithful`.
-/

namespace ScriptLint.Printer

variable {file text : String} {colours : Option Painter} {before after : List Char}

/-- The characters from the start of a line on. -/
theorem slice?_line {part rest : List Char} (h : text.toList = before ++ (part ++ rest)) :
    slice? (Span.upTo (byteLength (wholeLines before)) (byteLength (before ++ part))) text.toList =
      some (lastLine before ++ part) := by
  have hbytes : byteLength before = byteLength (wholeLines before) + byteLength (lastLine before) := by
    rw [← byteLength_append, wholeLines_append_lastLine]
  have hchars : text.toList = wholeLines before ++ (lastLine before ++ part ++ rest) := by
    rw [h, List.append_assoc, ← List.append_assoc (wholeLines before), wholeLines_append_lastLine]
  have hspan : Span.upTo (byteLength (wholeLines before)) (byteLength (before ++ part)) =
      ⟨byteLength (wholeLines before), byteLength (lastLine before ++ part)⟩ := by
    rw [Span.upTo, byteLength_append, byteLength_append, hbytes]
    congr 1
    omega
  rw [hspan, hchars]
  exact slice?_append _ _ _

theorem clamp_byteLength (h : text.toList = before ++ after) :
    (new file text colours).clamp (byteLength before) = byteLength before := by
  show min (byteLength before) (byteLength text.toList) = byteLength before
  rw [h, byteLength_append]
  omega

/-- The start of the line in which the characters end. -/
theorem lineStart_byteLength (h : text.toList = before ++ after) :
    (new file text colours).lineStart (before.count '\n') = byteLength (wholeLines before) := by
  have hlead : text.toList = wholeLines before ++ (lastLine before ++ after) := by
    rw [← List.append_assoc, wholeLines_append_lastLine, h]
  have hstart := LineIndex.lineStart?_byteLength hlead (whole_wholeLines before)
  rw [count_wholeLines] at hstart
  exact lineStart_of_some hstart

/-- **The position of a character counts the newlines before it and the characters since.** -/
theorem position_byteLength (h : text.toList = before ++ after) :
    (new file text colours).position (byteLength before) =
      (before.count '\n' + 1, (lastLine before).length + 1) := by
  have hline : (new file text colours).lines.lineOf (byteLength before) = before.count '\n' :=
    LineIndex.lineOf_byteLength h
  have hslice : slice? (Span.upTo (byteLength (wholeLines before)) (byteLength before))
      text.toList = some (lastLine before) := by
    have hread : text.toList = before ++ ([] ++ after) := h
    simpa using slice?_line hread
  rw [position, clamp_byteLength h]
  simp only [hline, columnIn, lineStart_byteLength h]
  show (_, ((slice? _ text.toList).map List.length).getD 0 + 1) = _
  rw [hslice]
  rfl

/-- More characters lead further. -/
theorem position_append_lt {part : List Char} (h : text.toList = before ++ (part ++ after))
    (hpart : part ≠ []) : Prod.Lex (· < ·) (· < ·)
      ((new file text colours).position (byteLength before))
      ((new file text colours).position (byteLength (before ++ part))) := by
  have h' : text.toList = (before ++ part) ++ after := by
    rw [h, List.append_assoc]
  rw [position_byteLength h, position_byteLength h', List.count_append]
  by_cases hnewline : '\n' ∈ part
  · have hpos := List.count_pos_iff.mpr hnewline
    exact .left _ _ (by omega)
  · have hlength := List.length_pos_iff.mpr hpart
    rw [List.count_eq_zero.mpr hnewline, lastLine_append before hnewline, List.length_append]
    exact .right _ (by omega)

/-- **Positions are in the order of the offsets.** -/
theorem position_lt {a b : Nat} (ha : IsCut text.toList a) (hb : IsCut text.toList b)
    (hlt : a < b) : Prod.Lex (· < ·) (· < ·) ((new file text colours).position a)
      ((new file text colours).position b) := by
  obtain ⟨before, after, hbefore, rfl⟩ := ha
  obtain ⟨before', after', hbefore', rfl⟩ := hb
  rcases List.append_eq_append_iff.mp (hbefore.symm.trans hbefore') with
    ⟨part, rfl, rfl⟩ | ⟨part, rfl, rfl⟩
  · have hpart : part ≠ [] := by
      rintro rfl
      simp at hlt
    exact position_append_lt hbefore hpart
  · rw [byteLength_append] at hlt
    omega

/-- So no two such offsets have one position. -/
theorem position_ne {a b : Nat} (ha : IsCut text.toList a) (hb : IsCut text.toList b)
    (hlt : a < b) : (new file text colours).position a ≠ (new file text colours).position b := by
  intro hsame
  have hlex : Prod.Lex (· < ·) (· < ·) ((new file text colours).position a)
      ((new file text colours).position b) := position_lt ha hb hlt
  rw [hsame] at hlex
  simp [Prod.lex_def] at hlex

/-- **Lines and columns are faithful,** for every text and every offset, also behind the end. The
line of an offset is the number of newline bytes below it, whichever search among the starts of
the lines finds it; there is one line more than there are newlines; the first line starts at 0 and
each other one behind the newline before it. The position of an offset at which a character begins
or the text ends counts the newlines before it and the characters since the last of them, both
from 1. Positions are in the order of such offsets, so no two of these have one position. -/
theorem positions_faithful (file text : String) (colours : Option Painter) :
    (∀ offset, (LineIndex.ofText text).lineOf offset =
      (text.toUTF8.data.toList.take offset).count 10) ∧
    (∀ offset found, Located (LineIndex.ofText text).starts offset found →
      lineFound? found = some ((LineIndex.ofText text).lineOf offset)) ∧
    (LineIndex.ofText text).count = text.toUTF8.data.toList.count 10 + 1 ∧
    (LineIndex.ofText text).lineStart? 0 = some 0 ∧
    (∀ line start, (LineIndex.ofText text).lineStart? (line + 1) = some start ↔
      ∃ place, start = place + 1 ∧ text.toUTF8.data.toList[place]? = some 10 ∧
        (text.toUTF8.data.toList.take place).count 10 = line) ∧
    (∀ before after, text.toList = before ++ after →
      (new file text colours).position (byteLength before) =
        (1 + before.count '\n', 1 + (before.reverse.takeWhile (· != '\n')).length)) ∧
    (∀ a b, IsCut text.toList a → IsCut text.toList b → a < b →
      Prod.Lex (· < ·) (· < ·) ((new file text colours).position a)
        ((new file text colours).position b)) ∧
    ∀ a b, IsCut text.toList a → IsCut text.toList b →
      (new file text colours).position a = (new file text colours).position b → a = b := by
  refine ⟨LineIndex.lineOf_ofText text,
    fun offset found hfound => hfound.line_eq (LineIndex.ordered_ofText text),
    LineIndex.count_ofText text, rfl, LineIndex.lineStart?_ofText_iff text,
    fun before after h => ?_, fun a b => position_lt, fun a b ha hb hsame => ?_⟩
  · rw [position_byteLength h, lastLine, List.length_reverse, Nat.add_comm _ 1, Nat.add_comm _ 1]
  · rcases Nat.lt_trichotomy a b with hlt | heq | hgt
    · exact absurd hsame (position_ne ha hb hlt)
    · exact heq
    · exact absurd hsame.symm (position_ne hb ha hgt)

/-- The theorem behind an empty line and two letters of two bytes each. -/
theorem positions_faithful_behind_empty_line :
    Located (LineIndex.ofText "é\n\nüb").starts 5 (.error 3) ∧
    lineFound? (.error 3) = some ((LineIndex.ofText "é\n\nüb").lineOf 5) ∧
    (new "a.ts" "é\n\nüb" none).position 6 = (3, 2) ∧
    Prod.Lex (· < ·) (· < ·) ((new "a.ts" "é\n\nüb" none).position 3)
      ((new "a.ts" "é\n\nüb" none).position 6) := by
  obtain ⟨-, hfound, -, -, -, hposition, hlt, -⟩ := positions_faithful "a.ts" "é\n\nüb" none
  have hgap : Located (LineIndex.ofText "é\n\nüb").starts 5 (.error 3) :=
    .gap (by decide +kernel) (by decide +kernel) (by decide +kernel)
  have hempty : IsCut "é\n\nüb".toList 3 := ⟨['é', '\n'], ['\n', 'ü', 'b'], rfl, rfl⟩
  have hlast : IsCut "é\n\nüb".toList 6 := ⟨['é', '\n', '\n', 'ü'], ['b'], rfl, rfl⟩
  exact ⟨hgap, hfound 5 _ hgap, hposition ['é', '\n', '\n', 'ü'] ['b'] rfl,
    hlt 3 6 hempty hlast (by omega)⟩

end ScriptLint.Printer
