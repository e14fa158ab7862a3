import ScriptLint.Diagnostic.Basic
import ScriptLint.Text.Lines
/-!
# Printed diagnostics

A diagnostic is printed as four lines: where it is and what it says, the
line of the source it starts in, an underline below the part it is about,
and an empty line. Columns count characters, and what lies outside of the
text is shown at its end.

Key definitions: `Printer`, `Printer.new`, `Printer.position`, `Printer.underlineWidth`,
`Printer.render`.
-/

namespace ScriptLint

/-- The colours that are used. -/
inductive Colour where
  | red
  | yellow
  | cyan
  | blue
  deriving DecidableEq, Repr

/-- How a text stands out on a terminal. -/
structure Style where
  colour : Colour
  bold : Bool
  deriving DecidableEq, Repr

/-- The style of a category. -/
def Category.style : Category → Style
  | .error => ⟨.red, true⟩
  | .warning => ⟨.yellow, true⟩
  | .suggestion => ⟨.cyan, false⟩
  | .message => ⟨.blue, false⟩

/-- What makes texts stand out. How it is done is up to the terminal. -/
abbrev Painter := Style → String → String

/-- The characters that begin within the first `count` bytes and before the end of the line. -/
def coveredWidth : Nat → List Char → Nat
  | _, [] => 0
  | count, c :: cs =>
    if count = 0 ∨ c = '\n' ∨ c = '\r' then 0 else coveredWidth (count - c.utf8Size) cs + 1

/-- A line without the characters that break it off. -/
def trimLine (cs : List Char) : List Char :=
  (cs.reverse.dropWhile fun c => c == '\n' || c == '\r').reverse

/-- What is needed to print the diagnostics of a file: its name, its characters and the lines
they form, and a painter if colours are on. -/
structure Printer where
  file : String
  chars : List Char
  lines : LineIndex
  colours : Option Painter

namespace Printer

/-- The printer of a file. -/
def new (file text : String) (colours : Option Painter) : Printer :=
  ⟨file, text.toList, LineIndex.ofText text, colours⟩

/-- The offset, or the end of the text if it lies behind. -/
def clamp (p : Printer) (offset : Nat) : Nat :=
  min offset (byteLength p.chars)

/-- The start of a line. There is one for each line that an offset lies in. -/
def lineStart (p : Printer) (line : Nat) : Nat :=
  (p.lines.lineStart? line).getD 0

/-- The number of characters between the start of a line and an offset in it. An offset inside a
character counts as the start of the line. -/
def columnIn (p : Printer) (line offset : Nat) : Nat :=
  ((slice? (Span.upTo (p.lineStart line) offset) p.chars).map List.length).getD 0

/-- Line and column of an offset, both counted from 1. -/
def position (p : Printer) (offset : Nat) : Nat × Nat :=
  let offset := p.clamp offset
  let line := p.lines.lineOf offset
  (line + 1, p.columnIn line offset + 1)

/-- The characters of a line. -/
def lineText (p : Printer) (line : Nat) : List Char :=
  let stop := (p.lines.lineStart? (line + 1)).getD (byteLength p.chars)
  trimLine ((slice? (Span.upTo (p.lineStart line) stop) p.chars).getD [])

/-- The characters that a diagnostic is about in its first line, but at least one. -/
def underlineWidth (p : Printer) (span : Span) : Nat :=
  max 1 (coveredWidth span.length ((dropBytes? span.start p.chars).getD []))

/-- A text in the style of a category, if colours are on. -/
def paint (p : Printer) (category : Category) (text : String) : String :=
  match p.colours with
  | some painter => painter category.style text
  | none => text

/-- A row of equal characters. -/
def row (count : Nat) (c : Char) : String :=
  String.ofList (List.replicate count c)

/-- Who found it and under which number. -/
def codeText (d : Diagnostic) : String :=
  match d.source with
  | some source => source ++ "(" ++ toString d.code ++ ")"
  | none => "TS" ++ toString d.code

/-- The line that says where a diagnostic is and what it says. -/
def header (p : Printer) (d : Diagnostic) (line column : Nat) : String :=
  p.file ++ ":" ++ toString line ++ ":" ++ toString column ++ " - "
    ++ p.paint d.category d.category.word ++ " " ++ codeText d ++ ": " ++ d.message

/-- A line of the source, behind its number. -/
def sourceLine (p : Printer) (line : Nat) : String :=
  toString line ++ " " ++ String.ofList (p.lineText (line - 1))

/-- The underline, below the place where the source line is printed. -/
def underline (p : Printer) (d : Diagnostic) (line column : Nat) : String :=
  row (toString line).length ' ' ++ " " ++ row (column - 1) ' '
    ++ p.paint d.category (row (p.underlineWidth d.span) '~')

/-- The four lines of a diagnostic. -/
def renderOne (p : Printer) (d : Diagnostic) : String :=
  let (line, column) := p.position d.span.start
  p.header d line column ++ "\n" ++ p.sourceLine line ++ "\n" ++ p.underline d line column ++ "\n"
    ++ "\n"

/-- The lines of all diagnostics, in order. -/
def render (p : Printer) (ds : List Diagnostic) : String :=
  String.join (ds.map p.renderOne)

end Printer

end ScriptLint
