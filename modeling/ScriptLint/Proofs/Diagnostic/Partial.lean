import ScriptLint.Proofs.Token.Partial
import ScriptLint.Proofs.Typing.Trials
import ScriptLint.Report
/-!
# A report needs nothing that has no result

The printer searches the line of an offset, looks up where that line starts
and where the next one does, and counts back from the line and the column that
it has printed. All this has a result for every offset and every length, in
the text or far behind it, between characters or inside of one, because an
offset is first brought back to the end of the text, and a part of the text
that cannot be cut out counts as empty.

With the scanner that goes by offsets and the checker that counts its trials
a whole report can be made of operations that need a result. It always has
one, and it is the report.

Key definitions: `Printer.position?`, `Printer.lineText?`, `Printer.render?`, `WorkspaceFile.load?`,
`report?`.
Key theorems: `Printer.Regular.position?_eq`, `Printer.Regular.render?_eq`,
`WorkspaceFile.load?_eq`, `no_operation_fails`.
-/

namespace ScriptLint

/-! ### The printer -/

namespace Printer

/-- The characters between two offsets, if these are in order and cuts of the text. -/
def part? (p : Printer) (start stop : Nat) : Option (List Char) :=
  (Span.between? start stop).bind fun span => slice? span p.chars

/-- Line and column of an offset, both counted from 1. -/
def position? (p : Printer) (offset : Nat) : Option (Nat × Nat) := do
  let offset := p.clamp offset
  let line ← p.lines.lineOf? offset
  let start ← p.lines.lineStart? line
  return (line + 1, ((p.part? start offset).map List.length).getD 0 + 1)

/-- The characters of a line. -/
def lineText? (p : Printer) (line : Nat) : Option (List Char) := do
  let start ← p.lines.lineStart? line
  let stop ←
    if line + 1 < p.lines.count then p.lines.lineStart? (line + 1) else some (byteLength p.chars)
  return trimLine ((p.part? start stop).getD [])

/-- The four lines of a diagnostic. -/
def renderOne? (p : Printer) (d : Diagnostic) : Option String := do
  let (line, column) ← p.position? d.span.start
  let text ← p.lineText? (← minus? line 1)
  let indent ← minus? column 1
  return p.header d line column ++ "\n"
    ++ (toString line ++ " " ++ String.ofList text) ++ "\n"
    ++ (row (toString line).length ' ' ++ " " ++ row indent ' '
      ++ p.paint d.category (row (p.underlineWidth d.span) '~')) ++ "\n"
    ++ "\n"

/-- The lines of all diagnostics, in order. -/
def render? (p : Printer) (ds : List Diagnostic) : Option String :=
  (ds.mapM p.renderOne?).map String.join

/-- The lines start one behind the other and in the text. -/
structure Regular (p : Printer) : Prop where
  ordered : p.lines.Ordered
  within : ∀ line start, p.lines.lineStart? line = some start → start ≤ byteLength p.chars

theorem regular_new (file text : String) (colours : Option Painter) : (new file text colours).Regular :=
  ⟨LineIndex.ordered_ofText text, fun _ _ => LineIndex.lineStart?_ofText_le⟩

theorem part?_of_le {p : Printer} {start stop : Nat} (h : start ≤ stop) :
    p.part? start stop = slice? (Span.upTo start stop) p.chars := by
  rw [part?, Span.between?_of_le h, Option.bind_some]

theorem lineStart_of_some {p : Printer} {line start : Nat}
    (h : p.lines.lineStart? line = some start) : p.lineStart line = start := by
  rw [lineStart, h, Option.getD_some]

namespace Regular

variable {p : Printer}

/-- **Every offset has a position.** -/
theorem position?_eq (h : p.Regular) (offset : Nat) :
    p.position? offset = some (p.position offset) := by
  obtain ⟨start, hstart, hle⟩ := LineIndex.lineStart?_lineOf h.ordered (p.clamp offset)
  simp [position?, position, columnIn, LineIndex.lineOf?_eq h.ordered, hstart,
    lineStart_of_some hstart, part?_of_le hle]

/-- A line that starts has a text. -/
theorem lineText?_eq (h : p.Regular) {line start : Nat}
    (hstart : p.lines.lineStart? line = some start) :
    p.lineText? line = some (p.lineText line) := by
  unfold lineText? lineText
  rw [lineStart_of_some hstart, hstart]
  by_cases hnext : line + 1 < p.lines.count
  · obtain ⟨next, hsome⟩ : ∃ next, p.lines.lineStart? (line + 1) = some next :=
      ⟨_, List.getElem?_eq_getElem hnext⟩
    have hlt := LineIndex.lineStart?_lt h.ordered hstart hsome
    simp [hnext, hsome, part?_of_le (Nat.le_of_lt hlt)]
  · have hnone : p.lines.lineStart? (line + 1) = none :=
      List.getElem?_eq_none (Nat.le_of_not_lt hnext)
    simp [hnext, hnone, part?_of_le (h.within line start hstart)]

theorem renderOne?_eq (h : p.Regular) (d : Diagnostic) :
    p.renderOne? d = some (p.renderOne d) := by
  obtain ⟨start, hstart, -⟩ := LineIndex.lineStart?_lineOf h.ordered (p.clamp d.span.start)
  unfold renderOne? renderOne
  rw [h.position?_eq, position]
  simp [h.lineText?_eq hstart, sourceLine, underline]

/-- **All diagnostics can be printed,** wherever they start and however long they are. -/
theorem render?_eq (h : p.Regular) (ds : List Diagnostic) :
    p.render? ds = some (p.render ds) := by
  have hone : p.renderOne? = fun d => pure (p.renderOne d) := funext h.renderOne?_eq
  rw [render?, hone, List.mapM_pure]
  rfl

end Regular

end Printer

/-! ### The report -/

/-- The statements that are read from what has been scanned of a text of the given size, and the
state of the reader at its end. -/
def Script.readScanned (items : List Scanned) (size : Nat) : List Stmt × Parse.State :=
  match Parse.statements (Parse.statement nestingLimit) none
      (Parse.State.settle ⟨items, size, 0, nestingLimit, []⟩) with
  | .ok body s => (body, s)
  | .error e s => ([], s.note e)

/-- Scans, reads and checks a file. -/
def WorkspaceFile.load? (name text : String) : Option WorkspaceFile := do
  let items ← scan? text
  let (body, reader) := Script.readScanned items text.utf8ByteSize
  let checker ← Script.checkedState? ⟨name, text, body⟩
  return ⟨⟨name, text, body⟩, reader.errors,
    ⟨name, checker.types, checker.errors.map (TypeError.toDiagnostic name)⟩⟩

theorem WorkspaceFile.load?_eq (name text : String) :
    load? name text = some (load name text).value := by
  unfold load?
  rw [scan?_eq]
  simp only [Option.bind_eq_bind, Option.bind_some, Script.checkedState?_eq]
  rfl

/-- All diagnostics of a file of a workspace, seen through the plugin as it comes. -/
def Workspace.reportOn (w : Workspace) (name : String) : Traced (List Diagnostic) := do
  let plugin ← Plugin.init Flags.booleanLike
  let proxy ← plugin.create w.service PluginConfig.standard
  let syntactic ← proxy.service.syntactic name
  let semantic ← proxy.semantic name
  return syntactic ++ semantic

/-- The printed diagnostics of a file. -/
def report? (name text : String) (colours : Option Painter) : Option String := do
  let file ← WorkspaceFile.load? name text
  let workspace := Workspace.new.put file (Workspace.new.position? name)
  (Printer.new name text colours).render? (workspace.reportOn name).value

theorem report?_eq (name text : String) (colours : Option Painter) :
    report? name text colours = some (report name text colours).value := by
  rw [report?, WorkspaceFile.load?_eq]
  exact (Printer.regular_new name text colours).render?_eq _

/-- **No operation of a report fails,** whatever the text is. Scanning, reading, checking, asking
the rules and printing have a result. The spans that the reader and the checker make are the same
whatever a span with reversed bounds would be, a span never ends before it starts, and the printer
has a position for every offset and lines for all diagnostics, also for such as lie outside of the
text. -/
theorem no_operation_fails (name text : String) (colours : Option Painter) :
    report? name text colours = some (report name text colours).value ∧
    (∀ panic start, Parse.spanFrom start =
      (return Span.betweenOr panic start (max (← get).consumedTo start) : Parse Span)) ∧
    (∀ panic s t, Span.cover s t =
      Span.betweenOr panic (min s.start t.start) (max s.stop t.stop)) ∧
    (∀ panic offset, Span.emptyAt offset = Span.betweenOr panic offset offset) ∧
    (∀ panic (script : Script),
      script.span = Span.betweenOr panic 0 script.text.utf8ByteSize) ∧
    (∀ s : Span, minus? s.stop s.start = some s.length) ∧
    (∀ offset, (Printer.new name text colours).position? offset =
      some ((Printer.new name text colours).position offset)) ∧
    ∀ ds, (Printer.new name text colours).render? ds =
      some ((Printer.new name text colours).render ds) :=
  ⟨report?_eq name text colours, Parse.spanFrom_eq, Span.cover_eq, Span.emptyAt_eq, Script.span_eq,
    Span.minus?_stop_start, (Printer.regular_new name text colours).position?_eq,
    (Printer.regular_new name text colours).render?_eq⟩

end ScriptLint
