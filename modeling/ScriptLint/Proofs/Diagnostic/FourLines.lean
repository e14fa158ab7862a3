import ScriptLint.Proofs.Diagnostic.Underline
import ScriptLint.Proofs.Layout.Bounds
import ScriptLint.Proofs.Rule.Findings
import ScriptLint.Proofs.Typing.OneLine
/-!
# Four lines for a diagnostic

Of the four lines that are printed for a diagnostic the line of the source and
the underline are never broken, and the first is broken just if the message
is. So a report has four lines for each diagnostic as long as the messages are
one line each. They are, with two exceptions: a type is shown with the values
of strings as they are, so a message about a string with a newline in it is
broken; and so is the message about an escape sequence at which a line ends.

Key definitions: `Printer.linesOf`, `reportLines`, `Scanned.ShowsNewline`.
Key theorems: `Printer.linesOf_eq`, `Printer.oneLine_linesOf_iff`, `Script.mem_report_cases`,
`report_four_lines`.
-/

namespace ScriptLint

/-! ### The lines of a diagnostic -/

namespace Printer

/-- The four lines of a diagnostic, without the newlines behind them. -/
def linesOf (p : Printer) (d : Diagnostic) : List String :=
  let (line, column) := p.position d.span.start
  [p.header d line column, p.sourceLine line, p.underline d line column, ""]

theorem renderOne_eq (p : Printer) (d : Diagnostic) : p.renderOne d = inLines (p.linesOf d) := by
  simp [renderOne, linesOf, inLines_cons, String.append_assoc]

theorem render_eq (p : Printer) (ds : List Diagnostic) :
    p.render ds = inLines (ds.flatMap p.linesOf) := by
  induction ds with
  | nil => rfl
  | cons d ds ih => rw [render_cons, renderOne_eq, ih, List.flatMap_cons, inLines_append]

theorem length_flatMap_linesOf (p : Printer) (ds : List Diagnostic) :
    (ds.flatMap p.linesOf).length = 4 * ds.length := by
  induction ds with
  | nil => rfl
  | cons d ds ih =>
    have hfour : (p.linesOf d).length = 4 := rfl
    rw [List.flatMap_cons, List.length_append, ih, hfour, List.length_cons]
    omega

variable {file text : String} {before after : List Char} {d : Diagnostic}

/-- **The lines of a diagnostic that starts at a character of the text,** or at its end. -/
theorem linesOf_eq (h : text.toList = before ++ after) (hstart : d.span.start = byteLength before) :
    (new file text none).linesOf d = [
      file ++ ":" ++ toString (before.count '\n' + 1) ++ ":"
        ++ toString ((lastLine before).length + 1) ++ " - " ++ d.category.word ++ " "
        ++ codeText d ++ ": " ++ d.message,
      toString (before.count '\n' + 1) ++ " "
        ++ String.ofList (trimLine (lastLine before ++ after.takeWhile fun c => c != '\n')),
      String.ofList (List.replicate
          ((toString (before.count '\n' + 1)).toList.length + 1 + (lastLine before).length) ' '
        ++ List.replicate ((new file text none).underlineWidth d.span) '~'),
      ""] := by
  have hposition : (new file text none).position d.span.start =
      (before.count '\n' + 1, (lastLine before).length + 1) := by
    rw [hstart, position_byteLength h]
  have hsource : (new file text none).sourceLine (before.count '\n' + 1) =
      toString (before.count '\n' + 1) ++ " "
        ++ String.ofList (trimLine (lastLine before ++ after.takeWhile fun c => c != '\n')) := by
    rw [sourceLine, Nat.add_sub_cancel, lineText_eq file none h]
  unfold linesOf
  rw [hposition]
  dsimp only
  rw [hsource, ← toList_underline file text d, String.ofList_toList]
  rfl

theorem newline_notMem_trimLine {cs : List Char} (h : '\n' ∉ cs) : '\n' ∉ trimLine cs := by
  intro hmem
  rw [trimLine_eq, List.mem_reverse] at hmem
  exact h (List.mem_reverse.mp ((List.dropWhile_sublist _).subset hmem))

theorem oneLine_codeText (hsource : ∀ source ∈ d.source, OneLine source) : OneLine (codeText d) := by
  unfold codeText
  split
  next source heq =>
    have hlead : OneLine (source ++ "(") := oneLine_append.mpr ⟨hsource source heq, by decide⟩
    exact oneLine_quoted hlead (oneLine_toString _) (by decide)
  next => exact oneLine_append.mpr ⟨by decide, oneLine_toString _⟩

/-- **Only the message can break a line** that is printed for a diagnostic. -/
theorem oneLine_linesOf_iff (hfile : OneLine file) (hsource : ∀ source ∈ d.source, OneLine source)
    (hstart : IsCut text.toList d.span.start) :
    (∀ line ∈ (new file text none).linesOf d, OneLine line) ↔ OneLine d.message := by
  obtain ⟨before, after, h, hbefore⟩ := hstart
  have hword : OneLine d.category.word := by
    cases d.category <;> decide
  have hheader : OneLine (file ++ ":" ++ toString (before.count '\n' + 1) ++ ":"
      ++ toString ((lastLine before).length + 1) ++ " - " ++ d.category.word ++ " "
      ++ codeText d ++ ": ") := by
    simp only [oneLine_append, hfile, hword, oneLine_toString, oneLine_codeText hsource, true_and,
      and_true]
    decide
  have hline : '\n' ∉ lastLine before ++ after.takeWhile fun c => c != '\n' := by
    rw [List.mem_append, not_or]
    refine ⟨newline_notMem_lastLine before, fun hmem => ?_⟩
    simpa using List.all_eq_true.mp List.all_takeWhile _ hmem
  have hshown : OneLine (toString (before.count '\n' + 1) ++ " "
      ++ String.ofList (trimLine (lastLine before ++ after.takeWhile fun c => c != '\n'))) :=
    oneLine_quoted (oneLine_toString _) (by decide)
      (oneLine_ofList.mpr (newline_notMem_trimLine hline))
  have hunderline : ∀ indent width : Nat,
      OneLine (String.ofList (List.replicate indent ' ' ++ List.replicate width '~')) := by
    simp
  have hempty : OneLine "" := by decide
  rw [linesOf_eq h hbefore]
  constructor
  · intro hall
    exact (oneLine_append.mp (hall _ List.mem_cons_self)).2
  · intro hmessage line hmem
    simp only [List.mem_cons, List.not_mem_nil, or_false] at hmem
    rcases hmem with rfl | rfl | rfl | rfl
    · exact oneLine_append.mpr ⟨hheader, hmessage⟩
    · exact hshown
    · exact hunderline _ _
    · exact hempty

end Printer

/-! ### What is reported -/

/-- The lines of the report on a file. -/
def reportLines (name text : String) : List String :=
  (reportDiagnostics name text).value.flatMap (Printer.new name text none).linesOf

/-- **A report consists of its lines.** -/
theorem value_report (name text : String) :
    (report name text none).value = inLines (reportLines name text) :=
  Printer.render_eq _ _

/-- A problem of the grammar is told in one line. -/
theorem SyntaxProblem.oneLine_message {problem : SyntaxProblem}
    (h : ∀ fault, problem ≠ .lexical fault) : OneLine problem.message := by
  cases problem with
  | expected sign => exact oneLine_quoted (by decide) sign.oneLine_spelling (by decide)
  | nestedTooDeeply =>
    exact oneLine_quoted (by decide) (oneLine_toString _) (oneLine_ofList.mpr (by decide))
  | lexical fault => exact absurd rfl (h fault)
  | _ => exact oneLine_ofList.mpr (by decide)

namespace Script

variable {name text : String}

theorem mem_lexicalErrors {e : LexicalError} :
    e ∈ lexicalErrors text ↔ Except.error e ∈ scan text := by
  unfold lexicalErrors
  rw [List.mem_filterMap]
  constructor
  · rintro ⟨item, hitem, hfault⟩
    cases item with
    | ok w => cases hfault
    | error e' =>
      obtain rfl := Option.some.inj hfault
      exact hitem
  · intro h
    exact ⟨_, h, rfl⟩

/-- A lexical error of the text is among its syntax errors. -/
theorem ofLexical_mem_recover {e : LexicalError} (he : Except.error e ∈ scan text) :
    SyntaxError.ofLexical e ∈ (recover name text).2 := by
  have hmem : SyntaxError.ofLexical e ∈ (recover name text).2.filter SyntaxError.isLexical := by
    rw [filter_isLexical_recover]
    exact List.mem_map_of_mem (mem_lexicalErrors.mpr he)
  exact (List.mem_filter.mp hmem).1

/-- **A syntax error says one line,** unless it is about an escape sequence at which a line ends. -/
theorem oneLine_syntaxError {e : SyntaxError} (he : e ∈ (recover name text).2) :
    OneLine e.problem.message ∨
      ∃ l, Except.error l ∈ scan text ∧ l.fault = .invalidEscape '\n' ∧ e = .ofLexical l := by
  by_cases hlexical : e.isLexical = true
  · have hmem : e ∈ (lexicalErrors text).map SyntaxError.ofLexical := by
      rw [← filter_isLexical_recover name]
      exact List.mem_filter.mpr ⟨he, hlexical⟩
    obtain ⟨l, hl, rfl⟩ := List.mem_map.mp hmem
    have hscanned := mem_lexicalErrors.mp hl
    by_cases hfault : l.fault = .invalidEscape '\n'
    · exact .inr ⟨l, hscanned, hfault, rfl⟩
    · have hline := (oneLine_fault_iff hscanned).mpr hfault
      exact .inl (oneLine_append.mpr ⟨hline, by decide⟩)
  · refine .inl (SyntaxProblem.oneLine_message fun fault heq => hlexical ?_)
    obtain ⟨problem, span⟩ := e
    obtain rfl : problem = .lexical fault := heq
    exact SyntaxError.isLexical_ofLexical ⟨fault, span⟩

/-- Where a finding of the naming rule comes from: a name that was scanned. -/
theorem exists_name_of_mem_analyze {booleanLike : Flags} {types : TypeLookup} {d : Diagnostic}
    (hd : d ∈ ((Registry.withBooleanLike booleanLike).analyze (recover name text).1 types []).value) :
    ∃ v w, Except.ok w ∈ scan text ∧ v.name.SpelledBy w ∧ d = Rule.renameFinding name v := by
  have hspelled : ∀ v ∈ (recover name text).1.declared,
      ∃ w, w ∈ Parse.lexemesOf (scan text) ∧ v.name.SpelledBy w := by
    rw [declared_eq]
    exact fun v hv => (derives_readBody text).2.1.1.names_within.spelled v.name
      (List.mem_map_of_mem hv)
  have hwithin : ∀ v ∈ (recover name text).1.declared,
      (recover name text).1.span.contains v.name.span = true := by
    intro v hv
    obtain ⟨w, hw, -, hspan⟩ := hspelled v hv
    have hstop := (placed_of_mem_scan (Parse.scanned_of_mem_lexemesOf hw)).stop_le
    rw [← utf8ByteSize_eq_byteLength, ← hspan] at hstop
    refine decide_eq_true ⟨Nat.zero_le _, ?_⟩
    have htext : (recover name text).1.text = text := rfl
    simpa [Span.stop, Script.span, htext] using hstop
  have hvalue := @Registry.value_findings booleanLike ⟨(recover name text).1, types⟩ hwithin
  obtain ⟨v, hv, rfl⟩ := List.mem_map.mp (hvalue ▸ hd)
  obtain ⟨w, hw, hspells⟩ := hspelled v (List.mem_filter.mp hv).1
  exact ⟨v, w, Parse.scanned_of_mem_lexemesOf hw, hspells, rfl⟩

/-- **What is reported on a file:** a syntax error, an error of the checker or a misnamed
variable. -/
theorem mem_report_cases {d : Diagnostic} (hd : d ∈ (reportDiagnostics name text).value) :
    (∃ e ∈ (recover name text).2, d = e.toDiagnostic name) ∨
      d ∈ (recover name text).1.check.diagnostics ∨
      ∃ v w, Except.ok w ∈ scan text ∧ v.name.SpelledBy w ∧ d = Rule.renameFinding name v := by
  obtain ⟨types, hvalue⟩ := value_reportDiagnostics name text
  rw [hvalue, List.mem_append, List.mem_append] at hd
  rcases hd with hsyntactic | hchecker | hfinding
  · obtain ⟨e, he, rfl⟩ := List.mem_map.mp hsyntactic
    exact .inl ⟨e, he, rfl⟩
  · exact .inr (.inl hchecker)
  · exact .inr (.inr (exists_name_of_mem_analyze hfinding))

theorem start_of_mem_report {d : Diagnostic} (hd : d ∈ (reportDiagnostics name text).value) :
    IsCut text.toList d.span.start := by
  rcases mem_report_cases hd with ⟨e, he, rfl⟩ | hchecker | ⟨v, w, hw, hspelled, rfl⟩
  · exact (syntaxError_lies_in he).start
  · exact (checkDiagnostic_lies_in hchecker).start
  · show IsCut text.toList v.name.span.start
    rw [hspelled.2]
    exact (cuts_of_mem_scan hw).1

theorem oneLine_source_of_mem_report {d : Diagnostic}
    (hd : d ∈ (reportDiagnostics name text).value) : ∀ source ∈ d.source, OneLine source := by
  rcases mem_report_cases hd with ⟨e, -, rfl⟩ | hchecker | ⟨v, w, -, -, rfl⟩
  · exact nofun
  · obtain ⟨e, -, rfl⟩ := mem_diagnostics.mp hchecker
    exact nofun
  · intro source hsource
    rw [← Option.some.inj hsource]
    decide

/-- **Where a message comes from that is more than one line:** from an escape sequence at which a
line ends, or from the checker when there is a string with a newline in it. -/
theorem oneLine_message_cases {d : Diagnostic} (hd : d ∈ (reportDiagnostics name text).value) :
    OneLine d.message ∨
      (∃ e, Except.error e ∈ scan text ∧ e.fault = .invalidEscape '\n' ∧
        d = (SyntaxError.ofLexical e).toDiagnostic name) ∨
      (d ∈ (recover name text).1.check.diagnostics ∧
        ∃ w value, Except.ok w ∈ scan text ∧ w.token = .string value ∧ ¬OneLine value) := by
  rcases mem_report_cases hd with ⟨e, he, rfl⟩ | hchecker | ⟨v, w, hw, hspelled, rfl⟩
  · rcases oneLine_syntaxError he with hline | ⟨l, hl, hfault, rfl⟩
    · exact .inl hline
    · exact .inr (.inl ⟨l, hl, hfault, rfl⟩)
  · by_cases htexts : ∀ shown ∈ (recover name text).1.texts, OneLine shown
    · exact .inl (oneLine_checkDiagnostic htexts hchecker)
    · push Not at htexts
      obtain ⟨shown, hshown, hbroken⟩ := htexts
      obtain ⟨w, hw, hvalue⟩ := (text_cases hshown).resolve_left hbroken
      exact .inr (.inr ⟨hchecker, w, shown, hw, hvalue, hbroken⟩)
  · exact .inl (oneLine_quoted (by decide) (oneLine_name hw hspelled.1) (by decide))

end Script

/-- The value of a string that has a newline in it. -/
def Token.ShowsNewline : Token → Prop
  | .string value => ¬OneLine value
  | _ => False

instance : (token : Token) → Decidable token.ShowsNewline
  | .string value => inferInstanceAs (Decidable (¬OneLine value))
  | .keyword _ | .identifier _ | .number _ | .punctuator _ => .isFalse id

/-- A message can show a newline because of this: a string with a newline in its value, or an
escape sequence at which a line ends. -/
def Scanned.ShowsNewline : Scanned → Prop
  | .ok w => w.token.ShowsNewline
  | .error e => e.fault = .invalidEscape '\n'

instance : (item : Scanned) → Decidable item.ShowsNewline
  | .ok w => inferInstanceAs (Decidable w.token.ShowsNewline)
  | .error e => inferInstanceAs (Decidable (e.fault = .invalidEscape '\n'))

/-- Without such a thing in the text each message is one line. -/
theorem oneLine_message_of_mem_report {name text : String}
    (h : ∀ item ∈ scan text, ¬Scanned.ShowsNewline item) {d : Diagnostic}
    (hd : d ∈ (reportDiagnostics name text).value) : OneLine d.message := by
  rcases Script.oneLine_message_cases hd with
    hline | ⟨e, he, hfault, -⟩ | ⟨-, w, value, hw, htoken, hbroken⟩
  · exact hline
  · exact absurd hfault (h _ he)
  · have hshows : w.token.ShowsNewline := by
      rw [htoken]
      exact hbroken
    exact absurd hshows (h _ hw)

/-- The lines of a report are unbroken just if the messages are. -/
theorem oneLine_reportLines_iff {name text : String} (hname : OneLine name) :
    (∀ line ∈ reportLines name text, OneLine line) ↔
      ∀ d ∈ (reportDiagnostics name text).value, OneLine d.message := by
  have hone : ∀ d ∈ (reportDiagnostics name text).value,
      (∀ line ∈ (Printer.new name text none).linesOf d, OneLine line) ↔ OneLine d.message :=
    fun d hd => Printer.oneLine_linesOf_iff hname (Script.oneLine_source_of_mem_report hd)
      (Script.start_of_mem_report hd)
  constructor
  · intro hall d hd
    exact (hone d hd).mp fun line hline => hall line (List.mem_flatMap.mpr ⟨d, hd, hline⟩)
  · intro hall line hline
    obtain ⟨d, hd, hmem⟩ := List.mem_flatMap.mp hline
    exact (hone d hd).mpr (hall d hd) line hmem

/-- **A report has four lines for each diagnostic, unless a message shows a newline.** The lines
are: where the diagnostic is, what it is and what it says; the line of the source behind its
number; the underline; and an empty line. Of these only the first can be broken, and only by the
message. So there are exactly four newlines for each diagnostic just if no message has one. A
message with a newline comes from an escape sequence at which a line of the source ends, which is
always told, or from the checker, and then some string in the text has a newline in its value. In a
text without either the lines of the report are those and no others. -/
theorem report_four_lines (name text : String) (hname : OneLine name) :
    (report name text none).value = inLines (reportLines name text) ∧
    (∀ d ∈ (reportDiagnostics name text).value, ∃ before after,
      text.toList = before ++ after ∧ d.span.start = byteLength before ∧
      (Printer.new name text none).linesOf d = [
        name ++ ":" ++ toString (before.count '\n' + 1) ++ ":"
          ++ toString ((lastLine before).length + 1) ++ " - " ++ d.category.word ++ " "
          ++ Printer.codeText d ++ ": " ++ d.message,
        toString (before.count '\n' + 1) ++ " "
          ++ String.ofList (trimLine (lastLine before ++ after.takeWhile fun c => c != '\n')),
        String.ofList (List.replicate
            ((toString (before.count '\n' + 1)).toList.length + 1 + (lastLine before).length) ' '
          ++ List.replicate ((Printer.new name text none).underlineWidth d.span) '~'),
        ""] ∧
      ((∀ line ∈ (Printer.new name text none).linesOf d, OneLine line) ↔ OneLine d.message)) ∧
    ((report name text none).value.toList.count '\n'
        = 4 * (reportDiagnostics name text).value.length ↔
      ∀ d ∈ (reportDiagnostics name text).value, OneLine d.message) ∧
    (∀ d ∈ (reportDiagnostics name text).value, ¬OneLine d.message →
      (∃ e, Except.error e ∈ scan text ∧ e.fault = .invalidEscape '\n' ∧
        d = (SyntaxError.ofLexical e).toDiagnostic name) ∨
      (d ∈ (Script.recover name text).1.check.diagnostics ∧
        ∃ w value, Except.ok w ∈ scan text ∧ w.token = .string value ∧ ¬OneLine value)) ∧
    (∀ e, Except.error e ∈ scan text → e.fault = .invalidEscape '\n' →
      ∃ d ∈ (reportDiagnostics name text).value, d.span = e.span ∧ ¬OneLine d.message) ∧
    ((∀ item ∈ scan text, ¬Scanned.ShowsNewline item) →
      (∀ line ∈ reportLines name text, OneLine line) ∧
      ∀ lines, (∀ line ∈ lines, OneLine line) → (report name text none).value = inLines lines →
        lines = reportLines name text ∧
        lines.length = 4 * (reportDiagnostics name text).value.length) := by
  have hlength : (reportLines name text).length = 4 * (reportDiagnostics name text).value.length :=
    Printer.length_flatMap_linesOf _ _
  refine ⟨value_report name text, fun d hd => ?_, ?_, fun d hd hbroken => ?_, fun e he hfault => ?_,
    fun h => ?_⟩
  · obtain ⟨before, after, htext, hstart⟩ := Script.start_of_mem_report hd
    exact ⟨before, after, htext, hstart, Printer.linesOf_eq htext hstart,
      Printer.oneLine_linesOf_iff hname (Script.oneLine_source_of_mem_report hd)
        (Script.start_of_mem_report hd)⟩
  · rw [← oneLine_reportLines_iff hname, ← count_inLines_eq_iff, value_report, hlength]
  · exact (Script.oneLine_message_cases hd).resolve_left hbroken
  · obtain ⟨types, hvalue⟩ := Script.value_reportDiagnostics name text
    refine ⟨(SyntaxError.ofLexical e).toDiagnostic name, ?_, rfl, ?_⟩
    · rw [hvalue]
      exact List.mem_append_left _ (List.mem_map_of_mem (Script.ofLexical_mem_recover he))
    · show ¬OneLine (e.fault.message ++ ".")
      rw [hfault]
      decide
  · have hlines := (oneLine_reportLines_iff hname).mpr fun d => oneLine_message_of_mem_report h
    refine ⟨hlines, fun lines hall heq => ?_⟩
    rw [value_report] at heq
    obtain rfl := inLines_inj hlines hall heq
    exact ⟨rfl, hlength⟩

/-- Three diagnostics of different kinds in a text of two lines. -/
theorem report_four_lines_three_kinds :
    OneLine "main.ts" ∧ (∀ item ∈ scan "let isX = 1;\r\ny # ;", ¬Scanned.ShowsNewline item) ∧
    (∀ line ∈ reportLines "main.ts" "let isX = 1;\r\ny # ;", OneLine line) ∧
    (report "main.ts" "let isX = 1;\r\ny # ;" none).value.toList.count '\n' = 4 * 3 := by
  have hname : OneLine "main.ts" := by decide
  have hscan : ∀ item ∈ scan "let isX = 1;\r\ny # ;", ¬Scanned.ShowsNewline item := by
    decide +kernel
  obtain ⟨-, -, hcount, -, -, hlines⟩ := report_four_lines "main.ts" "let isX = 1;\r\ny # ;" hname
  have hthree : (reportDiagnostics "main.ts" "let isX = 1;\r\ny # ;").value.length = 3 := by
    decide +kernel
  have hmessages := (oneLine_reportLines_iff hname).mp (hlines hscan).1
  rw [hthree] at hcount
  exact ⟨hname, hscan, (hlines hscan).1, hcount.mpr hmessages⟩

/-- The newline in a string breaks the line that shows its type, so the report on a file with one
diagnostic is not made of four lines. -/
theorem report_not_four_lines : OneLine "main.ts" ∧
    (reportDiagnostics "main.ts" "\"a\\nb\".foo;").value.length = 1 ∧
    ¬∃ lines : List String, lines.length = 4 ∧ (∀ line ∈ lines, OneLine line) ∧
      (report "main.ts" "\"a\\nb\".foo;" none).value = inLines lines := by
  refine ⟨by decide, by decide +kernel, ?_⟩
  rintro ⟨lines, hlength, hlines, hreport⟩
  have hcount := count_inLines_eq_iff.mpr hlines
  rw [← hreport, hlength] at hcount
  have hfive : (report "main.ts" "\"a\\nb\".foo;" none).value.toList.count '\n' = 5 := by
    decide +kernel
  omega

end ScriptLint
