import ScriptLint.Proofs.Layout.Lint
import ScriptLint.Proofs.Service.History
import ScriptLint.Proofs.Typing.Visits
import ScriptLint.Report
/-!
# Every diagnostic lies in its file

A text is aligned with itself at its cuts: the places where a character begins
or the text ends. The lexemes and lexical errors of the text start and end at
cuts, and a run over the text agrees with itself along this alignment. So all
places that the run takes from one part of the program to another are cuts:
those of the syntax errors, of the tree, of the symbols in the scopes and of
the errors of the checker. No place is made up on the way.

Key definitions: `IsCut`, `cutAlignment`, `Diagnostic.LiesIn`.
Key theorems: `cuts_of_mem_scan`, `Script.diagnostics_lie_in_file`.
-/

namespace ScriptLint

/-- A character of the text begins at the offset, or the text ends there. -/
def IsCut (text : List Char) (offset : Nat) : Prop :=
  ∃ before after, text = before ++ after ∧ offset = byteLength before

namespace IsCut

variable {text : List Char} {offset : Nat}

theorem le (h : IsCut text offset) : offset ≤ byteLength text := by
  obtain ⟨before, after, rfl, rfl⟩ := h
  rw [byteLength_append]
  exact Nat.le_add_right _ _

theorem zero : IsCut text 0 :=
  ⟨[], text, rfl, rfl⟩

theorem last : IsCut text (byteLength text) :=
  ⟨text, [], (List.append_nil text).symm, rfl⟩

theorem max {a b : Nat} (ha : IsCut text a) (hb : IsCut text b) : IsCut text (max a b) := by
  rcases Nat.le_total a b with hab | hab
  · rwa [Nat.max_eq_right hab]
  · rwa [Nat.max_eq_left hab]

end IsCut

/-- What is scanned begins and ends at cuts. -/
theorem scanFrom_cuts (cs : List Char) : ∀ before, ∀ item ∈ scanFrom (byteLength before) cs,
    IsCut (before ++ cs) item.span.start ∧ IsCut (before ++ cs) item.span.stop := by
  induction cs using munch_induction with
  | nil => simp [scanFrom]
  | cons c cs ih =>
    intro before item hitem
    have htext : c :: cs = (munch c cs).lead ++ ((munch c cs).body ++ (munch c cs).rest) :=
      (text_munch c cs).symm
    rw [scanFrom_cons, List.mem_append, Option.mem_toList] at hitem
    rcases hitem with hitem | hitem
    · rw [Munch.span_scanned? hitem, htext]
      refine ⟨⟨before ++ (munch c cs).lead, _, (List.append_assoc _ _ _).symm, ?_⟩,
        ⟨before ++ (munch c cs).lead ++ (munch c cs).body, (munch c cs).rest, ?_, ?_⟩⟩
      · rw [byteLength_append]
      · simp only [List.append_assoc]
      · rw [byteLength_append, byteLength_append]
        rfl
    · rw [← byteLength_append, ← byteLength_append] at hitem
      have hcuts := ih _ item hitem
      rw [htext]
      simpa only [List.append_assoc] using hcuts

theorem cuts_of_mem_scan {text : String} {item : Scanned} (h : item ∈ scan text) :
    IsCut text.toList item.span.start ∧ IsCut text.toList item.span.stop :=
  scanFrom_cuts text.toList [] item h

/-! ### A text aligned with itself -/

/-- The text is aligned with itself at its cuts. -/
def cutAlignment (text : List Char) : Alignment where
  starts a b := a = b ∧ IsCut text a
  stops a b := a = b ∧ IsCut text a
  le_iff := by
    rintro a b c d ⟨rfl, -⟩ ⟨rfl, -⟩
    exact Iff.rfl
  stops_of_starts := id
  stops_max := by
    rintro a b c d ⟨rfl, ha⟩ ⟨rfl, hc⟩
    exact ⟨rfl, ha.max hc⟩

theorem spans_cutAlignment {text : List Char} {s : Span} (hstart : IsCut text s.start)
    (hstop : IsCut text s.stop) : (cutAlignment text).Spans s s :=
  ⟨⟨rfl, hstart⟩, ⟨rfl, hstop⟩⟩

/-- At the start of a text a reader is at places that are cuts. -/
theorem alike_ofText_cuts (text : String) :
    (Parse.State.ofText text).Alike (cutAlignment text.toList) (Parse.State.ofText text) := by
  refine Parse.State.Alike.settle ⟨?_, ⟨rfl, ?_⟩, ⟨rfl, .zero⟩, rfl, [], rfl, .nil⟩
  · refine List.forall₂_same.mpr fun item hitem => ?_
    obtain ⟨hstart, hstop⟩ := cuts_of_mem_scan hitem
    cases item with
    | ok w => exact .ok rfl (spans_cutAlignment hstart hstop)
    | error e => exact .error rfl (spans_cutAlignment hstart hstop)
  · show IsCut text.toList text.utf8ByteSize
    rw [utf8ByteSize_eq_byteLength]
    exact .last

/-! ### Diagnostics -/

/-- The diagnostic names the file and lies in its text, between two cuts. -/
structure Diagnostic.LiesIn (name text : String) (d : Diagnostic) : Prop where
  file : d.file = name
  stop_le : d.span.start + d.span.length ≤ text.utf8ByteSize
  start : IsCut text.toList d.span.start
  stop : IsCut text.toList (d.span.start + d.span.length)

theorem Diagnostic.LiesIn.of_spans {name text : String} {d : Diagnostic} (hfile : d.file = name)
    (h : (cutAlignment text.toList).Spans d.span d.span) : d.LiesIn name text := by
  refine ⟨hfile, ?_, h.start.2, h.stop.2⟩
  rw [utf8ByteSize_eq_byteLength]
  exact h.stop.2.le

/-- The built-in rules find something at declared names only, whatever is switched off. -/
theorem Registry.exists_declared_of_mem_findings {booleanLike : Flags} {context : RuleContext}
    {disabled : List String} {d : Diagnostic}
    (h : d ∈ ((Registry.withBooleanLike booleanLike).findings context disabled).value) :
    d.file = context.script.name ∧ ∃ v ∈ context.script.declared, d.span = v.name.span := by
  unfold Registry.findings Traced.concat at h
  obtain ⟨found, hfound, hd⟩ := List.mem_flatMap.mp h
  obtain ⟨node, hnode, rfl⟩ := List.mem_map.mp hfound
  obtain ⟨visited, hvisited, hd⟩ := List.mem_flatMap.mp hd
  obtain ⟨rule, hrule, rfl⟩ := List.mem_map.mp hvisited
  obtain rfl : rule = Rule.booleanNaming booleanLike :=
    List.mem_singleton.mp (List.mem_filter.mp hrule).1
  rw [Rule.value_visit_booleanNaming] at hd
  obtain ⟨v, hv, hd⟩ := List.mem_flatMap.mp hd
  obtain ⟨finding, hfinding, rfl⟩ := List.mem_map.mp hd
  refine ⟨rfl, v, List.mem_filterMap.mpr ⟨node, hnode, Option.mem_toList.mp hv⟩, ?_⟩
  show finding.span = v.name.span
  unfold Rule.inspectDeclaration at hfinding
  dsimp only at hfinding
  split at hfinding
  · split at hfinding
    · cases hfinding
    · split at hfinding
      · cases hfinding
      · split at hfinding
        · rw [List.mem_singleton.mp hfinding]
        · cases hfinding
  · cases hfinding

namespace Script

/-- The tree of a text stands at cuts of the text. -/
theorem alike_recover (name text : String) :
    List.Forall₂ (Stmt.Alike (cutAlignment text.toList).Spans) (recover name text).1.body
      (recover name text).1.body :=
  (alike_readBody (alike_ofText_cuts text)).1

theorem syntaxError_lies_in {name text : String} {e : SyntaxError}
    (he : e ∈ (recover name text).2) : (e.toDiagnostic name).LiesIn name text := by
  have hlog := (alike_readBody (alike_ofText_cuts text)).2.log
  exact .of_spans rfl (List.forall₂_same.mp hlog e (List.mem_reverse.mp he)).span

theorem checkDiagnostic_lies_in {name text : String} {d : Diagnostic}
    (hd : d ∈ (recover name text).1.check.diagnostics) : d.LiesIn name text := by
  obtain ⟨e, he, rfl⟩ := List.mem_map.mp hd
  have hlog := (alike_checkedState (alike_recover name text)).log
  exact .of_spans rfl (List.forall₂_same.mp hlog e (List.mem_reverse.mp he)).span

theorem finding_lies_in {name text : String} {booleanLike : Flags} {types : TypeLookup}
    {disabled : List String} {d : Diagnostic}
    (hd : d ∈ ((Registry.withBooleanLike booleanLike).analyze (recover name text).1 types
      disabled).value) : d.LiesIn name text := by
  obtain ⟨hfile, v, hv, hspan⟩ := Registry.exists_declared_of_mem_findings hd
  rw [declared_eq] at hv
  have hdeclared := Stmt.declaratorsAll_alike (alike_recover name text)
  refine .of_spans hfile ?_
  rw [hspan]
  exact (List.forall₂_same.mp hdeclared v hv).name.span

/-- What is reported on a file alone: its syntax errors, then the errors of the checker and the
findings of the rule. -/
theorem value_reportDiagnostics (name text : String) : ∃ types,
    (reportDiagnostics name text).value =
      (recover name text).2.map (SyntaxError.toDiagnostic name) ++
        ((recover name text).1.check.diagnostics ++
          (Registry.standard.analyze (recover name text).1 types []).value) := by
  refine ⟨(Workspace.new.add name text).value.program.types, ?_⟩
  have hfile : (Workspace.new.add name text).value.file? name
      = some ⟨(recover name text).1, (recover name text).2, (recover name text).1.check⟩ :=
    List.find?_cons_of_pos (beq_iff_eq.mpr rfl)
  have hprogram : (Workspace.new.add name text).value.service.program?
      = some (Workspace.new.add name text).value.program := rfl
  have hscript : (Workspace.new.add name text).value.program.script? name
      = some (recover name text).1 := by
    rw [Workspace.script?_program, hfile]
    rfl
  show ((Workspace.new.add name text).value.ask name _).value ++
    (((Workspace.new.add name text).value.ask name _).value ++ _) = _
  rw [Workspace.value_ask, Workspace.value_ask, hfile]
  refine congrArg _ (congrArg _ ?_)
  show (Proxy.extra ⟨(Workspace.new.add name text).value.service, Registry.standard,
    PluginConfig.standard⟩ name).value = _
  unfold Proxy.extra
  rw [hprogram]
  simp only [hscript]
  rfl

/-- **Every diagnostic lies in its file:** the syntax errors of a text, the errors of the checker
and the findings of the naming rule, whatever counts as boolean-like and whatever is switched off,
and all that is reported on the file alone. No two errors of the checker have one number and one
start. -/
theorem diagnostics_lie_in_file (name text : String) :
    (∀ e ∈ (recover name text).2, (e.toDiagnostic name).LiesIn name text) ∧
    (∀ d ∈ (recover name text).1.check.diagnostics, d.LiesIn name text) ∧
    (∀ booleanLike types disabled, ∀ d ∈ ((Registry.withBooleanLike booleanLike).analyze
      (recover name text).1 types disabled).value, d.LiesIn name text) ∧
    (∀ d ∈ (reportDiagnostics name text).value, d.LiesIn name text) ∧
    (recover name text).1.check.diagnostics.Pairwise fun d d' =>
      ¬(d.code = d'.code ∧ d.span.start = d'.span.start) := by
  refine ⟨fun e => syntaxError_lies_in, fun d => checkDiagnostic_lies_in,
    fun _ _ _ d => finding_lies_in, fun d hd => ?_, distinct_diagnostics _⟩
  obtain ⟨types, hvalue⟩ := value_reportDiagnostics name text
  rw [hvalue, List.mem_append, List.mem_append] at hd
  rcases hd with hsyntactic | hchecker | hfinding
  · obtain ⟨e, he, rfl⟩ := List.mem_map.mp hsyntactic
    exact syntaxError_lies_in he
  · exact checkDiagnostic_lies_in hchecker
  · exact finding_lies_in hfinding

end Script

end ScriptLint
