import Mathlib.Data.List.Basic
import ScriptLint.Lint
import ScriptLint.Proofs.Parsing.SoundStatement
import ScriptLint.Proofs.Syntax.Declared
/-!
# What the naming rule finds

The naming rule looks at every node of a script, but only at the names of
declared variables does it find anything: it reports each name that promises
a truth value and has a known type that is none, once and at its own place.
In a script that was read from its text every name lies in the text, so no
finding is dropped, and the findings come in the order of the text.

Key definitions: `Rule.misnamed`, `Rule.renameFinding`.
Key theorems: `Registry.value_findings`, `lint_value`, `lint_findings`.
-/

namespace ScriptLint

/-! ### The rule on its own -/

namespace Rule

/-- The name promises a truth value, and its type is known and has none of the given flags. -/
def misnamed (booleanLike : Flags) (types : Declarator → Option Ty) (d : Declarator) : Bool :=
  claimsBoolean d.name.name && (types d).any fun type => !type.flags.intersects booleanLike

/-- What the rule says about a misnamed variable in a file. -/
def renameFinding (file : String) (d : Declarator) : Diagnostic where
  file := file
  span := d.name.span
  message := renameMessage d.name.name
  category := .error
  source := some "dotJS"
  code := 42

/-- At a name that lies in the text the rule finds just what is misnamed. -/
theorem value_inspectDeclaration {booleanLike : Flags} {context : RuleContext} {d : Declarator}
    (h : context.script.span.contains d.name.span = true) :
    (inspectDeclaration booleanLike context d).value =
      if misnamed booleanLike (context.types context.script) d
      then [⟨d.name.span, renameMessage d.name.name⟩] else [] := by
  unfold inspectDeclaration misnamed
  by_cases hname : claimsBoolean d.name.name = true
  · cases htype : context.types context.script d with
    | none => simp [hname]
    | some type =>
      by_cases hflags : type.flags.intersects booleanLike = true
      · simp [hname, hflags]
      · simp [hname, hflags, h]
  · simp [hname]

theorem value_visit_booleanNaming (booleanLike : Flags) (context : RuleContext) (node : Node) :
    ((booleanNaming booleanLike).visit context node).value =
      node.declared?.toList.flatMap fun d =>
        (inspectDeclaration booleanLike context d).value.map
          ((booleanNaming booleanLike).toDiagnostic context.script.name) := by
  unfold visit booleanNaming Node.declared?
  cases h : node.form <;> simp [h]

end Rule

/-- A list with a choice at every place is a list of the chosen. -/
theorem flatMap_ite {α β : Type} (p : α → Bool) (f : α → β) (as : List α) :
    (as.flatMap fun a => if p a then [f a] else []) = (as.filter p).map f := by
  induction as with
  | nil => rfl
  | cons a as ih => by_cases h : p a = true <;> simp [h, ih]

/-- **The built-in rules find what is misnamed and nothing else,** as long as every declared name
lies in the text. -/
theorem Registry.value_findings {booleanLike : Flags} {context : RuleContext}
    (h : ∀ d ∈ context.script.declared, context.script.span.contains d.name.span = true) :
    ((Registry.withBooleanLike booleanLike).findings context []).value =
      (context.script.declared.filter
        (Rule.misnamed booleanLike (context.types context.script))).map
        (Rule.renameFinding context.script.name) := by
  have hrules : (Registry.withBooleanLike booleanLike).enabled []
      = [Rule.booleanNaming booleanLike] := rfl
  have hvalue : ((Registry.withBooleanLike booleanLike).findings context []).value =
      context.script.declared.flatMap fun d =>
        (Rule.inspectDeclaration booleanLike context d).value.map
          ((Rule.booleanNaming booleanLike).toDiagnostic context.script.name) := by
    unfold Registry.findings Traced.concat Script.declared
    rw [hrules]
    simp only [List.map_cons, List.map_nil, List.flatMap_map, List.flatMap_cons, List.flatMap_nil,
      List.append_nil, Rule.value_visit_booleanNaming]
    induction context.script.outline.nodes with
    | nil => rfl
    | cons node nodes ih =>
      rw [List.flatMap_cons, ih, List.filterMap_cons]
      cases node.declared? <;> simp
  rw [hvalue, ← flatMap_ite]
  refine List.flatMap_congr fun d hd => ?_
  rw [Rule.value_inspectDeclaration (h d hd)]
  split <;> rfl

/-! ### Scripts that were read from their texts -/

namespace Script

variable {name text : String} {script : Script}

/-- The names of the variables stand among the lexemes of the text. -/
theorem names_within (h : parse name text = .ok script) :
    ∃ ws, tokenize text = .ok ws ∧ NamesWithin (script.declared.map Declarator.name) ws := by
  obtain ⟨rfl, hlog⟩ := parse_eq_ok.mp h
  obtain ⟨ws, hws, hspells, -⟩ := spells_readBody hlog
  refine ⟨ws, hws, ?_⟩
  rw [declared_eq]
  exact hspells.names_within

/-- The slice of the text at a declared name is that name. -/
theorem slice?_declared (h : parse name text = .ok script) {d : Declarator}
    (hd : d ∈ script.declared) : slice? d.name.span text.toList = some d.name.name.toList := by
  obtain ⟨ws, hws, hnames⟩ := names_within h
  obtain ⟨w, hw, hspelled⟩ := hnames.spelled d.name (List.mem_map_of_mem hd)
  rw [hspelled.2]
  exact (placed_of_tokenize hws hw).slice?_eq hspelled.1

/-- A declared name lies in the text. -/
theorem contains_declared (h : parse name text = .ok script) {d : Declarator}
    (hd : d ∈ script.declared) : script.span.contains d.name.span = true := by
  obtain ⟨ws, hws, hnames⟩ := names_within h
  obtain ⟨w, hw, hspelled⟩ := hnames.spelled d.name (List.mem_map_of_mem hd)
  have hstop := (placed_of_tokenize hws hw).stop_le
  obtain ⟨rfl, -⟩ := parse_eq_ok.mp h
  rw [← utf8ByteSize_eq_byteLength, ← hspelled.2] at hstop
  refine decide_eq_true ⟨Nat.zero_le _, ?_⟩
  simpa [Span.stop, Script.span] using hstop

/-- Of two declared names the later one starts later in the text. -/
theorem declared_increasing (h : parse name text = .ok script) :
    script.declared.Pairwise fun d d' => d.name.span.start < d'.name.span.start := by
  obtain ⟨ws, hws, hnames⟩ := names_within h
  have hspans : (ws.map Lexeme.span).Pairwise fun s t => s.start < t.start :=
    List.pairwise_map.mpr (starts_of_tokenize hws)
  have hnamed := hspans.sublist hnames.spans
  rwa [List.pairwise_map, List.pairwise_map] at hnamed

end Script

/-- What linting a script yields: the errors of the checker, then what is misnamed. -/
theorem lint_value {name text : String} {script : Script} (h : Script.parse name text = .ok script) :
    (lint name text).value = .ok (script.check.diagnostics ++
      (script.declared.filter
        (Rule.misnamed Flags.booleanLike fun d => script.check.typeAt? d.name.span.start)).map
        (Rule.renameFinding name)) := by
  have hfound := @Registry.value_findings Flags.booleanLike ⟨script, script.check.typeOf?⟩
    fun d hd => Script.contains_declared h hd
  have hname : script.name = name := by
    obtain ⟨rfl, -⟩ := Script.parse_eq_ok.mp h
    rfl
  have htypes : script.check.typeOf? script =
      fun d => script.check.typeAt? d.name.span.start := by
    funext d
    exact if_pos rfl
  have hvalue : (Registry.standard.analyze script script.checkTraced.value.typeOf? []).value =
      (script.declared.filter
        (Rule.misnamed Flags.booleanLike fun d => script.check.typeAt? d.name.span.start)).map
        (Rule.renameFinding name) := by
    rw [← htypes, ← hname]
    exact hfound
  have hstrict : Script.parseStrict name text = .ok script := by
    rw [Script.parseStrict, h]
    rfl
  unfold lint
  rw [hstrict]
  exact congrArg (fun found => Except.ok (script.check.diagnostics ++ found)) hvalue

/-- A script that cannot be read is not linted. -/
theorem lint_error {name text : String} {errors : List SyntaxError}
    (h : Script.parse name text = .error errors) :
    (lint name text).value = .error (.syntactic name errors) := by
  have hstrict : Script.parseStrict name text = .error (.syntactic name errors) := by
    rw [Script.parseStrict, h]
    rfl
  unfold lint
  rw [hstrict]
  rfl

/-- **What linting finds.** The errors of the checker come first and unchanged; behind them stands
one finding for each variable of the script, however deep it is declared, that promises a truth
value and has a type without one, and no other finding. The findings come in the order of the text,
and each lies at the name that it is about. -/
theorem lint_findings {name text : String} {script : Script}
    (h : Script.parse name text = .ok script) :
    ∃ found : List Diagnostic,
      (lint name text).value = .ok (script.check.diagnostics ++ found) ∧
      found = ((Stmt.declaratorsAll script.body).filter
        (Rule.misnamed Flags.booleanLike fun d => script.check.typeAt? d.name.span.start)).map
          (Rule.renameFinding name) ∧
      found.Pairwise (fun d d' => d.span.start < d'.span.start) ∧
      ∀ d ∈ found, ∃ declared : String,
        slice? d.span text.toList = some declared.toList ∧ d.message = Rule.renameMessage declared := by
  refine ⟨_, lint_value h, ?_, ?_, ?_⟩
  · rw [Script.declared_eq]
  · rw [List.pairwise_map]
    exact (Script.declared_increasing h).filter _
  · intro finding hfinding
    obtain ⟨d, hd, rfl⟩ := List.mem_map.mp hfinding
    exact ⟨d.name.name, Script.slice?_declared h (List.mem_filter.mp hd).1, rfl⟩

/-- The theorem at a script with misnamed variables in the header and in the body of a loop. -/
theorem lint_findings_nested : ∃ script found,
    Script.parse "a.ts" "for (let isX = 1; isX; ) let isY = true, isZ = []" = .ok script ∧
    (lint "a.ts" "for (let isX = 1; isX; ) let isY = true, isZ = []").value
      = .ok (script.check.diagnostics ++ found) ∧
    found.length = 2 ∧ found.Pairwise fun d d' => d.span.start < d'.span.start := by
  have hok : (Script.parse "a.ts" "for (let isX = 1; isX; ) let isY = true, isZ = []").toOption.map
      (fun script => ((Stmt.declaratorsAll script.body).filter
        (Rule.misnamed Flags.booleanLike fun d => script.check.typeAt? d.name.span.start)).length)
      = some 2 := by
    decide +kernel
  cases h : Script.parse "a.ts" "for (let isX = 1; isX; ) let isY = true, isZ = []" with
  | error errors => simp [h, Except.toOption] at hok
  | ok script =>
    obtain ⟨found, hvalue, hfound, hpair, -⟩ := lint_findings h
    refine ⟨script, found, rfl, hvalue, ?_, hpair⟩
    rw [hfound, List.length_map]
    simpa [h, Except.toOption] using hok

end ScriptLint
