import ScriptLint.Proofs.Layout.Parsing
import ScriptLint.Proofs.Layout.Typing
import ScriptLint.Proofs.Rule.Findings
/-!
# Linting does not depend on layout

Two texts with the same tokens differ in blanks and comments alone. They are
read, checked and linted alike: both are accepted, with the same findings,
or both are refused, with the same errors, and what is found lies at tokens
with the same number.

Key definitions: `tokenStarts`, `SameToken`, `Linted.Alike`.
Key theorems: `lint_layout`.
-/

namespace ScriptLint

/-! ### Tokens with the same number -/

/-- Where the tokens of a text start. The end of the text counts as one more token. -/
def tokenStarts (text : String) (ws : List Lexeme) : List Nat :=
  ws.map (fun w => w.span.start) ++ [text.utf8ByteSize]

/-- Two offsets that stand in two lists under the same number. -/
def SameToken (xs ys : List Nat) (a b : Nat) : Prop :=
  ∃ i : Nat, xs[i]? = some a ∧ ys[i]? = some b

/-- The tokens of a text start one after the other, and the text ends behind the last. -/
theorem tokenStarts_increasing {text : String} {ws : List Lexeme} (h : tokenize text = .ok ws) :
    (tokenStarts text ws).Pairwise (· < ·) := by
  rw [tokenStarts, List.pairwise_append]
  refine ⟨List.pairwise_map.mpr (starts_of_tokenize h), List.pairwise_singleton _ _, ?_⟩
  intro a ha b hb
  obtain ⟨w, hw, rfl⟩ := List.mem_map.mp ha
  have hplaced := placed_of_tokenize h hw
  have hpos := hplaced.length_pos
  have hstop := hplaced.stop_le
  rw [← utf8ByteSize_eq_byteLength, Span.stop] at hstop
  rw [List.mem_singleton.mp hb]
  omega

theorem le_iff_of_increasing {xs : List Nat} (hxs : xs.Pairwise (· < ·)) {i j a b : Nat}
    (ha : xs[i]? = some a) (hb : xs[j]? = some b) : a ≤ b ↔ i ≤ j := by
  obtain ⟨hi, rfl⟩ := List.getElem?_eq_some_iff.mp ha
  obtain ⟨hj, rfl⟩ := List.getElem?_eq_some_iff.mp hb
  have hlt := List.pairwise_iff_getElem.mp hxs
  rcases Nat.lt_trichotomy i j with hij | hij | hij
  · have := hlt i j hi hj hij
    omega
  · subst hij
    omega
  · have := hlt j i hj hi hij
    omega

/-- Texts are aligned by the numbers of their tokens. Where a token ends does not matter. -/
def tokenAlignment {xs ys : List Nat} (hxs : xs.Pairwise (· < ·)) (hys : ys.Pairwise (· < ·)) :
    Alignment where
  starts := SameToken xs ys
  stops _ _ := True
  le_iff := by
    rintro a b c d ⟨i, ha, hb⟩ ⟨j, hc, hd⟩
    rw [le_iff_of_increasing hxs ha hc, le_iff_of_increasing hys hb hd]
  stops_of_starts _ := trivial
  stops_max _ _ := trivial

section TwoTexts

variable {text text' : String} {ws ws' : List Lexeme} {A : Alignment}

/-- At the start of two texts with the same tokens a reader is at corresponding places. -/
theorem alike_ofText (h : tokenize text = .ok ws) (h' : tokenize text' = .ok ws')
    (hsame : ws.map Lexeme.token = ws'.map Lexeme.token) :
    Parse.State.Alike
      (tokenAlignment (tokenStarts_increasing h) (tokenStarts_increasing h'))
      (Parse.State.ofText text) (Parse.State.ofText text') := by
  have hlength : ws.length = ws'.length := by
    simpa using congrArg List.length hsame
  refine Parse.State.Alike.settle ⟨?_, ⟨ws.length, ?_, ?_⟩, trivial, rfl, [], rfl, .nil⟩
  · show List.Forall₂ _ (scan text) (scan text')
    rw [tokenize_eq_ok.mp h, tokenize_eq_ok.mp h', List.forall₂_map_left_iff,
      List.forall₂_map_right_iff, List.forall₂_iff_get]
    refine ⟨hlength, fun i hi hi' => .ok ?_ ⟨⟨i, ?_, ?_⟩, trivial⟩⟩
    · have htoken := congrArg (fun tokens : List Token => tokens[i]?) hsame
      simpa [hi, hi'] using htoken
    · simp [tokenStarts, List.getElem?_append, hi]
    · simp [tokenStarts, List.getElem?_append, hi']
  · simp [tokenStarts]
  · simp [tokenStarts, hlength]

/-! ### Scripts -/

/-- What is read from corresponding places is alike. -/
theorem alike_readBody
    (h : (Parse.State.ofText text).Alike A (Parse.State.ofText text')) :
    List.Forall₂ (Stmt.Alike A.Spans) (Script.readBody text).1 (Script.readBody text').1 ∧
      (Script.readBody text).2.Alike A (Script.readBody text').2 := by
  have hrun := Parse.agree_statements none (Parse.agree_statement nestingLimit) _ _ h
  unfold Script.readBody
  generalize Parse.statements (Parse.statement nestingLimit) none (.ofText text) = r at hrun ⊢
  generalize Parse.statements (Parse.statement nestingLimit) none (.ofText text') = r' at hrun ⊢
  cases hrun with
  | ok hbody hstate => exact ⟨hbody, hstate⟩
  | error he hstate => exact ⟨.nil, hstate.note he⟩

theorem alike_initial : Typing.State.initial.Alike A Typing.State.initial :=
  ⟨⟨.cons .nil .nil, rfl⟩, .nil, rfl, rfl, .nil⟩

/-- What is known behind the last statements is alike. -/
theorem alike_checkedState {script script' : Script}
    (h : List.Forall₂ (Stmt.Alike A.Spans) script.body script'.body) :
    script.checkedState.Alike A script'.checkedState :=
  (Check.agree_together h _ _ alike_initial).2

end TwoTexts

mutual

/-- The variables of trees that are alike are alike. -/
theorem Stmt.Alike.declarators {ρ : Span → Span → Prop} : ∀ {a b : Stmt}, a.Alike ρ b →
    List.Forall₂ (Declarator.Alike ρ) a.declarators b.declarators
  | _, _, .variables h _ => h.declarators
  | _, _, .function _ hs _ _ => Stmt.declaratorsAll_alike hs
  | _, _, .block hs _ => Stmt.declaratorsAll_alike hs
  | _, _, .ifThen _ h _ => h.declarators
  | _, _, .ifElse _ h h' _ => List.rel_append h.declarators h'.declarators
  | _, _, .whileLoop _ h _ => h.declarators
  | _, _, .forLoop hstart _ _ h _ => by
    refine List.rel_append ?_ h.declarators
    rcases hstart with ⟨hd | _⟩ | _
    · simpa [ForStart.declarators] using hd.declarators
    · exact .nil
    · exact .nil
  | _, _, .returns _ _ => .nil
  | _, _, .expression _ _ => .nil

theorem Stmt.declaratorsAll_alike {ρ : Span → Span → Prop} : ∀ {as bs : List Stmt},
    List.Forall₂ (Stmt.Alike ρ) as bs →
    List.Forall₂ (Declarator.Alike ρ) (Stmt.declaratorsAll as) (Stmt.declaratorsAll bs)
  | _, _, .nil => .nil
  | _, _, .cons h hs => List.rel_append h.declarators (Stmt.declaratorsAll_alike hs)

end

/-! ### Findings -/

/-- One finding in two texts, at corresponding starts. -/
structure Diagnostic.Alike (starts : Nat → Nat → Prop) (d d' : Diagnostic) : Prop where
  file : d.file = d'.file
  code : d.code = d'.code
  message : d.message = d'.message
  category : d.category = d'.category
  source : d.source = d'.source
  start : starts d.span.start d'.span.start

/-- Two runs that ended alike: both with findings, or both with syntax errors. One problem has one
number and one wording. -/
inductive Linted.Alike (starts : Nat → Nat → Prop) :
    Except Failure (List Diagnostic) → Except Failure (List Diagnostic) → Prop where
  | ok {ds ds' : List Diagnostic} :
    List.Forall₂ (Diagnostic.Alike starts) ds ds' → Alike starts (.ok ds) (.ok ds')
  | error {file : String} {es es' : List SyntaxError} :
    List.Forall₂ (SyntaxError.Alike fun s t => starts s.start t.start) es es' →
      Alike starts (.error (.syntactic file es)) (.error (.syntactic file es'))

theorem alike_misnamed {A : Alignment} {c c' : CheckedScript} (h : RecordedAlike A c.types c'.types)
    (booleanLike : Flags) {d d' : Declarator} (hd : d.Alike A.Spans d') :
    Rule.misnamed booleanLike (fun d => c.typeAt? d.name.span.start) d =
      Rule.misnamed booleanLike (fun d => c'.typeAt? d.name.span.start) d' := by
  rw [Rule.misnamed, Rule.misnamed, hd.name.name, CheckedScript.typeAt?, CheckedScript.typeAt?,
    h.lookup hd.name.span.start]

section Scripts

variable {A : Alignment} (script script' : Script)

/-- The errors of the checker are the same in trees that are alike. -/
theorem alike_diagnostics (hname : script.name = script'.name)
    (h : List.Forall₂ (Stmt.Alike A.Spans) script.body script'.body) :
    List.Forall₂ (Diagnostic.Alike A.starts) script.check.diagnostics script'.check.diagnostics := by
  have herrors := List.forall₂_reverse_iff.mpr (alike_checkedState h).log
  refine List.forall₂_map_left_iff.mpr (List.forall₂_map_right_iff.mpr (herrors.imp fun e e' he => ?_))
  refine ⟨hname, ?_, ?_, rfl, rfl, he.span.start⟩
  · exact congrArg TypeProblem.code he.problem
  · exact congrArg TypeProblem.message he.problem

/-- The misnamed variables are the same in trees that are alike. -/
theorem alike_findings (name : String)
    (h : List.Forall₂ (Stmt.Alike A.Spans) script.body script'.body) :
    List.Forall₂ (Diagnostic.Alike A.starts)
      ((script.declared.filter (Rule.misnamed Flags.booleanLike
        fun d => script.check.typeAt? d.name.span.start)).map (Rule.renameFinding name))
      ((script'.declared.filter (Rule.misnamed Flags.booleanLike
        fun d => script'.check.typeAt? d.name.span.start)).map (Rule.renameFinding name)) := by
  have htypes : RecordedAlike A script.check.types script'.check.types :=
    (alike_checkedState h).types
  have hdeclared : List.Forall₂ (Declarator.Alike A.Spans) script.declared script'.declared := by
    rw [Script.declared_eq, Script.declared_eq]
    exact Stmt.declaratorsAll_alike h
  have hfound := List.rel_filter (fun d d' hd =>
    Bool.eq_iff_iff.mp (alike_misnamed htypes Flags.booleanLike hd)) hdeclared
  refine List.forall₂_map_left_iff.mpr (List.forall₂_map_right_iff.mpr (hfound.imp fun d d' hd => ?_))
  exact ⟨rfl, rfl, congrArg Rule.renameMessage hd.name.name, rfl, rfl, hd.name.span.start⟩

end Scripts

/-- **Linting does not depend on layout.** Two texts with the same tokens are both accepted, with
the same findings in the same order, or both refused, with the same errors in the same order; and
each finding and each error starts at the token with the same number. -/
theorem lint_layout {name text text' : String} {ws ws' : List Lexeme}
    (h : tokenize text = .ok ws) (h' : tokenize text' = .ok ws')
    (hsame : ws.map Lexeme.token = ws'.map Lexeme.token) :
    Linted.Alike (SameToken (tokenStarts text ws) (tokenStarts text' ws'))
      (lint name text).value (lint name text').value := by
  obtain ⟨hbody, hstate⟩ := alike_readBody (alike_ofText h h' hsame)
  have hlog := hstate.log
  by_cases hok : (Script.readBody text).2.log = []
  · have hok' : (Script.readBody text').2.log = [] := by
      rw [hok] at hlog
      exact List.forall₂_nil_left_iff.mp hlog
    rw [lint_value (Script.parse_eq_ok.mpr ⟨rfl, hok⟩), lint_value (Script.parse_eq_ok.mpr ⟨rfl, hok'⟩)]
    refine .ok (List.rel_append ?_ ?_)
    · exact alike_diagnostics ⟨name, text, _⟩ ⟨name, text', _⟩ rfl hbody
    · exact alike_findings ⟨name, text, _⟩ ⟨name, text', _⟩ name hbody
  · have hok' : (Script.readBody text').2.log ≠ [] := by
      intro hnil
      rw [hnil] at hlog
      exact hok (List.forall₂_nil_right_iff.mp hlog)
    rw [lint_error (Script.parse_eq_error hok), lint_error (Script.parse_eq_error hok')]
    refine .error ((List.forall₂_reverse_iff.mpr hlog).imp fun e e' he => ?_)
    exact ⟨he.problem, he.span.start⟩

/-- The theorem at two layouts of a script with a misnamed variable. -/
theorem lint_layout_spread : ∃ ws ws',
    tokenize "let isA=1" = .ok ws ∧ tokenize " let // a\n isA = 1 " = .ok ws' ∧
      Linted.Alike (SameToken (tokenStarts "let isA=1" ws) (tokenStarts " let // a\n isA = 1 " ws'))
        (lint "a.ts" "let isA=1").value (lint "a.ts" " let // a\n isA = 1 ").value := by
  have hsame : (tokenize "let isA=1").toOption.map (List.map Lexeme.token)
      = (tokenize " let // a\n isA = 1 ").toOption.map (List.map Lexeme.token) := by
    decide +kernel
  have hok : (tokenize "let isA=1").toBool = true := by
    decide +kernel
  cases h : tokenize "let isA=1" with
  | error e => simp [h, Except.toBool] at hok
  | ok ws =>
    cases h' : tokenize " let // a\n isA = 1 " with
    | error e => simp [h, h', Except.toOption] at hsame
    | ok ws' =>
      refine ⟨ws, ws', rfl, rfl, lint_layout h h' ?_⟩
      simpa [h, h', Except.toOption] using hsame

end ScriptLint
