import ScriptLint.Proofs.Parsing.CompleteStatement
import ScriptLint.Proofs.Token.Closing
import ScriptLint.Proofs.Types.Depth
import ScriptLint.Proofs.Typing.Footprints
import ScriptLint.Typing.CheckedScript
/-!
# Types that are higher than every tree

No tree is higher than the limit allows, but the types of its variables can
be. A `var` may be declared again, and each `var a = [a];` puts one pair of
brackets more behind the type of `a`. So in the text

`var a = true; var a = [a]; var a = [a]; a = [a];`

which goes on as long as one likes, all statements are as low as these, and
the last one compares a type with `n + 1` pairs of brackets to one with `n`.

Key definitions: `wrappings`, `wrappedOftenText`.
Key theorems: `readAs_wrappings`, `Check.log_wrappings`, `Script.compares_arrayed`.
-/

namespace ScriptLint

/-! ### Statements about one variable -/

/-- The array `[a]`. -/
def wrapped : Expr :=
  .array [.identifier ⟨"a", .emptyAt 0⟩] (.emptyAt 0)

/-- The statement `var a = value;`. -/
def redeclaration (value : Expr) : Stmt :=
  .variables ⟨.varKind, [⟨⟨"a", .emptyAt 0⟩, none, some value, .emptyAt 0⟩], .emptyAt 0⟩ (.emptyAt 0)

/-- The assignment `a = [a]`. -/
def storing : Expr :=
  .assignment .simple (.identifier ⟨"a", .emptyAt 0⟩) wrapped (.emptyAt 0)

/-- Wraps the variable `n` times, and stores it wrapped once more. -/
def wrappings : Nat → List Stmt
  | 0 => [.expression storing (.emptyAt 0)]
  | n + 1 => redeclaration wrapped :: wrappings n

/-- A declaration of `a`, and `n` wrappings behind it. -/
def wrappedOften (n : Nat) : List Stmt :=
  redeclaration (.boolean true (.emptyAt 0)) :: wrappings n

/-- What is like a declaration of `a` is one, at other places. -/
theorem alike_redeclaration {value : Expr} {x : Stmt}
    (h : (redeclaration value).Alike anyPlace x) : ∃ v e o o' o'',
      x = .variables ⟨.varKind, [⟨v, none, some e, o⟩], o'⟩ o'' ∧ v.name = "a" ∧
        value.Alike anyPlace e := by
  match x, h with
  | .variables ⟨kind, declarators, o'⟩ o'', .variables ⟨hkind, hdeclarators, _⟩ _ =>
    obtain rfl : kind = .varKind := hkind.symm
    match declarators, hdeclarators with
    | [⟨v, declared, initializer, o⟩], .cons ⟨hname, hdeclared, hinitializer, _⟩ .nil =>
      match declared, hdeclared, initializer, hinitializer with
      | none, .none, some e, .some he => exact ⟨v, e, o, o', o'', rfl, hname.name.symm, he⟩

theorem grouped_wrappings : ∀ n, Stmt.GroupedAll (wrappings n)
  | 0 => by simp [wrappings, storing, wrapped, Stmt.GroupedAll, Stmt.Grouped, Expr.Grouped,
      Expr.GroupedAll, Expr.isAssignable]
  | n + 1 => by
    refine ⟨?_, grouped_wrappings n⟩
    simp [redeclaration, wrapped, Stmt.Grouped, Declaration.Grouped, Expr.Grouped, Expr.GroupedAll]

theorem grouped_wrappedOften (n : Nat) : Stmt.GroupedAll (wrappedOften n) :=
  ⟨by simp [redeclaration, Stmt.Grouped, Declaration.Grouped, Expr.Grouped], grouped_wrappings n⟩

theorem readable_redeclaration {value : Expr} (h : value.Readable) : (redeclaration value).Readable := by
  refine ⟨by simp, List.forall_mem_singleton.mpr ⟨by rfl, by simp, ?_⟩⟩
  rintro _ ⟨⟩
  exact h

theorem readable_wrappings : ∀ n, Stmt.ReadableAll (wrappings n)
  | 0 => ⟨⟨by rfl, by rfl, trivial⟩, trivial⟩
  | n + 1 => ⟨readable_redeclaration ⟨by rfl, trivial⟩, readable_wrappings n⟩

theorem readable_wrappedOften (n : Nat) : Stmt.ReadableAll (wrappedOften n) :=
  ⟨readable_redeclaration trivial, readable_wrappings n⟩

/-- The statements are no deeper for being many. -/
theorem need_wrappings (n : Nat) : (Stmt.tollAll (wrappings n)).need = 4 := by
  induction n with
  | zero => decide
  | succ n ih =>
    have hfirst : (redeclaration wrapped).toll.need = 2 := by decide
    simp only [wrappings, Stmt.tollAll, Toll.andThen, Toll.within, hfirst, ih]
    decide

theorem need_wrappedOften (n : Nat) : (Stmt.tollAll (wrappedOften n)).need = 4 := by
  have hfirst : (redeclaration (.boolean true (.emptyAt 0))).toll.need = 1 := by decide
  simp only [wrappedOften, Stmt.tollAll, Toll.andThen, Toll.within, hfirst, need_wrappings]
  decide

/-! ### Their text -/

/-- The text of `var a = value;`. -/
def redeclarationText (value : List Char) : List Char :=
  "var a =".toList ++ ' ' :: (value ++ [';'])

/-- The text of the wrappings. -/
def wrappingsText : Nat → List Char
  | 0 => "a = [ a];".toList
  | n + 1 => redeclarationText "[ a]".toList ++ ' ' :: wrappingsText n

/-- The text of the declaration and of the wrappings behind it. -/
def wrappedOftenText (n : Nat) : String :=
  String.ofList (redeclarationText "true".toList ++ ' ' :: wrappingsText n)

theorem readAs_a : ReadAs ['a'] [.identifier "a"] :=
  .spelled (.name rfl (by simp) fun word => by cases word <;> decide)

theorem readAs_equal : ReadAs ['='] [.punctuator .equal] :=
  .spelled (.sign .equal)

theorem readAs_wrapped : ReadAs "[ a]".toList wrapped.tokens := by
  have hleft : ReadAs ['['] [.punctuator .leftBracket] := .spelled (.sign .leftBracket)
  have hright : ReadAs [']'] [.punctuator .rightBracket] := .spelled (.sign .rightBracket)
  have htokens : wrapped.tokens = [Token.punctuator .leftBracket] ++ ([Token.identifier "a"] ++
      [Token.punctuator .rightBracket]) := by
    simp only [wrapped, Expr.tokens, Expr.rows, joined]
    rfl
  rw [htokens]
  exact hleft.append_space (readAs_a.append (closes_head?_cons rfl) hright)

theorem readAs_redeclaration {value : Expr} {cs : List Char} (h : ReadAs cs value.tokens) :
    ReadAs (redeclarationText cs) (redeclaration value).tokens := by
  have hvar : ReadAs "var".toList [.keyword .varWord] := .spelled (.reserved .varWord)
  have htokens : (redeclaration value).tokens = [Token.keyword .varWord] ++
      ([Token.identifier "a"] ++ [Token.punctuator .equal]) ++
        (value.tokens ++ [Token.punctuator .semicolon]) := by
    simp only [redeclaration, Stmt.tokens, Declaration.tokens, Declarator.tokens, behind, joined,
      List.map_cons, List.map_nil, List.flatMap_nil, List.append_nil, List.nil_append]
    rfl
  rw [htokens]
  exact (hvar.append_space (readAs_a.append_space readAs_equal)).append_space h.semicolon

theorem readAs_wrappings : ∀ n, ReadAs (wrappingsText n) (Stmt.tokensAll (wrappings n))
  | 0 => by
    have htokens : Stmt.tokensAll (wrappings 0) = [Token.identifier "a"] ++
        ([Token.punctuator .equal] ++ (wrapped.tokens ++ [Token.punctuator .semicolon])) := by
      simp only [wrappings, storing, Stmt.tokensAll, Stmt.tokens, Expr.tokens, List.append_nil,
        List.append_assoc]
      rfl
    rw [htokens]
    exact readAs_a.append_space (readAs_equal.append_space readAs_wrapped.semicolon)
  | n + 1 => (readAs_redeclaration readAs_wrapped).append_space (readAs_wrappings n)

theorem tokenize_wrappedOftenText (n : Nat) : ∃ ws, tokenize (wrappedOftenText n) = .ok ws ∧
    ws.map Lexeme.token = Stmt.tokensAll (wrappedOften n) := by
  have htrue : ReadAs "true".toList (Expr.boolean true (.emptyAt 0)).tokens :=
    .spelled (.reserved .trueWord)
  refine ReadAs.tokenize ?_
  rw [wrappedOftenText, String.toList_ofList]
  exact (readAs_redeclaration htrue).append_space (readAs_wrappings n)

example : wrappedOftenText 1 = "var a = true; var a = [ a]; a = [ a];" := by decide +kernel

/-! ### What the checker makes of them -/

namespace Check

open Typing

variable {s : State} {t : Ty}

/-- The checker is in the file, aloud and without an error so far, and of `a` it knows nothing but
what a `var` has declared. -/
structure AtA (known : Option Ty) (s : State) : Prop where
  scopes : ∃ scope span, s.scopes = ⟨[scope], 0⟩ ∧
    scope.lookup "a" = known.map fun type => .value type (some .varKind) span
  silent : s.silent = false
  log : s.log = []

theorem AtA.lookup? (h : AtA (some t) s) {v : Ident} (hv : v.name = "a") :
    ∃ span, s.scopes.lookup? v.name = some (.value t (some .varKind) span) := by
  obtain ⟨scope, span, hscopes, hlookup⟩ := h.scopes
  exact ⟨span, by simp [ScopeStack.lookup?, hscopes, hlookup, hv]⟩

theorem nameType_a (h : AtA (some t) s) {v : Ident} (hv : v.name = "a") :
    nameType v s = (some t, s) := by
  obtain ⟨span, hfound⟩ := h.lookup? hv
  rw [nameType, lookup?, run_bind, run_get_bind, hfound]
  rfl

theorem targetType_a (h : AtA (some t) s) {v : Ident} (hv : v.name = "a") :
    targetType v s = (some t, s) := by
  obtain ⟨span, hfound⟩ := h.lookup? hv
  rw [targetType, lookup?, run_bind, run_get_bind, hfound]
  rfl

theorem arrayOf_arrayed (k : Nat) : arrayOf [.arrayed k] = .arrayed (k + 1) := by
  show Ty.array (Ty.join [(Ty.arrayed k).widened]) = .arrayed (k + 1)
  rw [Ty.widened_arrayed, Ty.join_arrayed, Ty.arrayed]

/-- The array `[a]` has the type of `a` with one pair of brackets more. -/
theorem infer_wrapped {k : Nat} (h : AtA (some (.arrayed k)) s) {e : Expr}
    (halike : wrapped.Alike anyPlace e) : infer e s = (some (.arrayed (k + 1)), s) := by
  cases halike with
  | array helements _ =>
    cases helements with
    | cons ha hnil =>
      cases hnil
      cases ha with
      | identifier hv =>
        simp only [infer, inferAll]
        rw [run_bind, run_bind, nameType_a h hv.name.symm]
        exact congrArg (fun type => (some type, s)) (arrayOf_arrayed k)

/-- A `var` declares `a` anew, whatever type it had. -/
theorem declareVariable_a {known : Option Ty} (h : AtA known s) {v : Ident} (hv : v.name = "a")
    (type : Ty) : AtA (some type) (declareVariable .varKind v type s).2 := by
  obtain ⟨⟨scope, span, hscopes, hlookup⟩, hsilent, hlog⟩ := h
  have hfind : s.scopes.find? 0 v.name = known.map fun type => .value type (some .varKind) span := by
    simp [ScopeStack.find?, hscopes, hlookup, hv]
  have hfunction : s.scopes.function = 0 := by rw [hscopes]
  have hrun : declareVariable .varKind v type s =
      ((), { s with scopes := s.scopes.declare 0 v.name (.value type (some .varKind) v.span) }) := by
    rw [declareVariable, run_get_bind, if_pos rfl, hfunction, run_bind]
    cases known with
    | none =>
      rw [declareNew_of_none hfind]
      rfl
    | some old =>
      rw [declareNew_of_some hfind]
      rfl
  rw [hrun]
  refine ⟨⟨(v.name, .value type (some .varKind) v.span) :: scope, v.span, ?_, ?_⟩, hsilent, hlog⟩
  · simp [ScopeStack.declare, hscopes]
  · simp [hv]

/-- The first value of `a` gives it its type. -/
theorem redeclaration_a {known : Option Ty} (h : AtA known s) {value : Expr} {x : Stmt}
    (halike : (redeclaration value).Alike anyPlace x)
    (hvalue : ∀ e, value.Alike anyPlace e → infer e s = (some t, s)) :
    AtA (some t.widened) (statement x s).2 := by
  obtain ⟨v, e, o, o', o'', rfl, hname, he⟩ := alike_redeclaration halike
  have hrecorded : AtA known (s.record v.span.start t.widened) := by
    unfold State.record
    split
    · exact h
    · exact ⟨h.scopes, h.silent, h.log⟩
  have hrun : statement (.variables ⟨.varKind, [⟨v, none, some e, o⟩], o'⟩ o'') s =
      declareValued .varKind v none (some (infer e s).1) (infer e s).2 := rfl
  rw [hrun, hvalue e he]
  exact declareVariable_a hrecorded hname t.widened

/-- What is stored in `a` does not fit. -/
theorem log_storing {k : Nat} (h : AtA (some (.arrayed k)) s) {e : Expr}
    (halike : storing.Alike anyPlace e) :
    ∃ span, (infer e s).2.log = [⟨.notAssignable (.arrayed (k + 1)) (.arrayed k), span⟩] := by
  cases halike with
  | @assignment _ _ _ _ value _ o htarget hvalue _ =>
    cases htarget with
    | @identifier _ v hv =>
      have hrun : infer (.assignment .simple (.identifier v) value o) s =
          assignmentType .simple (targetType v s).1 (infer value (targetType v s).2).1 v.span
            value.span (infer value (targetType v s).2).2 := rfl
      have hreport : assignmentType .simple (some (.arrayed k)) (some (.arrayed (k + 1))) v.span
          value.span s = (some (.arrayed (k + 1)),
            s.report ⟨.notAssignable (.arrayed (k + 1)) (.arrayed k), v.span⟩) := by
        simp only [assignmentType, storedType, pure_bind, Ty.not_assignable_arrayed, Bool.not_false,
          if_true]
        rfl
      refine ⟨v.span, ?_⟩
      rw [hrun, targetType_a h hv.name.symm, infer_wrapped h hvalue, hreport]
      show (s.report _).log = _
      simp [State.report, h.silent, h.log]

/-- **Each wrapping is a comparison one level deeper.** -/
theorem log_wrappings {n k : Nat} (h : AtA (some (.arrayed k)) s) {body : List Stmt}
    (halike : List.Forall₂ (Stmt.Alike anyPlace) (wrappings n) body) :
    ∃ span, (statements body s).2.log =
      [⟨.notAssignable (.arrayed (n + k + 1)) (.arrayed (n + k)), span⟩] := by
  induction n generalizing s k body with
  | zero =>
    cases halike with
    | cons hx hnil =>
      cases hnil
      cases hx with
      | expression he _ =>
        rw [Nat.zero_add]
        exact log_storing h he
  | succ n ih =>
    cases halike with
    | cons hx hbody =>
      have hnext := redeclaration_a h hx fun e he => infer_wrapped h he
      rw [Ty.widened_arrayed] at hnext
      rw [statements, run_bind, Nat.succ_add_eq_add_succ]
      exact ih hnext hbody

/-- No function is declared and none is tried out. -/
def NoFunctions (ss : List Stmt) : Prop :=
  declareFunctions ss = pure () ∧ inferFunctions ss = pure ()

theorem NoFunctions.cons {value : Expr} {x : Stmt} {ss : List Stmt}
    (hx : (redeclaration value).Alike anyPlace x) (h : NoFunctions ss) : NoFunctions (x :: ss) := by
  obtain ⟨v, e, o, o', o'', rfl, -, -⟩ := alike_redeclaration hx
  refine ⟨h.1, ?_⟩
  rw [inferFunctions, h.2]
  rfl

theorem noFunctions_wrappings {n : Nat} {body : List Stmt}
    (halike : List.Forall₂ (Stmt.Alike anyPlace) (wrappings n) body) : NoFunctions body := by
  induction n generalizing body with
  | zero =>
    cases halike with
    | cons hx hnil =>
      cases hnil
      cases hx with
      | expression _ _ => exact ⟨rfl, rfl⟩
  | succ n ih =>
    cases halike with
    | cons hx hbody => exact (ih hbody).cons hx

theorem NoFunctions.body_eq {ss : List Stmt} (h : NoFunctions ss) : Check.body ss = statements ss := by
  rw [Check.body, together, h.1, h.2]
  rfl

end Check

/-! ### Scripts -/

namespace Script

/-- **Types of every height are compared.** The text with `n` wrappings is read without an error,
and the checker finds that a type with `n + 1` pairs of brackets does not fit into one with `n`. -/
theorem compares_arrayed (name : String) (n : Nat) :
    ∃ script, parse name (wrappedOftenText n) = .ok script ∧ ∃ e ∈ script.checkedState.errors,
      e.problem = .notAssignable (.arrayed (n + 1)) (.arrayed n) := by
  obtain ⟨ws, htext, htokens⟩ := tokenize_wrappedOftenText n
  have hneed : (Stmt.tollAll (wrappedOften n)).need ≤ nestingLimit := by
    rw [need_wrappedOften]
    decide
  obtain ⟨hlog, hrun⟩ := completes_rendering (grouped_wrappedOften n)
    (readable_wrappedOften n) htext htokens
  obtain ⟨body, hparse, hbody⟩ := (parse_of_completes name hlog hrun).1 hneed
  refine ⟨_, hparse, ?_⟩
  match body, hbody with
  | x :: body, .cons hx hbody =>
    have hstart : Check.AtA none Typing.State.initial :=
      ⟨⟨[], .emptyAt 0, rfl, rfl⟩, rfl, rfl⟩
    have hnext := Check.redeclaration_a hstart hx (t := Ty.booleanLiteral true) fun e he => by
      cases he
      rfl
    obtain ⟨span, herrors⟩ := Check.log_wrappings (k := 0) hnext hbody
    have hfunctions := (Check.noFunctions_wrappings hbody).cons hx
    have hchecked : (checkedState ⟨name, wrappedOftenText n, x :: body⟩).log =
        [⟨.notAssignable (.arrayed (n + 1)) (.arrayed n), span⟩] := by
      rw [checkedState, hfunctions.body_eq]
      exact herrors
    refine ⟨⟨.notAssignable (.arrayed (n + 1)) (.arrayed n), span⟩, ?_, rfl⟩
    rw [Typing.State.errors, hchecked]
    exact List.mem_singleton_self _

end Script

end ScriptLint
