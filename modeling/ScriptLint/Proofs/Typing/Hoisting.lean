import ScriptLint.Proofs.Typing.Locality
import ScriptLint.Parsing.Script
import ScriptLint.Typing.CheckedScript
/-!
# The two passes over a function

A function that writes no return type is passed over twice: its body is
tried out before the statements of its list are checked, and what it is found
to return then is what a call of it yields; and it is checked in its turn.
The two passes find the same type whenever the function reads from outside
neither a variable that the list declares before it, nor a function without
return type that comes no earlier than itself. The first pass comes before
those variables are declared, and at a time when those functions stand for
`any`; a script that reads one of them can get the two passes to differ.

Key definitions: `Check.triedResult`, `Check.returnedResult`.
Key theorems: `Check.tried_eq_returned`, `Check.tried_ne_returned`.
-/

namespace ScriptLint

namespace Check

open Typing

/-- The steps of the list `before ++ rest` up to where the functions of `rest` are tried out. -/
def toTrial (before rest : List Stmt) : Check Unit := do
  declareFunctions (before ++ rest)
  inferFunctions before

/-- The steps of the list `before ++ rest` up to the turn of `rest`. -/
def toTurn (before rest : List Stmt) : Check Unit := do
  declareFunctions (before ++ rest)
  inferFunctions (before ++ rest)
  statements before

/-- What the function at the head of `rest` is found to return when its body is tried out. -/
def triedResult (before rest : List Stmt) (signature : Signature) (stmts : List Stmt) (s : State) :
    Ty :=
  (silently (functionBody signature none (body stmts)) (toTrial before rest s).2).1

/-- What the function at the head of `rest` is found to return in its turn. -/
def returnedResult (before rest : List Stmt) (signature : Signature) (stmts : List Stmt)
    (s : State) : Ty :=
  (functionBody signature none (body stmts) (toTurn before rest s).2).1

theorem inferFunctions_append (ss ss' : List Stmt) (s : State) :
    inferFunctions (ss ++ ss') s = inferFunctions ss' (inferFunctions ss s).2 := by
  induction ss generalizing s with
  | nil => rfl
  | cons f ss ih => exact ih (inferFunction f s).2

theorem acts_toTrial (before rest : List Stmt) :
    Acts (⟨functionNames (before ++ rest), [], []⟩ ++ ⟨[], [], openFunctions before⟩)
      (toTrial before rest) :=
  (acts_declareFunctions (before ++ rest)).bind fun _ => acts_inferFunctions before

/-- What comes after the trial of the functions before `rest`. -/
theorem toTurn_eq (before rest : List Stmt) (s : State) :
    toTurn before rest s
      = statements before (inferFunctions rest (toTrial before rest s).2).2 := by
  show statements before (inferFunctions (before ++ rest) _).2 = _
  rw [inferFunctions_append]
  rfl

/-- From the trial of a function up to its turn, the functions without return type are replaced
from there on, and the variables before it are declared. -/
theorem changes_toTurn (before rest : List Stmt) {s : State} (hs : s.scopes.Valid) :
    (toTrial before rest s).2.scopes.Changes
      (⟨[], [], openFunctions rest⟩ ++ Stmt.footprints before) (toTurn before rest s).2.scopes := by
  have htrial := (acts_toTrial before rest s hs).valid hs
  have hinferred := acts_inferFunctions rest _ htrial
  rw [toTurn_eq]
  exact hinferred.trans (acts_statements before _ (hinferred.valid htrial))

/-- All other names stand for the same at the trial and in the turn. -/
theorem lookup?_toTurn {before rest : List Stmt} {s : State} (hs : s.scopes.Valid) {n : String}
    (hbefore : n ∉ (Stmt.footprints before).names) (hrest : n ∉ openFunctions rest) :
    (toTrial before rest s).2.scopes.lookup? n = (toTurn before rest s).2.scopes.lookup? n := by
  have hturn := changes_toTurn before rest hs
  obtain ⟨hblock, hfunction⟩ := not_or.mp (mt List.mem_append.mpr hbefore)
  refine ScopeStack.lookup?_congr hturn.length.symm fun i => (hturn.kept i n ?_ ?_).symm
  · intro _
    rw [Footprint.replaced_append, Stmt.replaced_footprints, List.append_nil]
    exact ⟨hblock, hrest⟩
  · exact fun _ => hfunction

/-- When its body has been tried out, a function stands for what was found. -/
theorem find?_inferFunction {signature : Signature} (hopen : signature.returnType = none)
    (stmts : List Stmt) (bodySpan span : Span) {s : State} (hs : s.scopes.Valid) :
    (inferFunction (.function signature stmts bodySpan span) s).2.scopes.find? s.scopes.current
      signature.name.name = some (functionSymbol signature
        (silently (functionBody signature none (body stmts)) s).1) := by
  have hacts := (acts_functionBody signature none (acts_together stmts)).silently s hs
  rw [inferFunction, hopen]
  show ((silently (functionBody signature none (body stmts)) s).2.scopes.declare _ _ _).find? _ _ = _
  rw [show s.scopes.current = _ from hacts.current.symm]
  exact ScopeStack.find?_declare_self (hacts.valid hs).current_lt _ _

/-- At every place of its list a function stands for what was found when it was tried out, if no
later function without return type has its name. -/
theorem lookup?_tried {before after : List Stmt} {signature : Signature} {stmts : List Stmt}
    {bodySpan span : Span} {s : State} (hs : s.scopes.Valid)
    (hopen : signature.returnType = none) (hlater : signature.name.name ∉ openFunctions after)
    {done rest : List Stmt}
    (hlist : done ++ rest = before ++ .function signature stmts bodySpan span :: after) :
    (toTurn done rest s).2.scopes.lookup? signature.name.name = some (functionSymbol signature
      (triedResult before (.function signature stmts bodySpan span :: after) signature stmts s)) := by
  let f := Stmt.function signature stmts bodySpan span
  have htrial := acts_toTrial before (f :: after) s hs
  have hfound := find?_inferFunction hopen stmts bodySpan span (htrial.valid hs)
  have hself := acts_inferFunction f _ (htrial.valid hs)
  have hafter := acts_inferFunctions after _ (hself.valid (htrial.valid hs))
  have hdone := acts_statements done _ (hafter.valid (hself.valid (htrial.valid hs)))
  have hturn : toTurn done rest s = statements done (inferFunctions after
      (inferFunction f (toTrial before (f :: after) s).2).2).2 := by
    show statements done (inferFunctions (done ++ rest) (declareFunctions (done ++ rest) s).2).2 = _
    rw [hlist, inferFunctions_append]
    rfl
  rw [hturn]
  apply ScopeStack.lookup?_of_find?_current
  rw [hdone.current, hafter.current, hself.current]
  refine hdone.settled _ _ _ _ _ ?_ fun _ => ?_
  · rw [hafter.kept _ _ (fun _ => ⟨List.not_mem_nil, hlater⟩) fun _ => List.not_mem_nil]
    exact hfound
  · rw [Stmt.replaced_footprints]
    exact List.not_mem_nil

/-- **The two passes over a function find the same type,** if the function reads from outside
no variable that its list declares before it, and no function without return type from itself
on. If no later one of those has its name, then at every place of the list a call of it yields
that type. -/
theorem tried_eq_returned {before after : List Stmt} {f : Stmt} {signature : Signature}
    {stmts : List Stmt} {bodySpan span : Span} {s : State} (hs : s.scopes.Valid)
    (hf : f = .function signature stmts bodySpan span) (hopen : signature.returnType = none)
    (hfree : ∀ n ∈ f.free [],
      n ∉ (Stmt.footprints before).names ∧ n ∉ openFunctions (f :: after)) :
    triedResult before (f :: after) signature stmts s
      = returnedResult before (f :: after) signature stmts s ∧
    (signature.name.name ∉ openFunctions after →
      ∀ done rest, done ++ rest = before ++ f :: after →
        (toTurn done rest s).2.scopes.lookup? signature.name.name = some (functionSymbol signature
          (returnedResult before (f :: after) signature stmts s))) := by
  subst hf
  have hvalid := (acts_toTrial before (.function signature stmts bodySpan span :: after) s hs).valid hs
  have hturn := changes_toTurn before (.function signature stmts bodySpan span :: after) hs
  have hsame := functionBody_eq
    (s := { (toTrial before (.function signature stmts bodySpan span :: after) s).2 with
      silent := true })
    (Nat.zero_lt_of_lt hvalid) hturn.length.symm hturn.function.symm
    (fun n hn => lookup?_toTurn hs (hfree n hn).1 (hfree n hn).2) none
  refine ⟨hsame, fun hlater done rest hlist => ?_⟩
  rw [show returnedResult _ _ signature stmts s = _ from hsame.symm]
  exact lookup?_tried hs hopen hlater hlist

/-- The third of four statements is a function without return type that reads nothing declared
by the two before it and no function still untried, and its trial finds a number. -/
def triesThird : List Stmt → Bool
  | [x, g, .function signature stmts bodySpan span, y] =>
    signature.returnType.isNone &&
      decide ((∀ n ∈ (Stmt.function signature stmts bodySpan span).free [],
        n ∉ (Stmt.footprints [x, g]).names ∧
          n ∉ openFunctions [.function signature stmts bodySpan span, y]) ∧
        triedResult [x, g] [.function signature stmts bodySpan span, y] signature stmts .initial
          = Ty.number)
  | _ => false

/-- The theorem at a function that calls the one before it, and hides the variable before it. -/
theorem tried_eq_returned_hidden : ∃ script x g f y signature stmts bodySpan span,
    Script.parse "main.ts" ("let x = 1; function g() { return 2; } " ++
      "function f(a: number) { let x = g(); return x + a; } let y = f(3);") = .ok script ∧
    script.body = [x, g, f, y] ∧ f = .function signature stmts bodySpan span ∧
    signature.returnType = none ∧ State.initial.scopes.Valid ∧
    (∀ n ∈ f.free [], n ∉ (Stmt.footprints [x, g]).names ∧ n ∉ openFunctions [f, y]) ∧
    triedResult [x, g] [f, y] signature stmts .initial = Ty.number ∧
    returnedResult [x, g] [f, y] signature stmts .initial = Ty.number := by
  generalize htext : "let x = 1; function g() { return 2; } " ++
    "function f(a: number) { let x = g(); return x + a; } let y = f(3);" = text
  have hok : (Script.parse "main.ts" text).toOption.any (fun script =>
      triesThird script.body) = true := by
    rw [← htext]
    decide +kernel
  cases hparse : Script.parse "main.ts" text with
  | error errors => simp [hparse, Except.toOption] at hok
  | ok script =>
    simp only [hparse, Except.toOption, Option.any_some] at hok
    unfold triesThird at hok
    split at hok
    next x g signature stmts bodySpan span y hbody =>
      rw [Bool.and_eq_true, Option.isNone_iff_eq_none, decide_eq_true_eq] at hok
      obtain ⟨hopen, hfree, htried⟩ := hok
      have hvalid : State.initial.scopes.Valid := Nat.zero_lt_one
      have hsame := (tried_eq_returned hvalid rfl hopen hfree).1
      exact ⟨script, x, g, _, y, signature, stmts, bodySpan, span, rfl, hbody, rfl, hopen, hvalid,
        hfree, htried, hsame.symm.trans htried⟩
    next => cases hok

/-- The second of three statements is a function without return type whose trial finds `any`, and
which returns a number in its turn. -/
def passesDiffer : List Stmt → Bool
  | [x, .function signature stmts bodySpan span, y] =>
    signature.returnType.isNone &&
      decide (triedResult [x] [.function signature stmts bodySpan span, y] signature stmts
          .initial = Ty.any ∧
        returnedResult [x] [.function signature stmts bodySpan span, y] signature stmts
          .initial = Ty.number)
  | _ => false

/-- The two passes differ at a function that reads a variable before it: a call of the function
yields `any`, and its body returns a number. -/
theorem tried_ne_returned : ∃ script x f y signature stmts bodySpan span,
    Script.parse "main.ts" "let x = 1; function f() { return x; } const isA = f();" = .ok script ∧
    script.body = [x, f, y] ∧ f = .function signature stmts bodySpan span ∧
    signature.returnType = none ∧
    triedResult [x] [f, y] signature stmts .initial = Ty.any ∧
    returnedResult [x] [f, y] signature stmts .initial = Ty.number ∧
    script.check.typeAt? 44 = some Ty.any := by
  have hok : (Script.parse "main.ts"
      "let x = 1; function f() { return x; } const isA = f();").toOption.any (fun script =>
      passesDiffer script.body && decide (script.check.typeAt? 44 = some Ty.any)) = true := by
    decide +kernel
  cases hparse : Script.parse "main.ts"
      "let x = 1; function f() { return x; } const isA = f();" with
  | error errors => simp [hparse, Except.toOption] at hok
  | ok script =>
    simp only [hparse, Except.toOption, Option.any_some, Bool.and_eq_true, decide_eq_true_eq] at hok
    obtain ⟨hpasses, htype⟩ := hok
    unfold passesDiffer at hpasses
    split at hpasses
    next x signature stmts bodySpan span y hbody =>
      rw [Bool.and_eq_true, Option.isNone_iff_eq_none, decide_eq_true_eq] at hpasses
      obtain ⟨hopen, htried, hreturned⟩ := hpasses
      exact ⟨script, x, _, y, signature, stmts, bodySpan, span, rfl, hbody, rfl, hopen, htried,
        hreturned, htype⟩
    next => cases hpasses

end Check

end ScriptLint
