import ScriptLint.Proofs.Text.Partial
import ScriptLint.Proofs.Typing.Footprints
import ScriptLint.Typing.CheckedScript
/-!
# Trials are counted

The checker is silent while it tries out the body of a function. Trials lie
inside one another, so instead of a flag that is put back behind a trial there
may be a count of the trials that the checker is in: one more when a trial
begins, and one less, which has to be a number, when it ends. The checker that
counts never breaks off, behind every statement it counts what it counted in
front of it, and it does what the checker with the flag does.

Key definitions: `Check.Counted`, `Check.Counted.trial`, `Check.Counted.statement`,
`Check.Counts`, `Script.checkedState?`.
Key theorems: `Check.Counts.trial`, `Check.counts_statement`, `Script.checkedState?_eq`.
-/

namespace ScriptLint

namespace Check

open Typing

variable {α β : Type}

/-! ### Steps that leave the flag alone -/

/-- Behind the step the checker is as silent as in front of it. -/
def Steady (p : Check α) : Prop :=
  ∀ s : State, (p s).2.silent = s.silent

namespace Steady

theorem pure (a : α) : Steady (Pure.pure a : Check α) :=
  fun _ => rfl

theorem bind {p : Check α} {q : α → Check β} (hp : Steady p) (hq : ∀ a, Steady (q a)) :
    Steady (p >>= q) :=
  fun s => (hq (p s).1 (p s).2).trans (hp s)

theorem get_bind {q : State → Check β} (h : ∀ s, Steady (q s)) : Steady (get >>= q) :=
  fun s => h s s

theorem forM {p : α → Check Unit} (h : ∀ a, Steady (p a)) : ∀ l : List α, Steady (l.forM p)
  | [] => pure ()
  | a :: l => (h a).bind fun _ => forM h l

end Steady

theorem Reads.steady {N : List String} {p : Check α} (h : Reads N p) : Steady p := by
  intro s
  obtain ⟨log, hlog⟩ := h.unchanged s
  rw [hlog]

theorem steady_modifyScopes (f : ScopeStack → ScopeStack) : Steady (modifyScopes f) :=
  fun _ => rfl

theorem steady_declareNew (scope : Nat) (name : String) (symbol : Symbol) :
    Steady (declareNew scope name symbol) := by
  refine .get_bind fun s => ?_
  cases s.scopes.find? scope name with
  | some existing => exact .pure _
  | none => exact (steady_modifyScopes _).bind fun _ => .pure none

theorem steady_record (start : Nat) (type : Ty) : Steady (modify (State.record start type)) := by
  intro s
  show (s.record start type).silent = s.silent
  unfold State.record
  split <;> rfl

theorem steady_declareVariable (kind : DeclKind) (name : Ident) (type : Ty) :
    Steady (declareVariable kind name type) := by
  refine .get_bind fun s => (steady_declareNew _ _ _).bind fun found => ?_
  match found with
  | none => exact .pure ()
  | some (.function _ _ _) => exact (reads_reportBoth _ _ _).steady
  | some (.value _ existingKind _) =>
    dsimp only
    split
    · exact steady_modifyScopes _
    · split
      · exact (reads_reportBoth _ _ _).steady
      · exact (reads_reportBoth _ _ _).steady

theorem steady_declarator (kind : DeclKind) (d : Declarator) : Steady (declarator kind d) := by
  rw [declarator_eq]
  refine (reads_resolve? d.declaredType).steady.bind fun declared => ?_
  refine Steady.bind ?_ fun initial =>
    (reads_variableType kind d.name declared initial).steady.bind fun type => ?_
  · cases d.initializer with
    | some e => exact (reads_infer e).steady.bind fun _ => .pure _
    | none => exact .pure none
  · cases type with
    | some type => exact (steady_record _ type).bind fun _ => steady_declareVariable _ _ _
    | none => exact steady_declareVariable _ _ _

theorem steady_declaration (d : Declaration) : Steady (declaration d) :=
  .forM (steady_declarator d.kind) d.declarators

theorem steady_forStart : ∀ start : Option ForStart, Steady (forStart start)
  | some (.declaration d) => steady_declaration d
  | some (.expression e) => (reads_expression e).steady
  | none => .pure ()

theorem steady_expression? : ∀ e : Option Expr, Steady (expression? e)
  | some e => (reads_expression e).steady
  | none => .pure ()

theorem steady_addReturn (type : Ty) : Steady (addReturn type) := by
  intro s
  rw [addReturn, run_modify]
  split <;> rfl

theorem steady_returnValue (value : Option Expr) (span : Span) :
    Steady (returnValue value span) := by
  rw [returnValue_eq]
  refine Steady.bind ?_ fun type => .get_bind fun s => ?_
  · cases value with
    | some e => exact (reads_infer e).steady
    | none => exact .pure _
  · split
    · exact (reads_report _ _).steady
    · split
      · split
        · exact (reads_report _ _).steady.bind fun _ => steady_addReturn _
        · exact steady_addReturn _
      · exact steady_addReturn _

/-- A name is declared in the innermost scope, and a conflict is reported. -/
theorem steady_declareNew_current (n : String) (symbol : Symbol) {conflict : Symbol → Check Unit}
    (h : ∀ existing, Steady (conflict existing)) :
    Steady (do
      match ← declareNew (← get).scopes.current n symbol with
      | none => pure ()
      | some existing => conflict existing) := by
  refine .get_bind fun s => (steady_declareNew _ _ _).bind fun found => ?_
  cases found with
  | none => exact .pure ()
  | some existing => exact h existing

theorem steady_declareParameter (p : Parameter) : Steady (declareParameter p) :=
  (reads_resolve? p.declaredType).steady.bind fun _ =>
    steady_declareNew_current _ _ fun _ => (reads_reportBoth _ _ _).steady

theorem steady_declareFunction (signature : Signature) : Steady (declareFunction signature) := by
  refine steady_declareNew_current _ _ fun existing => ?_
  cases existing <;> exact (reads_reportBoth _ _ _).steady

theorem steady_declareFunctions (stmts : List Stmt) : Steady (declareFunctions stmts) := by
  induction stmts with
  | nil => exact .pure ()
  | cons s ss ih =>
    cases s with
    | function signature _ _ _ => exact (steady_declareFunction signature).bind fun _ => ih
    | _ => exact ih

/-! ### The checker that counts -/

/-- A step of the checker that has the count of the trials it is in, and may break off. -/
abbrev Counted := StateT (Nat × State) Option

namespace Counted

/-- A step in which no trial begins or ends. -/
def plain (p : Check α) : Counted α :=
  fun (count, s) => some ((p s).1, (count, (p s).2))

/-- The checker with another count. In a trial it is silent. -/
def counting (count : Nat) (s : State) : Nat × State :=
  (count, { s with silent := decide (0 < count) })

/-- Begins a trial. -/
def beginTrial : Counted Unit :=
  modify fun (count, s) => counting (count + 1) s

/-- Ends a trial, if the checker is in one. -/
def endTrial : Counted Unit := do
  let (count, s) ← get
  let outer ← minus? count 1
  set (counting outer s)

/-- Tries out a step. -/
def trial (step : Counted α) : Counted α := do
  beginTrial
  let a ← step
  endTrial
  return a

theorem endTrial_run (count : Nat) (s : State) :
    endTrial (count + 1, s) = some ((), counting count s) := by
  show (minus? (count + 1) 1).bind (fun outer => some ((), counting outer s)) = _
  rw [minus?_add_one, Option.bind_some]

/-- Runs a step in a scope of its own. -/
def inScope (step : Counted α) : Counted α := do
  plain (modifyScopes ScopeStack.enter)
  let a ← step
  plain (modifyScopes ScopeStack.exit)
  return a

/-- Runs a step in the scope of a new function. -/
def inFunctionScope (step : Counted α) : Counted α := do
  let (_, s) ← get
  plain (modifyScopes ScopeStack.enterFunction)
  let a ← step
  plain (modifyScopes fun scopes => { scopes.exit with function := s.scopes.function })
  return a

/-- Runs a step inside a function that declares the given type, and yields the function's frame. -/
def inFrame (declared : Option Ty) (step : Counted Unit) : Counted Frame := do
  plain (modify fun s => { s with frames := ⟨declared, []⟩ :: s.frames })
  step
  let (_, s) ← get
  plain (modify fun s => { s with frames := s.frames.tail })
  return s.frames.headD ⟨none, []⟩

/-- Checks a function: its parameters and then its body. -/
def functionBody (signature : Signature) (declared : Option Ty) (run : Counted Unit) :
    Counted Ty := do
  let frame ← inFunctionScope do
    plain (signature.parameters.forM declareParameter)
    inFrame declared run
  match signature.returnType with
  | some type => if lacksReturn frame then plain (report .missingReturn type.span)
  | none => pure ()
  return returnedType frame.returns

/-- Checks statements that stand together. -/
def together (stmts : List Stmt) (tryOut run : Counted Unit) : Counted Unit := do
  plain (declareFunctions stmts)
  tryOut
  run

mutual

/-- Checks a statement. -/
def statement : Stmt → Counted Unit
  | .variables d _ => plain (declaration d)
  | .function signature body _ _ => do
    let declared ← plain (resolve? signature.returnType)
    let _ ← functionBody signature declared
      (together body (inferFunctions body) (statements body))
  | .block body _ => inScope (together body (inferFunctions body) (statements body))
  | .ifThen condition thenBranch _ => do
    plain (expression condition)
    statement thenBranch
  | .ifElse condition thenBranch elseBranch _ => do
    plain (expression condition)
    statement thenBranch
    statement elseBranch
  | .whileLoop condition body _ => do
    plain (expression condition)
    statement body
  | .forLoop start condition update body _ =>
    inScope do
      plain (forStart start)
      plain (expression? condition)
      plain (expression? update)
      statement body
  | .returns value span => plain (returnValue value span)
  | .expression e _ => plain (expression e)

/-- Checks the statements of a list, one after the other. -/
def statements : List Stmt → Counted Unit
  | [] => pure ()
  | s :: ss => do
    statement s
    statements ss

/-- Finds out what a function returns that does not say so, by trying out its body. -/
def inferFunction : Stmt → Counted Unit
  | .function signature body _ _ =>
    match signature.returnType with
    | some _ => pure ()
    | none => do
      let result ← trial
        (functionBody signature none (together body (inferFunctions body) (statements body)))
      let (_, s) ← get
      plain (modifyScopes
        (·.declare s.scopes.current signature.name.name (functionSymbol signature result)))
  | _ => pure ()

/-- Finds out what the functions of a list of statements return. -/
def inferFunctions : List Stmt → Counted Unit
  | [] => pure ()
  | s :: ss => do
    inferFunction s
    inferFunctions ss

end

/-- Checks a list of statements that stand together. -/
def body (stmts : List Stmt) : Counted Unit :=
  together stmts (inferFunctions stmts) (statements stmts)

end Counted

/-! ### It counts right -/

/-- If the checker is silent just in trials, the counting step does what the step does and breaks
off nowhere. Behind it the count is the same, and the checker is as silent. -/
def Counts (p : Counted α) (q : Check α) : Prop :=
  ∀ (count : Nat) (s : State), s.silent = decide (0 < count) →
    p (count, s) = some ((q s).1, (count, (q s).2)) ∧ (q s).2.silent = s.silent

namespace Counts

variable {p : Counted α} {q : Check α}

theorem plain (h : Steady q) : Counts (Counted.plain q) q :=
  fun _ s _ => ⟨rfl, h s⟩

theorem pure (a : α) : Counts (Pure.pure a : Counted α) (Pure.pure a) :=
  fun _ _ _ => ⟨rfl, rfl⟩

theorem bind {f : α → Counted β} {g : α → Check β} (h : Counts p q)
    (hf : ∀ a, Counts (f a) (g a)) : Counts (p >>= f) (q >>= g) := by
  intro count s hs
  obtain ⟨hrun, hsilent⟩ := h count s hs
  obtain ⟨hnext, hnext'⟩ := hf (q s).1 count (q s).2 (hsilent.trans hs)
  refine ⟨?_, hnext'.trans hsilent⟩
  show (p (count, s)).bind (fun r => f r.1 r.2) = _
  rw [hrun]
  exact hnext

theorem get_bind {f : Nat × State → Counted β} {g : State → Check β}
    (h : ∀ count s, Counts (f (count, s)) (g s)) : Counts (get >>= f) (get >>= g) :=
  fun count s hs => h count s count s hs

/-- **A trial ends with the count it began with.** -/
theorem trial (h : Counts p q) : Counts (Counted.trial p) (silently q) := by
  intro count s hs
  have hbegin : Counted.counting (count + 1) s = (count + 1, { s with silent := true }) := by
    simp [Counted.counting]
  obtain ⟨hrun, -⟩ := h (count + 1) { s with silent := true } (by simp)
  refine ⟨?_, rfl⟩
  show (p (Counted.counting (count + 1) s)).bind
    (fun r => (Counted.endTrial r.2).bind fun r' => some (r.1, r'.2)) = _
  rw [hbegin, hrun, Option.bind_some, Counted.endTrial_run, Option.bind_some, Counted.counting, ← hs]
  rfl

theorem inScope (h : Counts p q) : Counts (Counted.inScope p) (Check.inScope q) :=
  (plain (steady_modifyScopes _)).bind fun _ => h.bind fun a =>
    (plain (steady_modifyScopes _)).bind fun _ => pure a

theorem inFunctionScope (h : Counts p q) :
    Counts (Counted.inFunctionScope p) (Check.inFunctionScope q) :=
  get_bind fun _ _ => (plain (steady_modifyScopes _)).bind fun _ => h.bind fun a =>
    (plain (steady_modifyScopes _)).bind fun _ => pure a

theorem inFrame {p : Counted Unit} {q : Check Unit} (h : Counts p q) (declared : Option Ty) :
    Counts (Counted.inFrame declared p) (Check.inFrame declared q) :=
  (plain fun _ => rfl).bind fun _ => h.bind fun _ => get_bind fun _ _ =>
    (plain fun _ => rfl).bind fun _ => pure _

theorem functionBody {p : Counted Unit} {q : Check Unit} (h : Counts p q) (signature : Signature)
    (declared : Option Ty) :
    Counts (Counted.functionBody signature declared p) (Check.functionBody signature declared q) := by
  have hbody := (plain (Steady.forM steady_declareParameter signature.parameters)).bind
    fun _ => h.inFrame declared
  refine hbody.inFunctionScope.bind fun frame => ?_
  cases signature.returnType with
  | none => exact pure _
  | some type =>
    dsimp only
    split
    · exact (plain (reads_report _ _).steady).bind fun _ => pure _
    · exact pure _

end Counts

theorem counts_together (stmts : List Stmt) {tryOut run : Counted Unit} {tryOut' run' : Check Unit}
    (htryOut : Counts tryOut tryOut') (hrun : Counts run run') :
    Counts (Counted.together stmts tryOut run) (together stmts tryOut' run') :=
  (Counts.plain (steady_declareFunctions stmts)).bind fun _ => htryOut.bind fun _ => hrun

mutual

/-- **The checker that counts does what the checker does,** statement by statement. -/
theorem counts_statement : ∀ s : Stmt, Counts (Counted.statement s) (statement s)
  | .variables d _ => .plain (steady_declaration d)
  | .function signature body _ _ =>
    (Counts.plain (reads_resolve? signature.returnType).steady).bind fun declared =>
      ((counts_together body (counts_inferFunctions body) (counts_statements body)).functionBody
        signature declared).bind fun _ => .pure ()
  | .block body _ =>
    (counts_together body (counts_inferFunctions body) (counts_statements body)).inScope
  | .ifThen condition thenBranch _ =>
    (Counts.plain (reads_expression condition).steady).bind fun _ => counts_statement thenBranch
  | .ifElse condition thenBranch elseBranch _ =>
    (Counts.plain (reads_expression condition).steady).bind fun _ =>
      (counts_statement thenBranch).bind fun _ => counts_statement elseBranch
  | .whileLoop condition body _ =>
    (Counts.plain (reads_expression condition).steady).bind fun _ => counts_statement body
  | .forLoop start condition update body _ =>
    Counts.inScope ((Counts.plain (steady_forStart start)).bind fun _ =>
      (Counts.plain (steady_expression? condition)).bind fun _ =>
        (Counts.plain (steady_expression? update)).bind fun _ => counts_statement body)
  | .returns value span => .plain (steady_returnValue value span)
  | .expression e _ => .plain (reads_expression e).steady

theorem counts_statements : ∀ ss : List Stmt, Counts (Counted.statements ss) (statements ss)
  | [] => .pure ()
  | s :: ss => (counts_statement s).bind fun _ => counts_statements ss

theorem counts_inferFunction : ∀ s : Stmt, Counts (Counted.inferFunction s) (inferFunction s)
  | .function signature body _ _ => by
    have hbody := counts_together body (counts_inferFunctions body) (counts_statements body)
    rw [Counted.inferFunction, inferFunction]
    cases signature.returnType with
    | some _ => exact .pure ()
    | none =>
      exact (hbody.functionBody signature none).trial.bind fun _ =>
        .get_bind fun _ _ => .plain (steady_modifyScopes _)
  | .variables _ _ => .pure ()
  | .block _ _ => .pure ()
  | .ifThen _ _ _ => .pure ()
  | .ifElse _ _ _ _ => .pure ()
  | .whileLoop _ _ _ => .pure ()
  | .forLoop _ _ _ _ _ => .pure ()
  | .returns _ _ => .pure ()
  | .expression _ _ => .pure ()

theorem counts_inferFunctions : ∀ ss : List Stmt,
    Counts (Counted.inferFunctions ss) (inferFunctions ss)
  | [] => .pure ()
  | s :: ss => (counts_inferFunction s).bind fun _ => counts_inferFunctions ss

end

end Check

namespace Script

/-- The state of the checker behind the last statement, with the trials counted. -/
def checkedState? (script : Script) : Option Typing.State :=
  ((Check.Counted.body script.body).run (0, Typing.State.initial)).map fun (_, _, s) => s

/-- **No trial ends that has not begun.** -/
theorem checkedState?_eq (script : Script) : script.checkedState? = some script.checkedState := by
  have hbody := Check.counts_together script.body
    (Check.counts_inferFunctions script.body) (Check.counts_statements script.body)
  obtain ⟨hrun, -⟩ := hbody 0 Typing.State.initial rfl
  show ((Check.Counted.body script.body) (0, Typing.State.initial)).map _ = _
  rw [Check.Counted.body, hrun]
  rfl

end Script

end ScriptLint
