import Mathlib.Logic.Function.Iterate
import Mathlib.Logic.Relation
import ScriptLint.Proofs.Typing.Tabled
/-!
# Plans of the checker

To speak about the states in the middle of a check it is written down as a
plan: a tree of single acts, each with what comes next for every answer. The
acts are those on the table of scopes and on the place in it; what looks names
up and reports, but leaves the scopes alone, is one act. A plan is carried
out act by act, and in this way it does what the checker with a table does.

Key definitions: `Check.Act`, `Check.Plan`, `Check.Plan.run`, `Check.Plan.statement`,
`Check.Plan.Step`.
Key theorems: `Check.Plan.Reaches.keeps`, `Check.Plan.run_bind`, `Check.Plan.reaches_run`.
-/

namespace ScriptLint.Check

open Typing

variable {α β : Type}

/-! ### Acts and plans -/

/-- A single act of the checker, by the type of its answer. -/
inductive Act : Type → Type 1
  /-- Looks names up, reports and records. -/
  | read {α : Type} (p : Check α) : Act α
  /-- Asks for the scope at hand and for that of the function at hand. -/
  | place : Act (Nat × Nat)
  /-- Creates a scope in the one at hand, and answers with its number. -/
  | create : Act Nat
  /-- Goes to a scope. -/
  | moveTo (id : Nat) : Act Unit
  /-- Goes to the scope around, if there is one. -/
  | moveOut : Act Unit
  /-- Changes the scope of the function at hand. -/
  | setFunction (id : Nat) : Act Unit
  /-- Declares a name in a scope that does not have it, or answers with the symbol that it has. -/
  | add (id : Nat) (name : String) (symbol : Symbol) : Act (Option Symbol)
  /-- Declares a name in a scope, whether or not it was declared there. -/
  | replace (id : Nat) (name : String) (symbol : Symbol) : Act Unit
  /-- Begins a function with the declared type. -/
  | push (declared : Option Ty) : Act Unit
  /-- Ends the innermost function. -/
  | pop : Act Frame
  /-- Begins a trial. -/
  | beginTrial : Act Unit
  /-- Ends a trial. -/
  | endTrial : Act Unit

/-- What an act does. -/
def Act.run : Act α → Tabled α
  | .read p => Tabled.read p
  | .place => fun t => ((t.current, t.function), t)
  | .create => fun t => (t.table.next, { t with table := t.table.create (some t.current) })
  | .moveTo id => modify fun t => { t with current := id }
  | .moveOut => modify TableState.exit
  | .setFunction id => modify fun t => { t with function := id }
  | .add id name symbol => Tabled.declareNew id name symbol
  | .replace id name symbol => Tabled.declare id name symbol
  | .push declared => modify fun t => { t with frames := ⟨declared, []⟩ :: t.frames }
  | .pop => fun t => (t.frames.headD ⟨none, []⟩, { t with frames := t.frames.tail })
  | .beginTrial => modify fun t => { t with trials := t.trials + 1 }
  | .endTrial => modify fun t => { t with trials := t.trials - 1 }

/-- What is to be done: nothing more, or an act and what comes next for each of its answers. -/
inductive Plan (α : Type) : Type 1
  | pure (a : α)
  | act {β : Type} (a : Act β) (next : β → Plan α)

namespace Plan

/-- One plan after the other. -/
def bind : Plan α → (α → Plan β) → Plan β
  | .pure a, f => f a
  | .act a next, f => .act a fun b => (next b).bind f

instance : Monad Plan where
  pure := .pure
  bind := Plan.bind

/-- The plan to do one act. -/
def lift (a : Act α) : Plan α :=
  .act a .pure

/-- Carries out a plan. -/
def run : Plan α → Tabled α
  | .pure a => Pure.pure a
  | .act a next => a.run >>= fun b => (next b).run

/-- A plan and the state in which it is carried out. -/
abbrev Course (α : Type) :=
  Plan α × TableState

/-- The next act of a plan is done. -/
inductive Step : Course α → Course α → Prop
  | act {γ : Type} (a : Act γ) (next : γ → Plan α) (t : TableState) :
    Step (.act a next, t) (next (a.run t).1, (a.run t).2)

/-- Some acts of a plan are done. -/
def Reaches (c d : Course α) : Prop :=
  Relation.ReflTransGen Step c d

/-- Does the next act. -/
def step : Course α → Course α
  | (.pure a, t) => (.pure a, t)
  | (.act a next, t) => (next (a.run t).1, (a.run t).2)

/-- **What every step keeps is kept on the way.** -/
theorem Reaches.keeps {P : Course α → Prop} {c d : Course α} (h : Reaches c d) (hc : P c)
    (hstep : ∀ c d, Step c d → P c → P d) : P d := by
  induction h with
  | refl => exact hc
  | tail _ hlast ih => exact hstep _ _ hlast ih

theorem reaches_step (c : Course α) : Reaches c (step c) := by
  obtain ⟨p, t⟩ := c
  cases p with
  | pure a => exact Relation.ReflTransGen.refl
  | act a next => exact Relation.ReflTransGen.single (.act a next t)

theorem reaches_iterate (c : Course α) : ∀ n, Reaches c (step^[n] c)
  | 0 => Relation.ReflTransGen.refl
  | n + 1 => Relation.ReflTransGen.trans (reaches_step c) (reaches_iterate (step c) n)

/-- **A plan comes to an end,** in the state in which it leaves the table when it is carried out. -/
theorem reaches_run (p : Plan α) (t : TableState) :
    Reaches (p, t) (.pure (p.run t).1, (p.run t).2) := by
  induction p generalizing t with
  | pure a => exact Relation.ReflTransGen.refl
  | act a next ih => exact Relation.ReflTransGen.head (.act a next t) (ih (a.run t).1 (a.run t).2)

theorem run_bind (p : Plan α) (f : α → Plan β) (t : TableState) :
    (p >>= f).run t = (f (p.run t).1).run (p.run t).2 := by
  induction p generalizing t with
  | pure a => rfl
  | act a next ih => exact ih (a.run t).1 (a.run t).2

/-! ### The checker as a plan -/

/-- A new scope, and there. -/
def enter : Plan Unit := do
  let id ← lift .create
  lift (.moveTo id)

/-- Something is done in a scope of its own. -/
def inScope (p : Plan α) : Plan α := do
  enter
  let a ← p
  lift .moveOut
  return a

/-- Something is done in the scope of a new function. -/
def inFunctionScope (p : Plan α) : Plan α := do
  enter
  let (current, outer) ← lift .place
  lift (.setFunction current)
  let a ← p
  lift (.setFunction outer)
  lift .moveOut
  return a

/-- Something is done inside a function that declares the given type. -/
def inFrame (declared : Option Ty) (p : Plan Unit) : Plan Frame := do
  lift (.push declared)
  p
  lift .pop

/-- Something is tried out. -/
def trial (p : Plan α) : Plan α := do
  lift .beginTrial
  let a ← p
  lift .endTrial
  return a

/-- A variable is declared. -/
def declareVariable (kind : DeclKind) (name : Ident) (type : Ty) : Plan Unit := do
  let (current, function) ← lift .place
  let id := if kind = .varKind then function else current
  let symbol : Symbol := .value type (some kind) name.span
  match ← lift (.add id name.name symbol) with
  | none => pure ()
  | some existing =>
    match existing with
    | .value _ existingKind _ =>
      if kind = .varKind ∧ (existingKind = none ∨ existingKind = some .varKind) then
        lift (.replace id name.name symbol)
      else if existingKind = none then
        lift (.read (reportBoth (.duplicateIdentifier name.name) existing name.span))
      else lift (.read (reportBoth (.blockScopedRedeclaration name.name) existing name.span))
    | .function _ _ _ =>
      lift (.read (reportBoth (.duplicateIdentifier name.name) existing name.span))

/-- A variable is checked and declared. -/
def declarator (kind : DeclKind) (d : Declarator) : Plan Unit := do
  let declared ← lift (.read (resolve? d.declaredType))
  let initial ← lift (.read (firstValue d.initializer))
  let type ← lift (.read (variableType kind d.name declared initial))
  match type with
  | some type => lift (.read (modify (State.record d.name.span.start type)))
  | none => pure ()
  declareVariable kind d.name (type.getD Ty.any)

/-- The variables of a declaration. -/
def declaration (d : Declaration) : Plan Unit :=
  d.declarators.forM (declarator d.kind)

/-- A name is declared in the scope at hand, and a conflict is answered. -/
def declareHere (name : String) (symbol : Symbol) (conflict : Symbol → Check Unit) : Plan Unit := do
  let (current, _) ← lift .place
  match ← lift (.add current name symbol) with
  | none => pure ()
  | some existing => lift (.read (conflict existing))

/-- A parameter is declared. -/
def declareParameter (p : Parameter) : Plan Unit := do
  let type ← lift (.read (resolve? p.declaredType))
  declareHere p.name.name (.value (type.getD Ty.any) none p.name.span) fun existing =>
    reportBoth (.duplicateIdentifier p.name.name) existing p.name.span

/-- A function is declared. -/
def declareFunction (signature : Signature) : Plan Unit :=
  let name := signature.name
  let result := (signature.returnType.map TypeExpr.toTy).getD Ty.any
  declareHere name.name (functionSymbol signature result) fun existing =>
    match existing with
    | .function _ _ _ => reportBoth .duplicateFunction existing name.span
    | .value _ _ _ => reportBoth (.duplicateIdentifier name.name) existing name.span

/-- The functions of a list of statements are declared. -/
def declareFunctions : List Stmt → Plan Unit
  | [] => pure ()
  | .function signature _ _ _ :: rest => do
    declareFunction signature
    declareFunctions rest
  | _ :: rest => declareFunctions rest

/-- The parameters and the body of a function. -/
def functionBody (signature : Signature) (declared : Option Ty) (p : Plan Unit) : Plan Ty := do
  let frame ← inFunctionScope do
    signature.parameters.forM declareParameter
    inFrame declared p
  lift (.read (concludeFunction signature frame))

/-- What stands first in the header of a `for` statement. -/
def forStart : Option ForStart → Plan Unit
  | some (.declaration d) => declaration d
  | some (.expression e) => lift (.read (expression e))
  | none => pure ()

/-- Statements that stand together. -/
def together (stmts : List Stmt) (tryOut run : Plan Unit) : Plan Unit := do
  declareFunctions stmts
  tryOut
  run

mutual

/-- A statement is checked. -/
def statement : Stmt → Plan Unit
  | .variables d _ => declaration d
  | .function signature body _ _ => do
    let declared ← lift (.read (resolve? signature.returnType))
    let _ ← functionBody signature declared
      (together body (inferFunctions body) (statements body))
  | .block body _ => inScope (together body (inferFunctions body) (statements body))
  | .ifThen condition thenBranch _ => do
    lift (.read (expression condition))
    statement thenBranch
  | .ifElse condition thenBranch elseBranch _ => do
    lift (.read (expression condition))
    statement thenBranch
    statement elseBranch
  | .whileLoop condition body _ => do
    lift (.read (expression condition))
    statement body
  | .forLoop start condition update body _ =>
    inScope do
      forStart start
      lift (.read (expression? condition))
      lift (.read (expression? update))
      statement body
  | .returns value span => lift (.read (returnValue value span))
  | .expression e _ => lift (.read (expression e))

/-- The statements of a list are checked. -/
def statements : List Stmt → Plan Unit
  | [] => pure ()
  | s :: ss => do
    statement s
    statements ss

/-- It is tried out what a function returns that does not say so. -/
def inferFunction : Stmt → Plan Unit
  | .function signature body _ _ =>
    match signature.returnType with
    | some _ => pure ()
    | none => do
      let result ← trial
        (functionBody signature none (together body (inferFunctions body) (statements body)))
      let (current, _) ← lift .place
      lift (.replace current signature.name.name (functionSymbol signature result))
  | _ => pure ()

/-- The same for the functions of a list of statements. -/
def inferFunctions : List Stmt → Plan Unit
  | [] => pure ()
  | s :: ss => do
    inferFunction s
    inferFunctions ss

end

/-- A list of statements that stand together is checked. -/
def body (stmts : List Stmt) : Plan Unit :=
  together stmts (inferFunctions stmts) (statements stmts)

end Plan

end ScriptLint.Check
