import ScriptLint.Typing.Infer
/-!
# Checking statements

Functions are known in the whole list of statements they stand in. Before
the statements of a list are checked its functions are declared, and then,
one after the other, the bodies of those that declare no return type are
tried out silently to find out what they return. The functions are checked
again, aloud, when their turn comes.

Key definitions: `Check.functionBody`, `Check.declareFunctions`, `Check.statement`, `Check.body`.
-/

namespace ScriptLint.Check

open Typing

/-- Declares a variable: `let` and `const` in the innermost scope, `var` in that of the function.
A `var` may be declared again over another one or over a parameter. -/
def declareVariable (kind : DeclKind) (name : Ident) (type : Ty) : Check Unit := do
  let scopes := (← get).scopes
  let scope := if kind = .varKind then scopes.function else scopes.current
  let symbol : Symbol := .value type (some kind) name.span
  match ← declareNew scope name.name symbol with
  | none => pure ()
  | some existing =>
    match existing with
    | .value _ existingKind _ =>
      if kind = .varKind ∧ (existingKind = none ∨ existingKind = some .varKind) then
        modifyScopes (·.declare scope name.name symbol)
      else if existingKind = none then
        reportBoth (.duplicateIdentifier name.name) existing name.span
      else reportBoth (.blockScopedRedeclaration name.name) existing name.span
    | .function _ _ _ => reportBoth (.duplicateIdentifier name.name) existing name.span

/-- The type of a declared variable. A written type wins, and the first value has to fit it; a
constant takes the type of its value as it is, and other variables take it widened. There is no
type if the value has none. -/
def variableType (kind : DeclKind) (name : Ident) (declared : Option Ty)
    (initial : Option (Option Ty)) : Check (Option Ty) := do
  match declared, initial with
  | some declared, some (some initial) =>
    if !initial.assignable declared then report (.notAssignable initial declared) name.span
    return some declared
  | some declared, _ => return some declared
  | none, some (some initial) =>
    return some (if kind = .constKind then initial else initial.widened)
  | none, some none => return none
  | none, none => return some Ty.any

/-- Checks and declares one variable. -/
def declarator (kind : DeclKind) (d : Declarator) : Check Unit := do
  let declared ← resolve? d.declaredType
  let initial ← match d.initializer with
    | some e => some <$> infer e
    | none => pure none
  let type ← variableType kind d.name declared initial
  match type with
  | some type => modify (State.record d.name.span.start type)
  | none => pure ()
  declareVariable kind d.name (type.getD Ty.any)

/-- Checks and declares the variables of a declaration. -/
def declaration (d : Declaration) : Check Unit :=
  d.declarators.forM (declarator d.kind)

/-- Declares a parameter in the scope of its function. -/
def declareParameter (p : Parameter) : Check Unit := do
  let type ← resolve? p.declaredType
  let symbol : Symbol := .value (type.getD Ty.any) none p.name.span
  match ← declareNew (← get).scopes.current p.name.name symbol with
  | none => pure ()
  | some existing => reportBoth (.duplicateIdentifier p.name.name) existing p.name.span

/-- The symbol of a function with the given result. -/
def functionSymbol (signature : Signature) (result : Ty) : Symbol :=
  .function result (some signature.parameters.length) signature.name.span

/-- Declares a function with its written result, or with `any` for the time being. -/
def declareFunction (signature : Signature) : Check Unit := do
  let result := (signature.returnType.map TypeExpr.toTy).getD Ty.any
  let name := signature.name
  match ← declareNew (← get).scopes.current name.name (functionSymbol signature result) with
  | none => pure ()
  | some existing =>
    match existing with
    | .function _ _ _ => reportBoth .duplicateFunction existing name.span
    | .value _ _ _ => reportBoth (.duplicateIdentifier name.name) existing name.span

/-- Declares the functions of a list of statements. -/
def declareFunctions : List Stmt → Check Unit
  | [] => pure ()
  | .function signature _ _ _ :: rest => do
    declareFunction signature
    declareFunctions rest
  | _ :: rest => declareFunctions rest

/-- What a function returns: nothing, or the union of what its `return` statements yield. -/
def returnedType : List Ty → Ty
  | [] => Ty.void
  | types => Ty.join (types.map Ty.widened)

/-- A function that has to return a value, and never does. -/
def lacksReturn (frame : Frame) : Bool :=
  match frame.declared with
  | some declared =>
    frame.returns.isEmpty && !declared.flags.intersects
      (Flags.any ||| Flags.unknown ||| Flags.void ||| Flags.undefined)
  | none => false

/-- Checks a function: its parameters and then its body, for which `run` is given, in a scope of
its own. Yields what the function was found to return. -/
def functionBody (signature : Signature) (declared : Option Ty) (run : Check Unit) :
    Check Ty := do
  let frame ← inFunctionScope do
    signature.parameters.forM declareParameter
    inFrame declared run
  match signature.returnType with
  | some type => if lacksReturn frame then report .missingReturn type.span
  | none => pure ()
  return returnedType frame.returns

/-- Checks a `return` statement at the given span. Outside of all functions it is out of place. -/
def returnValue (value : Option Expr) (span : Span) : Check Unit := do
  let type ← match value with
    | some e => infer e
    | none => pure (some Ty.void)
  match (← get).frames with
  | [] => report .strayReturn span
  | frame :: _ =>
    match value, type, frame.declared with
    | some e, some type, some declared =>
      if !type.assignable declared then report (.notAssignable type declared) e.span
    | _, _, _ => pure ()
    addReturn (type.getD Ty.any)

/-- Checks an expression whose type does not matter. -/
def expression (e : Expr) : Check Unit := do
  let _ ← infer e

/-- Checks an expression if there is one. -/
def expression? : Option Expr → Check Unit
  | some e => expression e
  | none => pure ()

/-- Checks what stands first in the header of a `for` statement. -/
def forStart : Option ForStart → Check Unit
  | some (.declaration d) => declaration d
  | some (.expression e) => expression e
  | none => pure ()

/-- Checks statements that stand together: their functions are declared first, then tried out by
`tryOut`, and then the statements are checked by `run`. -/
def together (stmts : List Stmt) (tryOut run : Check Unit) : Check Unit := do
  declareFunctions stmts
  tryOut
  run

mutual

/-- Checks a statement. -/
def statement : Stmt → Check Unit
  | .variables d _ => declaration d
  | .function signature body _ _ => do
    let declared ← resolve? signature.returnType
    let _ ← functionBody signature declared
      (together body (inferFunctions body) (statements body))
  | .block body _ => inScope (together body (inferFunctions body) (statements body))
  | .ifThen condition thenBranch _ => do
    expression condition
    statement thenBranch
  | .ifElse condition thenBranch elseBranch _ => do
    expression condition
    statement thenBranch
    statement elseBranch
  | .whileLoop condition body _ => do
    expression condition
    statement body
  | .forLoop start condition update body _ =>
    inScope do
      forStart start
      expression? condition
      expression? update
      statement body
  | .returns value span => returnValue value span
  | .expression e _ => expression e

/-- Checks the statements of a list, one after the other. -/
def statements : List Stmt → Check Unit
  | [] => pure ()
  | s :: ss => do
    statement s
    statements ss

/-- Finds out what a function returns that does not say so, by trying out its body. -/
def inferFunction : Stmt → Check Unit
  | .function signature body _ _ =>
    match signature.returnType with
    | some _ => pure ()
    | none => do
      let result ← silently
        (functionBody signature none (together body (inferFunctions body) (statements body)))
      let scope := (← get).scopes.current
      modifyScopes (·.declare scope signature.name.name (functionSymbol signature result))
  | _ => pure ()

/-- Finds out what the functions of a list of statements return. -/
def inferFunctions : List Stmt → Check Unit
  | [] => pure ()
  | s :: ss => do
    inferFunction s
    inferFunctions ss

end

/-- Checks a list of statements that stand together. -/
def body (stmts : List Stmt) : Check Unit :=
  together stmts (inferFunctions stmts) (statements stmts)

end ScriptLint.Check
