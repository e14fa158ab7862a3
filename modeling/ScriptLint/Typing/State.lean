import ScriptLint.Typing.Problem
import ScriptLint.Typing.TypeExpr
/-!
# The state of the checker

The checker walks a script once and keeps the scopes around it, the types of
the variables declared so far, the functions it is in, and the errors found.
While it only tries out the body of a function it is silent: it reports no
error and records no type.

Key definitions: `Typing.State`, `Check`, `Check.report`, `Check.silently`, `Check.inScope`.
-/

namespace ScriptLint

namespace Typing

/-- A function whose body is being checked: the type it declares, and the types of the values
it was found to return. -/
structure Frame where
  declared : Option Ty
  returns : List Ty

/-- What the checker knows at a place. `types` is keyed by the start of the declared name,
`frames` has the innermost function first, and `log` the newest error first. -/
structure State where
  scopes : ScopeStack
  types : List (Nat × Ty)
  frames : List Frame
  silent : Bool
  log : List TypeError

namespace State

/-- The checker before the first statement. -/
def initial : State :=
  ⟨ScopeStack.file, [], [], false, []⟩

/-- The errors found so far, in the order in which they were found. -/
def errors (s : State) : List TypeError :=
  s.log.reverse

/-- Adds an error, unless the checker is silent or has told the same before. -/
def report (e : TypeError) (s : State) : State :=
  if s.silent || s.log.any (·.sameAs e) then s else { s with log := e :: s.log }

/-- Records the type of a declared variable, unless the checker is silent. -/
def record (start : Nat) (type : Ty) (s : State) : State :=
  if s.silent then s else { s with types := (start, type) :: s.types }

end State

end Typing

/-- A step of the checker. -/
abbrev Check := StateM Typing.State

namespace Check

open Typing

variable {α : Type}

/-- Reports a problem. -/
def report (problem : TypeProblem) (span : Span) : Check Unit :=
  modify (State.report ⟨problem, span⟩)

/-- Reports a conflict between two declarations of a name at both of them. -/
def reportBoth (problem : TypeProblem) (existing : Symbol) (span : Span) : Check Unit := do
  report problem existing.span
  report problem span

/-- Applies a change to the scopes. -/
def modifyScopes (f : ScopeStack → ScopeStack) : Check Unit :=
  modify fun s => { s with scopes := f s.scopes }

/-- What a name stands for here. -/
def lookup? (name : String) : Check (Option Symbol) :=
  return ((← get).scopes.lookup? name).or (ambientSymbol? name)

/-- Declares a name in a scope that does not have it yet. Otherwise nothing changes, and the
symbol that the scope has is the answer. -/
def declareNew (scope : Nat) (name : String) (symbol : Symbol) : Check (Option Symbol) := do
  match (← get).scopes.find? scope name with
  | some existing => return some existing
  | none =>
    modifyScopes (·.declare scope name symbol)
    return none

/-- Runs a step in a scope of its own. -/
def inScope (step : Check α) : Check α := do
  modifyScopes ScopeStack.enter
  let a ← step
  modifyScopes ScopeStack.exit
  return a

/-- Runs a step in the scope of a new function. -/
def inFunctionScope (step : Check α) : Check α := do
  let function := (← get).scopes.function
  modifyScopes ScopeStack.enterFunction
  let a ← step
  modifyScopes fun s => { s.exit with function := function }
  return a

/-- Runs a step inside a function that declares the given type, and yields the function's frame. -/
def inFrame (declared : Option Ty) (step : Check Unit) : Check Frame := do
  modify fun s => { s with frames := ⟨declared, []⟩ :: s.frames }
  step
  let frame := (← get).frames.headD ⟨none, []⟩
  modify fun s => { s with frames := s.frames.tail }
  return frame

/-- Adds a type to those that the innermost function returns. -/
def addReturn (type : Ty) : Check Unit :=
  modify fun s =>
    match s.frames with
    | frame :: frames =>
      { s with frames := { frame with returns := frame.returns ++ [type] } :: frames }
    | [] => s

/-- Runs a step without reporting errors or recording types. -/
def silently (step : Check α) : Check α := do
  let silent := (← get).silent
  modify fun s => { s with silent := true }
  let a ← step
  modify fun s => { s with silent := silent }
  return a

/-- The type that is written. Names that no type has are reported. -/
def resolve (type : TypeExpr) : Check Ty := do
  type.unknownNames.forM fun name => report (.unknownName name.name) name.span
  return type.toTy

/-- The type that is written, if one is. -/
def resolve? : Option TypeExpr → Check (Option Ty)
  | some type => return some (← resolve type)
  | none => return none

end Check

end ScriptLint
