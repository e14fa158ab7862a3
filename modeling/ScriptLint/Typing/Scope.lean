import ScriptLint.Syntax.Basic
import ScriptLint.Types.Ty
/-!
# Scopes

A name means the symbol of the nearest enclosing scope that declares it, or
else a global that every script can see. Scopes are stacked: number 0 is the
file, the last one is where the checker is, and each lies inside the one
before it. One of them is the scope of the function at hand (or of the
file); that is where `var` declares.

Key definitions: `Symbol`, `ScopeStack`, `ScopeStack.lookup?`, `ScopeStack.declare`,
`ambientSymbol?`.
-/

namespace ScriptLint

/-- What a name stands for. The kind of a parameter is `none`, and a function of arity `none`
takes any number of arguments. -/
inductive Symbol where
  | value (type : Ty) (kind : Option DeclKind) (span : Span)
  | function (result : Ty) (arity : Option Nat) (span : Span)

namespace Symbol

/-- Where the name was declared. -/
def span : Symbol → Span
  | .value _ _ span => span
  | .function _ _ span => span

end Symbol

/-- The symbols of one scope, the newest first. -/
abbrev Scope := List (String × Symbol)

/-- The scopes around a place in a script, the file first. -/
structure ScopeStack where
  scopes : List Scope
  function : Nat

namespace ScopeStack

/-- The file alone. -/
def file : ScopeStack :=
  ⟨[[]], 0⟩

/-- The number of the innermost scope. -/
def current (s : ScopeStack) : Nat :=
  s.scopes.length - 1

/-- The scope around the given one; the file has none. -/
def parent? (s : ScopeStack) (scope : Nat) : Option Nat :=
  if scope = 0 ∨ s.scopes.length ≤ scope then none else some (scope - 1)

/-- A new scope inside the innermost one. -/
def enter (s : ScopeStack) : ScopeStack :=
  { s with scopes := s.scopes ++ [[]] }

/-- A new scope inside the innermost one, for a function. -/
def enterFunction (s : ScopeStack) : ScopeStack :=
  { s.enter with function := s.enter.current }

/-- Leaves the innermost scope, unless it is the file. -/
def exit (s : ScopeStack) : ScopeStack :=
  { s with scopes := if s.scopes.length ≤ 1 then s.scopes else s.scopes.dropLast }

/-- The symbol that a scope itself declares. -/
def find? (s : ScopeStack) (scope : Nat) (name : String) : Option Symbol :=
  (s.scopes[scope]?).bind (·.lookup name)

/-- The symbol of the nearest enclosing scope that declares the name. -/
def lookup? (s : ScopeStack) (name : String) : Option Symbol :=
  s.scopes.reverse.findSome? (·.lookup name)

/-- Declares a name in a scope, whether or not it was declared there. -/
def declare (s : ScopeStack) (scope : Nat) (name : String) (symbol : Symbol) : ScopeStack :=
  { s with scopes := s.scopes.modify scope ((name, symbol) :: ·) }

end ScopeStack

/-- The types that every script can name. -/
def isAmbientType (name : String) : Bool :=
  ["Boolean", "Number", "String", "Object", "Function", "Date"].contains name

/-- The globals that every script can see. -/
def ambientSymbol? (name : String) : Option Symbol :=
  let value (type : Ty) : Symbol := .value type (some .varKind) (Span.emptyAt 0)
  let function (result : Ty) : Symbol := .function result none (Span.emptyAt 0)
  if ["console", "Math", "JSON", "Object", "Array", "Date"].contains name then some (value Ty.any)
  else if name = "undefined" then some (value Ty.undefined)
  else if ["NaN", "Infinity"].contains name then some (value Ty.number)
  else if ["parseInt", "parseFloat", "Number"].contains name then some (function Ty.number)
  else if ["isNaN", "isFinite", "Boolean"].contains name then some (function Ty.boolean)
  else if name = "String" then some (function Ty.string)
  else none

end ScriptLint
