import ScriptLint.Syntax.Error
/-!
# Diagnostics

A diagnostic is one finding in a file: what was found, where, and by whom.
Findings of the checker itself name no source; those of a rule do.

Key definitions: `Category`, `Diagnostic`, `Collector`.
-/

namespace ScriptLint

/-- How serious a finding is. -/
inductive Category where
  | warning
  | error
  | suggestion
  | message
  deriving DecidableEq, Repr

namespace Category

/-- The word for a category. -/
def word : Category → String
  | .warning => "warning"
  | .error => "error"
  | .suggestion => "suggestion"
  | .message => "message"

end Category

/-- A finding in a file. -/
structure Diagnostic where
  file : String
  span : Span
  message : String
  category : Category
  source : Option String
  code : Nat
  deriving DecidableEq, Repr

/-- A syntax error as a finding in a file. -/
def SyntaxError.toDiagnostic (file : String) (e : SyntaxError) : Diagnostic where
  file := file
  span := e.span
  message := e.problem.message
  category := .error
  source := none
  code := e.problem.code

/-- The findings of one run over one file, in the order in which they were made. -/
structure Collector where
  file : String
  diagnostics : List Diagnostic

namespace Collector

/-- No findings yet. -/
def new (file : String) : Collector :=
  ⟨file, []⟩

/-- Takes a finding as it is. -/
def add (c : Collector) (d : Diagnostic) : Collector :=
  { c with diagnostics := c.diagnostics ++ [d] }

/-- Takes a finding in the file of this run. -/
def report (c : Collector) (category : Category) (source : Option String) (code : Nat)
    (message : String) (span : Span) : Collector :=
  c.add ⟨c.file, span, message, category, source, code⟩

/-- Takes an error in the file of this run. -/
def reportError (c : Collector) (source : Option String) (code : Nat) (message : String)
    (span : Span) : Collector :=
  c.report .error source code message span

/-- Some finding is an error. -/
def hasErrors (c : Collector) : Bool :=
  c.diagnostics.any (·.category == .error)

end Collector

end ScriptLint
