import ScriptLint.Typing.Check
import ScriptLint.Event
/-!
# Checked scripts

The result of checking a script: the types of its variables and the errors
found in it. Types are known by the place of the declared name, and only
under the name of the file that was checked.

Key definitions: `CheckedScript`, `Script.check`, `CheckedScript.typeOf?`.
-/

namespace ScriptLint

/-- The types and the errors of one file. -/
structure CheckedScript where
  file : String
  types : List (Nat × Ty)
  diagnostics : List Diagnostic

namespace CheckedScript

/-- The type of the variable whose name starts at the given offset. -/
def typeAt? (checked : CheckedScript) (start : Nat) : Option Ty :=
  checked.types.lookup start

/-- The type of a variable that a script declares. -/
def typeOf? (checked : CheckedScript) (script : Script) (d : Declarator) : Option Ty :=
  if script.name = checked.file then checked.typeAt? d.name.span.start else none

end CheckedScript

namespace Script

/-- The state of the checker behind the last statement. -/
def checkedState (script : Script) : Typing.State :=
  ((Check.body script.body).run Typing.State.initial).2

/-- The types and the errors of a script. -/
def check (script : Script) : CheckedScript :=
  let s := script.checkedState
  ⟨script.name, s.types, s.errors.map (TypeError.toDiagnostic script.name)⟩

/-- Checks a script and tells what came out. -/
def checkTraced (script : Script) : Traced CheckedScript := do
  let checked := script.check
  Traced.tell .debug ("checked " ++ script.name ++ ": " ++ toString checked.types.length
    ++ " declaration(s) typed, " ++ toString checked.diagnostics.length ++ " diagnostic(s)")
  return checked

end Script

end ScriptLint
