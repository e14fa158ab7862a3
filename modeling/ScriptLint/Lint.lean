import ScriptLint.Failure
import ScriptLint.Parsing.Script
import ScriptLint.Rule.Registry
import ScriptLint.Typing.CheckedScript
/-!
# Linting a script

A script on its own is read strictly, checked, and analysed with the
built-in rules: the errors of the checker come first, then the findings.

Key definitions: `Script.parseStrict`, `lint`.
-/

namespace ScriptLint

/-- The tree of a text, or the failure that lists its syntax errors. -/
def Script.parseStrict (name text : String) : Except Failure Script :=
  (Script.parse name text).mapError (.syntactic name)

/-- The errors and findings of a script that stands alone. -/
def lint (name text : String) : Traced (Except Failure (List Diagnostic)) :=
  match Script.parseStrict name text with
  | .error failure => return .error failure
  | .ok script => do
    let checked ← script.checkTraced
    let found ← Registry.standard.analyze script checked.typeOf? []
    return .ok (checked.diagnostics ++ found)

end ScriptLint
