import ScriptLint.Syntax.Error
/-!
# Failures

The requests that cannot be answered, with the wording of each.

Key definitions: `Failure`, `Failure.message`.
-/

namespace ScriptLint

/-- Why a request fails. -/
inductive Failure where
  | lexical (error : LexicalError)
  | syntactic (file : String) (errors : List SyntaxError)
  | unknownFile (file : String)
  deriving DecidableEq, Repr

namespace Failure

/-- The wording of a failure. -/
def message : Failure → String
  | .lexical e => "Lexer encountered an error while tokenizing input: " ++ e.fault.message
  | .syntactic file errors =>
    "Failed to parse " ++ file ++ ": " ++ toString errors.length ++ " syntax error(s)"
  | .unknownFile file => "File is not part of the project: " ++ file

end Failure

end ScriptLint
