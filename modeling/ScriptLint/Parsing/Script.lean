import ScriptLint.Parsing.Statement
/-!
# Reading scripts

A script can always be read: what cannot be understood is left out of the
tree and listed as an error. The strict reading takes a script only if there
is no error.

Key definitions: `Script.recover`, `Script.parse`.
-/

namespace ScriptLint.Script

/-- The statements of a text, and the state of the reader at its end. A list of statements
never fails, so the second case does not arise. -/
def readBody (text : String) : List Stmt × Parse.State :=
  match Parse.statements (Parse.statement nestingLimit) none (Parse.State.ofText text) with
  | .ok body s => (body, s)
  | .error e s => ([], s.note e)

/-- The tree of a text, and all errors met on the way. -/
def recover (name text : String) : Script × List SyntaxError :=
  let (body, s) := readBody text
  (⟨name, text, body⟩, s.errors)

/-- The tree of a text without errors, or all of its errors. -/
def parse (name text : String) : Except (List SyntaxError) Script :=
  match recover name text with
  | (script, []) => .ok script
  | (_, errors) => .error errors

end ScriptLint.Script
