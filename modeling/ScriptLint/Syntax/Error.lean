import ScriptLint.Token.Basic
import ScriptLint.Token.Fault
/-!
# Syntax errors

A syntax error is a problem at a place. Each problem has a number and a
wording; a lexical error is a syntax error too.

Key definitions: `SyntaxProblem`, `SyntaxProblem.code`, `SyntaxProblem.message`, `SyntaxError`.
-/

namespace ScriptLint

/-- Scripts that nest deeper than this are not read. -/
def nestingLimit : Nat := 100

/-- What is wrong with the syntax. -/
inductive SyntaxProblem where
  | expected (sign : Punctuator)
  | identifierExpected
  | expressionExpected
  | typeExpected
  | nestedTooDeeply
  | invalidAssignmentTarget
  | lexical (fault : Fault)
  deriving DecidableEq, Repr

namespace SyntaxProblem

/-- The number of a problem. -/
def code : SyntaxProblem → Nat
  | .expected _ => 1005
  | .identifierExpected => 1003
  | .expressionExpected => 1109
  | .typeExpected => 1110
  | .nestedTooDeeply => 1999
  | .invalidAssignmentTarget => 2364
  | .lexical .unterminatedString => 1002
  | .lexical .unterminatedComment => 1010
  | .lexical _ => 1127

/-- The wording of a problem. -/
def message : SyntaxProblem → String
  | .expected sign => "'" ++ sign.spelling ++ "' expected."
  | .identifierExpected => "Identifier expected."
  | .expressionExpected => "Expression expected."
  | .typeExpected => "Type expected."
  | .nestedTooDeeply =>
    "Nesting deeper than " ++ toString nestingLimit ++ " levels is not supported."
  | .invalidAssignmentTarget =>
    "The left-hand side of an assignment expression must be a variable or a property access."
  | .lexical fault => fault.message ++ "."

end SyntaxProblem

/-- A problem at its place in the text. -/
structure SyntaxError where
  problem : SyntaxProblem
  span : Span
  deriving DecidableEq, Repr

namespace SyntaxError

/-- A lexical error as a syntax error at the same place. -/
def ofLexical (e : LexicalError) : SyntaxError :=
  ⟨.lexical e.fault, e.span⟩

end SyntaxError

end ScriptLint
