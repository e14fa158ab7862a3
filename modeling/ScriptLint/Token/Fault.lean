import ScriptLint.Text.Span
/-!
# Lexical errors

What can be wrong with a stretch of text that is no token. Reading always
goes on after it.

Key definitions: `Fault`, `Fault.message`, `LexicalError`.
-/

namespace ScriptLint

/-- The reason why a stretch of text is no token. -/
inductive Fault where
  | unexpectedCharacter (character : Char)
  | unterminatedString
  | unterminatedComment
  | invalidEscape (character : Char)
  | invalidNumber (text : String)
  deriving DecidableEq, Repr

namespace Fault

/-- The wording of a lexical error, without a full stop. -/
def message : Fault → String
  | .unexpectedCharacter character => "Invalid character '" ++ character.toString ++ "'"
  | .unterminatedString => "Unterminated string literal"
  | .unterminatedComment => "Unterminated comment"
  | .invalidEscape character => "Invalid escape sequence '\\" ++ character.toString ++ "'"
  | .invalidNumber text => "Invalid number '" ++ text ++ "'"

end Fault

/-- A lexical error at its place in the text. -/
structure LexicalError where
  fault : Fault
  span : Span
  deriving DecidableEq, Repr

end ScriptLint
