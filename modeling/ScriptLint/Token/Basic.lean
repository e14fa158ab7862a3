import ScriptLint.Number.Binary64
import ScriptLint.Text.Span
/-!
# Tokens

The vocabulary of a script: reserved words, punctuators, and the three
kinds of token that carry a payload. The names of types are reserved, but
most of them may still be used as the name of a variable.

Key definitions: `Keyword`, `Punctuator`, `Token`, `Token.name?`, `Lexeme`.
-/

namespace ScriptLint

/-- The reserved words. -/
inductive Keyword where
  | letWord
  | constWord
  | varWord
  | functionWord
  | returnWord
  | ifWord
  | elseWord
  | forWord
  | whileWord
  | trueWord
  | falseWord
  | nullWord
  | typeofWord
  | booleanWord
  | numberWord
  | stringWord
  | anyWord
  | unknownWord
  | voidWord
  | neverWord
  | objectWord
  deriving DecidableEq, Repr

namespace Keyword

/-- All reserved words. -/
def all : List Keyword :=
  [.letWord, .constWord, .varWord, .functionWord, .returnWord, .ifWord, .elseWord, .forWord,
    .whileWord, .trueWord, .falseWord, .nullWord, .typeofWord, .booleanWord, .numberWord,
    .stringWord, .anyWord, .unknownWord, .voidWord, .neverWord, .objectWord]

/-- The word as it is written. -/
def spelling : Keyword → String
  | .letWord => "let"
  | .constWord => "const"
  | .varWord => "var"
  | .functionWord => "function"
  | .returnWord => "return"
  | .ifWord => "if"
  | .elseWord => "else"
  | .forWord => "for"
  | .whileWord => "while"
  | .trueWord => "true"
  | .falseWord => "false"
  | .nullWord => "null"
  | .typeofWord => "typeof"
  | .booleanWord => "boolean"
  | .numberWord => "number"
  | .stringWord => "string"
  | .anyWord => "any"
  | .unknownWord => "unknown"
  | .voidWord => "void"
  | .neverWord => "never"
  | .objectWord => "object"

/-- The reserved word with the given spelling. -/
def ofSpelling? (text : String) : Option Keyword :=
  all.find? (·.spelling == text)

/-- The names of types, except `void`, are free for use as names of variables. -/
def isName : Keyword → Bool
  | .booleanWord | .numberWord | .stringWord | .anyWord | .unknownWord | .neverWord
  | .objectWord => true
  | _ => false

end Keyword

/-- The tokens that are made of signs. -/
inductive Punctuator where
  | plus
  | minus
  | star
  | slash
  | percent
  | equal
  | equalEqual
  | equalEqualEqual
  | notEqual
  | notEqualEqual
  | plusEqual
  | minusEqual
  | greater
  | greaterEqual
  | less
  | lessEqual
  | leftBrace
  | rightBrace
  | leftParen
  | rightParen
  | leftBracket
  | rightBracket
  | comma
  | colon
  | semicolon
  | question
  | questionQuestion
  | barBar
  | bar
  | ampersandAmpersand
  | ampersand
  | caret
  | leftShift
  | rightShift
  | bang
  | dot
  deriving DecidableEq, Repr

namespace Punctuator

/-- All punctuators, longer spellings first. -/
def all : List Punctuator :=
  [.equalEqualEqual, .notEqualEqual,
    .equalEqual, .notEqual, .plusEqual, .minusEqual, .greaterEqual, .lessEqual, .questionQuestion,
    .barBar, .ampersandAmpersand, .leftShift, .rightShift,
    .plus, .minus, .star, .slash, .percent, .equal, .greater, .less, .leftBrace, .rightBrace,
    .leftParen, .rightParen, .leftBracket, .rightBracket, .comma, .colon, .semicolon, .question,
    .bar, .ampersand, .caret, .bang, .dot]

/-- The punctuator as it is written. -/
def spelling : Punctuator → String
  | .plus => "+"
  | .minus => "-"
  | .star => "*"
  | .slash => "/"
  | .percent => "%"
  | .equal => "="
  | .equalEqual => "=="
  | .equalEqualEqual => "==="
  | .notEqual => "!="
  | .notEqualEqual => "!=="
  | .plusEqual => "+="
  | .minusEqual => "-="
  | .greater => ">"
  | .greaterEqual => ">="
  | .less => "<"
  | .lessEqual => "<="
  | .leftBrace => "\x7b"
  | .rightBrace => "\x7d"
  | .leftParen => "("
  | .rightParen => ")"
  | .leftBracket => "["
  | .rightBracket => "]"
  | .comma => ","
  | .colon => ":"
  | .semicolon => ";"
  | .question => "?"
  | .questionQuestion => "??"
  | .barBar => "||"
  | .bar => "|"
  | .ampersandAmpersand => "&&"
  | .ampersand => "&"
  | .caret => "^"
  | .leftShift => "<<"
  | .rightShift => ">>"
  | .bang => "!"
  | .dot => "."

end Punctuator

/-- A word of a script. -/
inductive Token where
  | keyword (word : Keyword)
  | punctuator (sign : Punctuator)
  | identifier (name : String)
  | string (value : String)
  | number (value : Binary64)
  deriving DecidableEq, Repr

namespace Token

/-- The name that a token stands for where a name is expected. -/
def name? : Token → Option String
  | .identifier name => some name
  | .keyword word => if word.isName then some word.spelling else none
  | _ => none

end Token

/-- A token at its place in the text. -/
structure Lexeme where
  token : Token
  span : Span
  deriving DecidableEq, Repr

end ScriptLint
