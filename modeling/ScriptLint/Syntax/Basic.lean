import ScriptLint.Syntax.Operator
import ScriptLint.Text.Bytes
/-!
# Syntax trees

The tree of a script: types as they are written, expressions, statements.
Every node knows its span. A type in parentheses leaves no node; an
expression in parentheses does.

Key definitions: `TypeExpr`, `Expr`, `Declaration`, `Stmt`, `Script`.
-/

namespace ScriptLint

/-- A name at its place in the text. -/
structure Ident where
  name : String
  span : Span
  deriving DecidableEq, Repr

/-- The types that have a word of their own. -/
inductive TypeKeyword where
  | boolean
  | number
  | string
  | any
  | unknown
  | void
  | never
  | object
  | null
  | undefined
  deriving DecidableEq, Repr

/-- A type as it is written in an annotation. -/
inductive TypeExpr where
  | keyword (word : TypeKeyword) (span : Span)
  | literal (value : Bool) (span : Span)
  | reference (name : Ident)
  | array (element : TypeExpr) (span : Span)
  | union (members : List TypeExpr) (span : Span)

namespace TypeExpr

/-- Where the type stands. -/
def span : TypeExpr → Span
  | .keyword _ span => span
  | .literal _ span => span
  | .reference name => name.span
  | .array _ span => span
  | .union _ span => span

end TypeExpr

/-- An expression. -/
inductive Expr where
  | number (value : Binary64) (span : Span)
  | string (value : String) (span : Span)
  | boolean (value : Bool) (span : Span)
  | null (span : Span)
  | identifier (name : Ident)
  | binary (op : BinaryOp) (left right : Expr) (span : Span)
  | unary (op : UnaryOp) (operand : Expr) (span : Span)
  | typeOf (operand : Expr) (span : Span)
  | assignment (op : AssignOp) (target value : Expr) (span : Span)
  | conditional (condition whenTrue whenFalse : Expr) (span : Span)
  | call (callee : Expr) (arguments : List Expr) (span : Span)
  | property (object : Expr) (name : Ident) (span : Span)
  | element (object index : Expr) (span : Span)
  | parenthesized (inner : Expr) (span : Span)
  | array (elements : List Expr) (span : Span)

namespace Expr

/-- Where the expression stands. -/
def span : Expr → Span
  | .number _ span => span
  | .string _ span => span
  | .boolean _ span => span
  | .null span => span
  | .identifier name => name.span
  | .binary _ _ _ span => span
  | .unary _ _ span => span
  | .typeOf _ span => span
  | .assignment _ _ _ span => span
  | .conditional _ _ _ span => span
  | .call _ _ span => span
  | .property _ _ span => span
  | .element _ _ span => span
  | .parenthesized _ span => span
  | .array _ span => span

/-- A value can be stored in a variable, a property or an element, and nowhere else. -/
def isAssignable : Expr → Bool
  | .identifier _ => true
  | .property _ _ _ => true
  | .element _ _ _ => true
  | _ => false

end Expr

/-- The three ways to declare a variable. -/
inductive DeclKind where
  | varKind
  | letKind
  | constKind
  deriving DecidableEq, Repr

namespace DeclKind

/-- The kind of declaration that a token begins. -/
def ofToken? : Token → Option DeclKind
  | .keyword .varWord => some .varKind
  | .keyword .letWord => some .letKind
  | .keyword .constWord => some .constKind
  | _ => none

end DeclKind

/-- One variable of a declaration. Its span starts at the name. -/
structure Declarator where
  name : Ident
  declaredType : Option TypeExpr
  initializer : Option Expr
  span : Span

/-- A keyword and the variables it declares. -/
structure Declaration where
  kind : DeclKind
  declarators : List Declarator
  span : Span

/-- A parameter of a function. -/
structure Parameter where
  name : Ident
  declaredType : Option TypeExpr
  span : Span

/-- A function without its body. -/
structure Signature where
  name : Ident
  parameters : List Parameter
  returnType : Option TypeExpr

/-- What stands first in the header of a `for` statement. -/
inductive ForStart where
  | declaration (declaration : Declaration)
  | expression (expression : Expr)

/-- A statement. -/
inductive Stmt where
  | variables (declaration : Declaration) (span : Span)
  | function (signature : Signature) (body : List Stmt) (bodySpan span : Span)
  | block (body : List Stmt) (span : Span)
  | ifThen (condition : Expr) (thenBranch : Stmt) (span : Span)
  | ifElse (condition : Expr) (thenBranch elseBranch : Stmt) (span : Span)
  | whileLoop (condition : Expr) (body : Stmt) (span : Span)
  | forLoop (start : Option ForStart) (condition update : Option Expr) (body : Stmt) (span : Span)
  | returns (value : Option Expr) (span : Span)
  | expression (expression : Expr) (span : Span)

namespace Stmt

/-- Where the statement stands. -/
def span : Stmt → Span
  | .variables _ span => span
  | .function _ _ _ span => span
  | .block _ span => span
  | .ifThen _ _ span => span
  | .ifElse _ _ _ span => span
  | .whileLoop _ _ span => span
  | .forLoop _ _ _ _ span => span
  | .returns _ span => span
  | .expression _ span => span

end Stmt

/-- A file with its text and its statements. -/
structure Script where
  name : String
  text : String
  body : List Stmt

namespace Script

/-- The span of the whole text. -/
def span (script : Script) : Span :=
  ⟨0, script.text.utf8ByteSize⟩

/-- The text of a span, which is empty if the span does not fit the text. -/
def slice (script : Script) (span : Span) : String :=
  String.ofList ((slice? span script.text.toList).getD [])

end Script

end ScriptLint
