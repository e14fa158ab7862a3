import ScriptLint.Parsing.TypeExpr
import ScriptLint.Parsing.Expression
/-!
# Reading statements

A statement that cannot be read is given up: its error is noted, and reading
goes on behind the next semicolon or at the next word that begins a
statement. Lists of statements therefore never fail.

Key definitions: `Parse.synchronize`, `Parse.statements`, `Parse.statement`.
-/

namespace ScriptLint.Parse

/-- The readers of the parts of a statement, one level deeper. -/
structure Parts where
  typeExpr : Parse TypeExpr
  expression : Parse Expr
  statement : Parse Stmt

/-- The tokens at which reading may go on after an error. -/
def startsStatement : Token → Bool
  | .punctuator .rightBrace => true
  | .keyword word =>
    [.letWord, .constWord, .varWord, .functionWord, .returnWord, .ifWord, .forWord,
      .whileWord].contains word
  | _ => false

/-- Skips to a place where a statement may begin. -/
def synchronize : Parse Unit :=
  loop (fun () => do
    match ← peek with
    | none => return .done ()
    | some token =>
      if token = .punctuator .semicolon then
        advance
        return .done ()
      else if startsStatement token then return .done ()
      else
        advance
        return .again ()) ()

/-- Notes the error of a statement that began at `start` and skips what is left of it, but at
least one token. -/
def recover (start : Nat) (e : SyntaxError) : Parse Unit := do
  modify (State.note e)
  if (← currentSpan).start = start then advance
  synchronize

/-- The statements up to `close`, or to the end of the text. Semicolons may stand between them. -/
def statements (statement : Parse Stmt) (close : Option Token) : Parse (List Stmt) :=
  loop (fun body => do
    let token ← peek
    if token = none ∨ token = close then return .done body
    else if ← eat (.punctuator .semicolon) then return .again body
    else
      let start := (← currentSpan).start
      match ← attempt statement with
      | .ok stmt => return .again (body ++ [stmt])
      | .error e =>
        recover start e
        return .again body) []

/-- Statements in braces, and the span of all. -/
def block (statement : Parse Stmt) : Parse (List Stmt × Span) := do
  let start := (← currentSpan).start
  expect .leftBrace
  let body ← statements statement (some (.punctuator .rightBrace))
  expect .rightBrace
  return (body, ← spanFrom start)

/-- A variable with its annotation and its first value. -/
def declarator (inner : Parts) : Parse Declarator := do
  let name ← ident
  let declaredType ← optionalAfter .colon inner.typeExpr
  let initializer ← optionalAfter .equal inner.expression
  return ⟨name, declaredType, initializer, ← spanFrom name.span.start⟩

/-- The keyword of a declaration, which is the next token, and its variables. -/
def declaration (inner : Parts) (kind : DeclKind) : Parse Declaration := do
  let start := (← currentSpan).start
  advance
  let declarators ← separated .comma (declarator inner)
  return ⟨kind, declarators, ← spanFrom start⟩

/-- A parameter with its annotation. -/
def parameter (inner : Parts) : Parse Parameter := do
  let name ← ident
  let declaredType ← optionalAfter .colon inner.typeExpr
  return ⟨name, declaredType, ← spanFrom name.span.start⟩

/-- The parameters of a function, in parentheses. -/
def parameters (inner : Parts) : Parse (List Parameter) := do
  expect .leftParen
  let parameters ←
    if (← peek) = some (.punctuator .rightParen) then pure []
    else separated .comma (parameter inner)
  expect .rightParen
  return parameters

/-- A function declaration. -/
def function (inner : Parts) : Parse Stmt := do
  let start := (← currentSpan).start
  advance
  let name ← ident
  let parameters ← parameters inner
  let returnType ← optionalAfter .colon inner.typeExpr
  let (body, bodySpan) ← block inner.statement
  return .function ⟨name, parameters, returnType⟩ body bodySpan (← spanFrom start)

/-- An expression in parentheses that decides what is done. -/
def condition (inner : Parts) : Parse Expr := do
  expect .leftParen
  let condition ← inner.expression
  expect .rightParen
  return condition

/-- A statement under a condition, perhaps with one for the other case. -/
def ifStatement (inner : Parts) : Parse Stmt := do
  let start := (← currentSpan).start
  advance
  let condition ← condition inner
  let thenBranch ← inner.statement
  if ← eat (.keyword .elseWord) then
    let elseBranch ← inner.statement
    return .ifElse condition thenBranch elseBranch (← spanFrom start)
  else return .ifThen condition thenBranch (← spanFrom start)

/-- A statement that is repeated under a condition. -/
def whileStatement (inner : Parts) : Parse Stmt := do
  let start := (← currentSpan).start
  advance
  let condition ← condition inner
  let body ← inner.statement
  return .whileLoop condition body (← spanFrom start)

/-- An expression, unless the given sign comes at once. -/
def expressionUnless (inner : Parts) (sign : Punctuator) : Parse (Option Expr) := do
  if (← peek) = some (.punctuator sign) then return none else return some (← inner.expression)

/-- What stands first in the header of a `for` statement. -/
def forStart (inner : Parts) : Parse (Option ForStart) := do
  match (← peek).bind DeclKind.ofToken? with
  | some kind => return some (.declaration (← declaration inner kind))
  | none => return (← expressionUnless inner .semicolon).map .expression

/-- A statement that is repeated, with a header of three optional parts. -/
def forStatement (inner : Parts) : Parse Stmt := do
  let start := (← currentSpan).start
  advance
  expect .leftParen
  let first ← forStart inner
  expect .semicolon
  let condition ← expressionUnless inner .semicolon
  expect .semicolon
  let update ← expressionUnless inner .rightParen
  expect .rightParen
  let body ← inner.statement
  return .forLoop first condition update body (← spanFrom start)

/-- The end of a function, perhaps with a value. -/
def returnStatement (inner : Parts) : Parse Stmt := do
  let start := (← currentSpan).start
  advance
  let token ← peek
  let value ←
    if token = none ∨ token = some (.punctuator .semicolon)
        ∨ token = some (.punctuator .rightBrace) then pure none
    else some <$> inner.expression
  let _ ← eat (.punctuator .semicolon)
  return .returns value (← spanFrom start)

/-- A declaration with the semicolon that may end it. -/
def variableStatement (inner : Parts) (kind : DeclKind) : Parse Stmt := do
  let start := (← currentSpan).start
  let list ← declaration inner kind
  let _ ← eat (.punctuator .semicolon)
  return .variables list (← spanFrom start)

/-- An expression with the semicolon that may end it. -/
def expressionStatement (inner : Parts) : Parse Stmt := do
  let start := (← currentSpan).start
  let value ← inner.expression
  let _ ← eat (.punctuator .semicolon)
  return .expression value (← spanFrom start)

/-- A statement, told by its first token. -/
def statementWith (inner : Parts) : Parse Stmt := do
  let token ← peek
  match token.bind DeclKind.ofToken? with
  | some kind => variableStatement inner kind
  | none =>
    match token with
    | some (.keyword .functionWord) => function inner
    | some (.punctuator .leftBrace) => do
      let (body, span) ← block inner.statement
      return .block body span
    | some (.keyword .ifWord) => ifStatement inner
    | some (.keyword .whileWord) => whileStatement inner
    | some (.keyword .forWord) => forStatement inner
    | some (.keyword .returnWord) => returnStatement inner
    | _ => expressionStatement inner

/-- A statement at most `depth` levels deep. -/
def statement : Nat → Parse Stmt
  | 0 => fail .nestedTooDeeply
  | depth + 1 =>
    nested (statementWith ⟨typeExpr depth, expression depth .assignment, statement depth⟩)

end ScriptLint.Parse
