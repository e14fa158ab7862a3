import ScriptLint.Parsing.State
/-!
# Reading expressions

Expressions come in ranks. The loosest is an assignment, which is a
conditional with perhaps a value to store; below it are the binary operators
by their precedences; the tightest is a unary expression, which is a primary
expression with calls, properties and elements behind it.

A rank reads its operands through the ranks one level deeper, so the reader
is structural in the levels that are left.

Key definitions: `Parse.Rank`, `Parse.expression`.
-/

namespace ScriptLint.Parse

/-- How tightly an expression has to hold together. -/
inductive Rank where
  | assignment
  | binary (least : Nat)
  | unary
  deriving DecidableEq, Repr

/-- Literals, names, and what stands in parentheses or brackets. -/
def primary (inner : Rank → Parse Expr) : Parse Expr := do
  let span ← currentSpan
  match ← peek with
  | some (.number value) =>
    advance
    return .number value span
  | some (.string value) =>
    advance
    return .string value span
  | some (.keyword .trueWord) =>
    advance
    return .boolean true span
  | some (.keyword .falseWord) =>
    advance
    return .boolean false span
  | some (.keyword .nullWord) =>
    advance
    return .null span
  | some (.punctuator .leftParen) =>
    advance
    let expression ← inner .assignment
    expect .rightParen
    return .parenthesized expression (← spanFrom span.start)
  | some (.punctuator .leftBracket) =>
    advance
    let elements ← listUntil .rightBracket (inner .assignment)
    expect .rightBracket
    return .array elements (← spanFrom span.start)
  | token =>
    match token.bind Token.name? with
    | some name =>
      advance
      return .identifier ⟨name, span⟩
    | none => fail .expressionExpected

/-- One call, property or element behind an expression that begins at `start`.
Each is a level. -/
def access (inner : Rank → Parse Expr) (start : Nat) (object : Expr) : Parse (Round Expr) := do
  match ← peek with
  | some (.punctuator .leftParen) =>
    descend
    advance
    let arguments ← listUntil .rightParen (inner .assignment)
    expect .rightParen
    return .again (.call object arguments (← spanFrom start))
  | some (.punctuator .dot) =>
    descend
    advance
    let name ← ident
    return .again (.property object name (← spanFrom start))
  | some (.punctuator .leftBracket) =>
    descend
    advance
    let index ← inner .assignment
    expect .rightBracket
    return .again (.element object index (← spanFrom start))
  | _ => return .done object

/-- A primary expression and all that is accessed on it. -/
def accessChain (inner : Rank → Parse Expr) : Parse Expr := do
  let start := (← currentSpan).start
  loop (access inner start) (← primary inner)

/-- A unary operator with its operand, or an expression without one. -/
def unary (inner : Rank → Parse Expr) : Parse Expr := do
  let start := (← currentSpan).start
  let token ← peek
  match token.bind UnaryOp.ofToken? with
  | some op =>
    advance
    let operand ← inner .unary
    return .unary op operand (← spanFrom start)
  | none =>
    if token = some (.keyword .typeofWord) then
      advance
      let operand ← inner .unary
      return .typeOf operand (← spanFrom start)
    else accessChain inner

/-- One operator of at least the given precedence behind a left operand, and its right operand,
which holds together more tightly. Each operator is a level. -/
def operation (inner : Rank → Parse Expr) (least : Nat) (left : Expr) : Parse (Round Expr) := do
  match (← peek).bind BinaryOp.ofToken? with
  | some op =>
    if op.precedence < least then return .done left
    else
      descend
      advance
      let right ← inner (.binary (op.precedence + 1))
      return .again (.binary op left right (left.span.cover right.span))
  | none => return .done left

/-- Operands with operators of at least the given precedence, grouped from the left. -/
def binary (inner : Rank → Parse Expr) (least : Nat) : Parse Expr := do
  loop (operation inner least) (← unary inner)

/-- A condition with its two outcomes, or an expression without them. -/
def conditional (inner : Rank → Parse Expr) : Parse Expr := do
  let condition ← binary inner 1
  if ← eat (.punctuator .question) then
    let whenTrue ← inner .assignment
    expect .colon
    let whenFalse ← inner .assignment
    return .conditional condition whenTrue whenFalse (condition.span.cover whenFalse.span)
  else return condition

/-- A place and the value to store there, or an expression alone. The place is checked before
the operator is consumed. -/
def assignment (inner : Rank → Parse Expr) : Parse Expr := do
  let target ← conditional inner
  match (← peek).bind AssignOp.ofToken? with
  | some op =>
    if target.isAssignable then
      advance
      let value ← inner .assignment
      return .assignment op target value (target.span.cover value.span)
    else throw ⟨.invalidAssignmentTarget, target.span⟩
  | none => return target

/-- The reader of a rank, given the readers one level deeper. -/
def ofRank (inner : Rank → Parse Expr) : Rank → Parse Expr
  | .assignment => assignment inner
  | .binary least => binary inner least
  | .unary => unary inner

/-- An expression of the given rank, at most `depth` levels deep. -/
def expression : Nat → Rank → Parse Expr
  | 0, _ => fail .nestedTooDeeply
  | depth + 1, rank => nested (ofRank (expression depth) rank)

end ScriptLint.Parse
