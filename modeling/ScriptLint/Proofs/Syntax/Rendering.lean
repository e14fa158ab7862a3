import ScriptLint.Syntax.Basic
import ScriptLint.Token.Munch
/-!
# The canonical rendering of a tree

Every tree can be written as a row of tokens. The canonical way puts a
semicolon behind every declaration, every `return` and every expression that
stands as a statement, puts no comma behind a last item, and puts a type in
parentheses only if it is a union inside an array or inside another union.
Expressions need no parentheses beyond those that are nodes of the tree.

A tree can be read back from its rendering only if it could have been read
at all: its names have to be words that serve as names, the types it refers
to plain names, its unions and declarations have to have members, and the
`else` of a statement must not fall to an `if` inside it.

Key definitions: `Expr.tokens`, `Stmt.tokens`, `Expr.Readable`, `Stmt.Readable`.
-/

namespace ScriptLint

/-! ### Tokens -/

/-- Rows of tokens with a sign between them. -/
def joined (sign : Punctuator) : List (List Token) → List Token
  | [] => []
  | ts :: rows => ts ++ rows.flatMap (.punctuator sign :: ·)

/-- A name as a token. -/
def Ident.token (name : Ident) : Token :=
  Token.ofWord name.name

/-- The token of a keyword type. -/
def TypeKeyword.token : TypeKeyword → Token
  | .boolean => .keyword .booleanWord
  | .number => .keyword .numberWord
  | .string => .keyword .stringWord
  | .any => .keyword .anyWord
  | .unknown => .keyword .unknownWord
  | .void => .keyword .voidWord
  | .never => .keyword .neverWord
  | .object => .keyword .objectWord
  | .null => .keyword .nullWord
  | .undefined => .identifier "undefined"

/-- The word of a truth value. -/
def boolToken : Bool → Token
  | true => .keyword .trueWord
  | false => .keyword .falseWord

mutual

/-- The tokens of a type that stands in an array or in a union. -/
def TypeExpr.memberTokens : TypeExpr → List Token
  | .keyword word _ => [word.token]
  | .literal value _ => [boolToken value]
  | .reference name => [name.token]
  | .array element _ =>
    element.memberTokens ++ [.punctuator .leftBracket, .punctuator .rightBracket]
  | .union members _ =>
    .punctuator .leftParen :: (joined .bar (TypeExpr.rows members) ++ [.punctuator .rightParen])

/-- The tokens of each type of a list. -/
def TypeExpr.rows : List TypeExpr → List (List Token)
  | [] => []
  | t :: ts => t.memberTokens :: TypeExpr.rows ts

end

/-- The types between the bars of a type. -/
def TypeExpr.members : TypeExpr → List TypeExpr
  | .union members _ => members
  | t => [t]

/-- The tokens of a type. -/
def TypeExpr.tokens (t : TypeExpr) : List Token :=
  joined .bar (TypeExpr.rows t.members)

/-- The sign of a unary operator. -/
def UnaryOp.sign : UnaryOp → Punctuator
  | .positive => .plus
  | .negative => .minus
  | .not => .bang

mutual

/-- The tokens of an expression. -/
def Expr.tokens : Expr → List Token
  | .number value _ => [.number value]
  | .string value _ => [.string value]
  | .boolean value _ => [boolToken value]
  | .null _ => [.keyword .nullWord]
  | .identifier name => [name.token]
  | .binary op left right _ => left.tokens ++ .punctuator op.sign :: right.tokens
  | .unary op operand _ => .punctuator op.sign :: operand.tokens
  | .typeOf operand _ => .keyword .typeofWord :: operand.tokens
  | .assignment op target value _ => target.tokens ++ .punctuator op.sign :: value.tokens
  | .conditional condition whenTrue whenFalse _ =>
    condition.tokens ++ .punctuator .question :: (whenTrue.tokens ++
      .punctuator .colon :: whenFalse.tokens)
  | .call callee arguments _ =>
    callee.tokens ++ .punctuator .leftParen :: (joined .comma (Expr.rows arguments) ++
      [.punctuator .rightParen])
  | .property object name _ => object.tokens ++ [.punctuator .dot, name.token]
  | .element object index _ =>
    object.tokens ++ .punctuator .leftBracket :: (index.tokens ++ [.punctuator .rightBracket])
  | .parenthesized inner _ =>
    .punctuator .leftParen :: (inner.tokens ++ [.punctuator .rightParen])
  | .array elements _ =>
    .punctuator .leftBracket :: (joined .comma (Expr.rows elements) ++ [.punctuator .rightBracket])

/-- The tokens of each expression of a list. -/
def Expr.rows : List Expr → List (List Token)
  | [] => []
  | e :: es => e.tokens :: Expr.rows es

end

/-- A sign with what stands behind it, if anything does. -/
def behind {α : Type} (sign : Punctuator) (tokens : α → List Token) : Option α → List Token
  | some a => .punctuator sign :: tokens a
  | none => []

/-- The word that begins a declaration. -/
def DeclKind.token : DeclKind → Token
  | .varKind => .keyword .varWord
  | .letKind => .keyword .letWord
  | .constKind => .keyword .constWord

def Declarator.tokens (d : Declarator) : List Token :=
  d.name.token :: (behind .colon TypeExpr.tokens d.declaredType ++
    behind .equal Expr.tokens d.initializer)

/-- The tokens of a declaration, without a semicolon. -/
def Declaration.tokens (d : Declaration) : List Token :=
  d.kind.token :: joined .comma (d.declarators.map Declarator.tokens)

def Parameter.tokens (p : Parameter) : List Token :=
  p.name.token :: behind .colon TypeExpr.tokens p.declaredType

/-- The tokens of a function up to its body. -/
def Signature.tokens (f : Signature) : List Token :=
  .keyword .functionWord :: f.name.token :: .punctuator .leftParen ::
    (joined .comma (f.parameters.map Parameter.tokens) ++ .punctuator .rightParen ::
      behind .colon TypeExpr.tokens f.returnType)

def ForStart.tokens : ForStart → List Token
  | .declaration d => d.tokens
  | .expression e => e.tokens

/-- The tokens of what may be missing. -/
def perhaps {α : Type} (tokens : α → List Token) : Option α → List Token
  | some a => tokens a
  | none => []

/-- The tokens of a condition in parentheses. -/
def Expr.conditionTokens (e : Expr) : List Token :=
  .punctuator .leftParen :: (e.tokens ++ [.punctuator .rightParen])

mutual

/-- The tokens of a statement. -/
def Stmt.tokens : Stmt → List Token
  | .variables d _ => d.tokens ++ [.punctuator .semicolon]
  | .function signature body _ _ =>
    signature.tokens ++ .punctuator .leftBrace :: (Stmt.tokensAll body ++ [.punctuator .rightBrace])
  | .block body _ =>
    .punctuator .leftBrace :: (Stmt.tokensAll body ++ [.punctuator .rightBrace])
  | .ifThen condition thenBranch _ =>
    .keyword .ifWord :: (condition.conditionTokens ++ thenBranch.tokens)
  | .ifElse condition thenBranch elseBranch _ =>
    .keyword .ifWord :: (condition.conditionTokens ++ (thenBranch.tokens ++
      .keyword .elseWord :: elseBranch.tokens))
  | .whileLoop condition body _ =>
    .keyword .whileWord :: (condition.conditionTokens ++ body.tokens)
  | .forLoop start condition update body _ =>
    .keyword .forWord :: .punctuator .leftParen :: (perhaps ForStart.tokens start ++
      .punctuator .semicolon :: (perhaps Expr.tokens condition ++
      .punctuator .semicolon :: (perhaps Expr.tokens update ++
      .punctuator .rightParen :: body.tokens)))
  | .returns value _ =>
    .keyword .returnWord :: (perhaps Expr.tokens value ++ [.punctuator .semicolon])
  | .expression e _ => e.tokens ++ [.punctuator .semicolon]

/-- The tokens of the statements of a list, one after the other. -/
def Stmt.tokensAll : List Stmt → List Token
  | [] => []
  | s :: ss => s.tokens ++ Stmt.tokensAll ss

end

/-! ### Trees that can be read back -/

/-- The word serves as a name. -/
def Ident.Readable (name : Ident) : Prop :=
  name.token.name? = some name.name

mutual

/-- References are to plain names, and unions have at least two members. -/
def TypeExpr.Readable : TypeExpr → Prop
  | .keyword _ _ => True
  | .literal _ _ => True
  | .reference name => name.token = .identifier name.name ∧ name.name ≠ "undefined"
  | .array element _ => element.Readable
  | .union members _ => 2 ≤ members.length ∧ TypeExpr.ReadableAll members

/-- The same for the types of a list. -/
def TypeExpr.ReadableAll : List TypeExpr → Prop
  | [] => True
  | t :: ts => t.Readable ∧ TypeExpr.ReadableAll ts

end

mutual

/-- The names in the expression are words that serve as names. -/
def Expr.Readable : Expr → Prop
  | .number _ _ => True
  | .string _ _ => True
  | .boolean _ _ => True
  | .null _ => True
  | .identifier name => name.Readable
  | .binary _ left right _ => left.Readable ∧ right.Readable
  | .unary _ operand _ => operand.Readable
  | .typeOf operand _ => operand.Readable
  | .assignment _ target value _ => target.Readable ∧ value.Readable
  | .conditional condition whenTrue whenFalse _ =>
    condition.Readable ∧ whenTrue.Readable ∧ whenFalse.Readable
  | .call callee arguments _ => callee.Readable ∧ Expr.ReadableAll arguments
  | .property object name _ => object.Readable ∧ name.Readable
  | .element object index _ => object.Readable ∧ index.Readable
  | .parenthesized inner _ => inner.Readable
  | .array elements _ => Expr.ReadableAll elements

/-- The same for the expressions of a list. -/
def Expr.ReadableAll : List Expr → Prop
  | [] => True
  | e :: es => e.Readable ∧ Expr.ReadableAll es

end

structure Declarator.Readable (d : Declarator) : Prop where
  name : d.name.Readable
  declaredType : ∀ t ∈ d.declaredType, t.Readable
  initializer : ∀ e ∈ d.initializer, e.Readable

/-- A declaration declares something. -/
structure Declaration.Readable (d : Declaration) : Prop where
  ne_nil : d.declarators ≠ []
  declarators : ∀ v ∈ d.declarators, v.Readable

structure Parameter.Readable (p : Parameter) : Prop where
  name : p.name.Readable
  declaredType : ∀ t ∈ p.declaredType, t.Readable

structure Signature.Readable (f : Signature) : Prop where
  name : f.name.Readable
  parameters : ∀ p ∈ f.parameters, p.Readable
  returnType : ∀ t ∈ f.returnType, t.Readable

def ForStart.Readable : ForStart → Prop
  | .declaration d => d.Readable
  | .expression e => e.Readable

/-- The statement ends with an `if` that has no `else`, which would take one that follows. -/
def Stmt.endsOpen : Stmt → Bool
  | .ifThen _ _ _ => true
  | .ifElse _ _ elseBranch _ => elseBranch.endsOpen
  | .whileLoop _ body _ => body.endsOpen
  | .forLoop _ _ _ body _ => body.endsOpen
  | _ => false

mutual

/-- All names, types and declarations in the statement can be read back, and every `else` belongs
to its own `if`. -/
def Stmt.Readable : Stmt → Prop
  | .variables d _ => d.Readable
  | .function signature body _ _ => signature.Readable ∧ Stmt.ReadableAll body
  | .block body _ => Stmt.ReadableAll body
  | .ifThen condition thenBranch _ => condition.Readable ∧ thenBranch.Readable
  | .ifElse condition thenBranch elseBranch _ =>
    condition.Readable ∧ thenBranch.Readable ∧ thenBranch.endsOpen = false ∧ elseBranch.Readable
  | .whileLoop condition body _ => condition.Readable ∧ body.Readable
  | .forLoop start condition update body _ =>
    (∀ f ∈ start, f.Readable) ∧ (∀ e ∈ condition, e.Readable) ∧ (∀ e ∈ update, e.Readable) ∧
      body.Readable
  | .returns value _ => ∀ e ∈ value, e.Readable
  | .expression e _ => e.Readable

/-- The same for the statements of a list. -/
def Stmt.ReadableAll : List Stmt → Prop
  | [] => True
  | s :: ss => s.Readable ∧ Stmt.ReadableAll ss

end

end ScriptLint
