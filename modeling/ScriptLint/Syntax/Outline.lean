import ScriptLint.Syntax.Basic
/-!
# The outline of a script

An outline shows a syntax tree as nodes with children of one kind, in the
order of the source. Names are nodes of their own where they declare
something or name a property or a type. Rules walk the outline in pre-order,
a node before what it contains.

Key definitions: `Form`, `Node`, `Outline`, `Script.outline`, `Outline.preorder`,
`Script.declared`.
-/

namespace ScriptLint

/-- What a node is, with the attribute that tells it from others of its kind. -/
inductive Form where
  | script (name : String)
  | variableStatement
  | declarationList (kind : DeclKind)
  | declaration (kind : DeclKind) (declarator : Declarator)
  | functionDeclaration
  | parameter
  | block
  | ifStatement
  | whileStatement
  | forStatement
  | returnStatement
  | expressionStatement
  | identifier (name : String)
  | number (value : Binary64)
  | string (value : String)
  | boolean (value : Bool)
  | null
  | binary (op : BinaryOp)
  | unary (op : UnaryOp)
  | typeOf
  | assignment (op : AssignOp)
  | conditional
  | call
  | propertyAccess
  | elementAccess
  | parenthesized
  | arrayLiteral
  | keywordType (word : TypeKeyword)
  | literalType (value : Bool)
  | typeReference
  | arrayType
  | unionType

/-- A node of an outline. -/
structure Node where
  form : Form
  span : Span

/-- The variable that a node declares. -/
def Node.declared? (node : Node) : Option Declarator :=
  match node.form with
  | .declaration _ d => some d
  | _ => none

/-- A node with what it contains. -/
inductive Outline where
  | node (root : Node) (children : List Outline)

namespace Outline

/-- A node that contains nothing. -/
def leaf (form : Form) (span : Span) : Outline :=
  .node ⟨form, span⟩ []

mutual

/-- The nodes in pre-order, each with its depth. -/
def preorder (depth : Nat) : Outline → List (Nat × Node)
  | .node root children => (depth, root) :: preorderAll (depth + 1) children

/-- The nodes of outlines that stand side by side. -/
def preorderAll (depth : Nat) : List Outline → List (Nat × Node)
  | [] => []
  | outline :: outlines => preorder depth outline ++ preorderAll depth outlines

end

/-- The nodes in pre-order. -/
def nodes (outline : Outline) : List Node :=
  (outline.preorder 0).map Prod.snd

end Outline

/-- A name is a leaf. -/
def Ident.outline (ident : Ident) : Outline :=
  .leaf (.identifier ident.name) ident.span

mutual

/-- The outline of a type. -/
def TypeExpr.outline : TypeExpr → Outline
  | .keyword word span => .leaf (.keywordType word) span
  | .literal value span => .leaf (.literalType value) span
  | .reference name => .node ⟨.typeReference, name.span⟩ [name.outline]
  | .array element span => .node ⟨.arrayType, span⟩ [element.outline]
  | .union members span => .node ⟨.unionType, span⟩ (TypeExpr.outlines members)

/-- The outlines of the types of a list. -/
def TypeExpr.outlines : List TypeExpr → List Outline
  | [] => []
  | t :: ts => t.outline :: TypeExpr.outlines ts

end

mutual

/-- The outline of an expression. -/
def Expr.outline : Expr → Outline
  | .number value span => .leaf (.number value) span
  | .string value span => .leaf (.string value) span
  | .boolean value span => .leaf (.boolean value) span
  | .null span => .leaf .null span
  | .identifier name => name.outline
  | .binary op left right span => .node ⟨.binary op, span⟩ [left.outline, right.outline]
  | .unary op operand span => .node ⟨.unary op, span⟩ [operand.outline]
  | .typeOf operand span => .node ⟨.typeOf, span⟩ [operand.outline]
  | .assignment op target value span =>
    .node ⟨.assignment op, span⟩ [target.outline, value.outline]
  | .conditional condition whenTrue whenFalse span =>
    .node ⟨.conditional, span⟩ [condition.outline, whenTrue.outline, whenFalse.outline]
  | .call callee arguments span =>
    .node ⟨.call, span⟩ (callee.outline :: Expr.outlines arguments)
  | .property object name span => .node ⟨.propertyAccess, span⟩ [object.outline, name.outline]
  | .element object index span => .node ⟨.elementAccess, span⟩ [object.outline, index.outline]
  | .parenthesized inner span => .node ⟨.parenthesized, span⟩ [inner.outline]
  | .array elements span => .node ⟨.arrayLiteral, span⟩ (Expr.outlines elements)

/-- The outlines of the expressions of a list. -/
def Expr.outlines : List Expr → List Outline
  | [] => []
  | e :: es => e.outline :: Expr.outlines es

end

/-- The outline of a declared variable: its name, its annotation, its first value. -/
def Declarator.outline (kind : DeclKind) (d : Declarator) : Outline :=
  .node ⟨.declaration kind d, d.span⟩
    (d.name.outline :: (d.declaredType.map TypeExpr.outline).toList
      ++ (d.initializer.map Expr.outline).toList)

/-- The outline of a declaration. -/
def Declaration.outline (d : Declaration) : Outline :=
  .node ⟨.declarationList d.kind, d.span⟩ (d.declarators.map (Declarator.outline d.kind))

/-- The outline of a parameter. -/
def Parameter.outline (p : Parameter) : Outline :=
  .node ⟨.parameter, p.span⟩ (p.name.outline :: (p.declaredType.map TypeExpr.outline).toList)

/-- The outline of what stands first in the header of a `for` statement. -/
def ForStart.outline : ForStart → Outline
  | .declaration d => d.outline
  | .expression e => e.outline

/-- The parts of a function before its body. -/
def Signature.outlines (s : Signature) : List Outline :=
  s.name.outline :: s.parameters.map Parameter.outline ++ (s.returnType.map TypeExpr.outline).toList

mutual

/-- The outline of a statement. -/
def Stmt.outline : Stmt → Outline
  | .variables declaration span => .node ⟨.variableStatement, span⟩ [declaration.outline]
  | .function signature body bodySpan span =>
    .node ⟨.functionDeclaration, span⟩
      (signature.outlines ++ [.node ⟨.block, bodySpan⟩ (Stmt.outlines body)])
  | .block body span => .node ⟨.block, span⟩ (Stmt.outlines body)
  | .ifThen condition thenBranch span =>
    .node ⟨.ifStatement, span⟩ [condition.outline, thenBranch.outline]
  | .ifElse condition thenBranch elseBranch span =>
    .node ⟨.ifStatement, span⟩ [condition.outline, thenBranch.outline, elseBranch.outline]
  | .whileLoop condition body span =>
    .node ⟨.whileStatement, span⟩ [condition.outline, body.outline]
  | .forLoop start condition update body span =>
    .node ⟨.forStatement, span⟩
      ((start.map ForStart.outline).toList ++ (condition.map Expr.outline).toList
        ++ (update.map Expr.outline).toList ++ [body.outline])
  | .returns value span => .node ⟨.returnStatement, span⟩ (value.map Expr.outline).toList
  | .expression e span => .node ⟨.expressionStatement, span⟩ [e.outline]

/-- The outlines of the statements of a list. -/
def Stmt.outlines : List Stmt → List Outline
  | [] => []
  | s :: ss => s.outline :: Stmt.outlines ss

end

/-- The outline of a script. -/
def Script.outline (script : Script) : Outline :=
  .node ⟨.script script.name, script.span⟩ (Stmt.outlines script.body)

/-- The variables that a script declares, at any depth, in pre-order. -/
def Script.declared (script : Script) : List Declarator :=
  script.outline.nodes.filterMap Node.declared?

end ScriptLint
