import ScriptLint.Typing.Infer
/-!
# Renamed trees

A map of names takes a tree to the tree in which each name is replaced by its
image: the names that are declared, those that are used as values, those of
properties, and those of types. Nothing else changes, and each node stays
where it stands. The words that denote types by themselves are no names, and
neither are the contents of a string.

Key definitions: `TypeExpr.rename`, `Expr.rename`, `Stmt.rename`, `Script.rename`.
-/

namespace ScriptLint

variable (r : String → String)

/-- The image of a name, at the same place. -/
def Ident.rename (v : Ident) : Ident :=
  ⟨r v.name, v.span⟩

namespace TypeExpr

mutual

/-- A written type with the names in it replaced. -/
def rename : TypeExpr → TypeExpr
  | .keyword word span => .keyword word span
  | .literal value span => .literal value span
  | .reference name => .reference (name.rename r)
  | .array element span => .array element.rename span
  | .union members span => .union (renameAll members) span

/-- The types of a list with the names in them replaced. -/
def renameAll : List TypeExpr → List TypeExpr
  | [] => []
  | t :: ts => t.rename :: renameAll ts

end

@[simp] theorem span_rename (t : TypeExpr) : (t.rename r).span = t.span := by
  cases t <;> simp [rename, span, Ident.rename]

end TypeExpr

namespace Expr

mutual

/-- An expression with the names in it replaced. -/
def rename : Expr → Expr
  | .number value span => .number value span
  | .string value span => .string value span
  | .boolean value span => .boolean value span
  | .null span => .null span
  | .identifier name => .identifier (name.rename r)
  | .binary op left right span => .binary op left.rename right.rename span
  | .unary op operand span => .unary op operand.rename span
  | .typeOf operand span => .typeOf operand.rename span
  | .assignment op target value span => .assignment op target.rename value.rename span
  | .conditional condition whenTrue whenFalse span =>
    .conditional condition.rename whenTrue.rename whenFalse.rename span
  | .call callee arguments span => .call callee.rename (renameAll arguments) span
  | .property object name span => .property object.rename (name.rename r) span
  | .element object index span => .element object.rename index.rename span
  | .parenthesized inner span => .parenthesized inner.rename span
  | .array elements span => .array (renameAll elements) span

/-- The expressions of a list with the names in them replaced. -/
def renameAll : List Expr → List Expr
  | [] => []
  | e :: es => e.rename :: renameAll es

end

@[simp] theorem span_rename (e : Expr) : (e.rename r).span = e.span := by
  cases e <;> simp [rename, span, Ident.rename]

@[simp] theorem name?_rename (e : Expr) : (e.rename r).name? = e.name?.map (Ident.rename r) := by
  cases e <;> simp [rename, name?]

@[simp] theorem negated?_rename (e : Expr) : (e.rename r).negated? = e.negated? := by
  cases e <;> simp [rename, negated?]

@[simp] theorem length_renameAll (es : List Expr) : (renameAll r es).length = es.length := by
  induction es with
  | nil => rfl
  | cons e es ih => exact congrArg (· + 1) ih

end Expr

/-! ### Declarations and statements -/

/-- A variable with the names in it replaced. -/
def Declarator.rename (d : Declarator) : Declarator where
  name := d.name.rename r
  declaredType := d.declaredType.map (TypeExpr.rename r)
  initializer := d.initializer.map (Expr.rename r)
  span := d.span

/-- A declaration with the names in it replaced. -/
def Declaration.rename (d : Declaration) : Declaration where
  kind := d.kind
  declarators := d.declarators.map (Declarator.rename r)
  span := d.span

/-- A parameter with the names in it replaced. -/
def Parameter.rename (p : Parameter) : Parameter where
  name := p.name.rename r
  declaredType := p.declaredType.map (TypeExpr.rename r)
  span := p.span

/-- The head of a function with the names in it replaced. -/
def Signature.rename (f : Signature) : Signature where
  name := f.name.rename r
  parameters := f.parameters.map (Parameter.rename r)
  returnType := f.returnType.map (TypeExpr.rename r)

/-- The beginning of a loop header with the names in it replaced. -/
def ForStart.rename : ForStart → ForStart
  | .declaration d => .declaration (d.rename r)
  | .expression e => .expression (e.rename r)

namespace Stmt

mutual

/-- A statement with the names in it replaced. -/
def rename : Stmt → Stmt
  | .variables d span => .variables (d.rename r) span
  | .function signature body bodySpan span =>
    .function (signature.rename r) (renameAll body) bodySpan span
  | .block body span => .block (renameAll body) span
  | .ifThen condition thenBranch span => .ifThen (condition.rename r) thenBranch.rename span
  | .ifElse condition thenBranch elseBranch span =>
    .ifElse (condition.rename r) thenBranch.rename elseBranch.rename span
  | .whileLoop condition body span => .whileLoop (condition.rename r) body.rename span
  | .forLoop start condition update body span =>
    .forLoop (start.map (ForStart.rename r)) (condition.map (Expr.rename r))
      (update.map (Expr.rename r)) body.rename span
  | .returns value span => .returns (value.map (Expr.rename r)) span
  | .expression e span => .expression (e.rename r) span

/-- The statements of a list with the names in them replaced. -/
def renameAll : List Stmt → List Stmt
  | [] => []
  | s :: ss => s.rename :: renameAll ss

end

end Stmt

/-- A script whose statements have their names replaced. -/
def Script.rename (script : Script) : Script :=
  { script with body := Stmt.renameAll r script.body }

end ScriptLint
