import ScriptLint.Proofs.Syntax.Rendering
/-!
# The levels that a tree takes

Reading a part of a script takes levels. Some are given back when the part
has been read, and some are held until the part around it has been read. A
toll says how many levels are needed at most and how many are held at the
end; tolls of parts that follow each other add up, and a part that is read
one level deeper gives everything back.

Key definitions: `Toll`, `TypeExpr.toll`, `Expr.toll`, `Stmt.toll`.
-/

namespace ScriptLint

/-- The levels that are needed to read something, and those still held when it has been read. -/
@[ext] structure Toll where
  need : Nat
  held : Nat
  held_le : held ≤ need

namespace Toll

/-- No levels at all. -/
def free : Toll :=
  ⟨0, 0, Nat.le_refl _⟩

/-- One level, and it is held. -/
def level : Toll :=
  ⟨1, 1, Nat.le_refl _⟩

/-- One part after the other, which has only the levels that the first does not hold. -/
def andThen (c d : Toll) : Toll where
  need := max c.need (c.held + d.need)
  held := c.held + d.held
  held_le := by
    have := d.held_le
    omega

/-- A part that is read one level deeper. -/
def within (c : Toll) : Toll :=
  ⟨c.need + 1, 0, Nat.zero_le _⟩

@[simp] theorem andThen_free (c : Toll) : c.andThen free = c := by
  have hle := c.held_le
  ext
  · simp only [andThen, free]
    omega
  · simp only [andThen, free]
    omega

theorem andThen_assoc (c d e : Toll) : (c.andThen d).andThen e = c.andThen (d.andThen e) := by
  ext <;> simp only [andThen] <;> omega

end Toll

mutual

/-- The toll of a type that stands in an array or in a union. Each pair of brackets is a level. -/
def TypeExpr.toll : TypeExpr → Toll
  | .keyword _ _ => .free
  | .literal _ _ => .free
  | .reference _ => .free
  | .array element _ => element.toll.andThen .level
  | .union members _ => (TypeExpr.tollAll members).within

/-- The toll of the types of a list, one after the other. -/
def TypeExpr.tollAll : List TypeExpr → Toll
  | [] => .free
  | t :: ts => t.toll.andThen (TypeExpr.tollAll ts)

end

mutual

/-- The toll of an expression. Each operator, call, property and element is a level that is held;
what stands inside of them is read one level deeper. -/
def Expr.toll : Expr → Toll
  | .number _ _ => .free
  | .string _ _ => .free
  | .boolean _ _ => .free
  | .null _ => .free
  | .identifier _ => .free
  | .binary _ left right _ => left.toll.andThen (Toll.level.andThen right.toll.within)
  | .unary _ operand _ => operand.toll.within
  | .typeOf operand _ => operand.toll.within
  | .assignment _ target value _ => target.toll.andThen value.toll.within
  | .conditional condition whenTrue whenFalse _ =>
    condition.toll.andThen (whenTrue.toll.within.andThen whenFalse.toll.within)
  | .call callee arguments _ => callee.toll.andThen (Toll.level.andThen (Expr.tollAll arguments))
  | .property object _ _ => object.toll.andThen .level
  | .element object index _ => object.toll.andThen (Toll.level.andThen index.toll.within)
  | .parenthesized inner _ => inner.toll.within
  | .array elements _ => Expr.tollAll elements

/-- The toll of the expressions of a list, each read one level deeper. -/
def Expr.tollAll : List Expr → Toll
  | [] => .free
  | e :: es => e.toll.within.andThen (Expr.tollAll es)

end

/-! ### In statements -/

/-- The toll of what may be missing. -/
def tollOf {α : Type} (toll : α → Toll) : Option α → Toll
  | some a => toll a
  | none => .free

/-- The toll of the items of a list, one after the other. -/
def tolls {α : Type} (toll : α → Toll) : List α → Toll
  | [] => .free
  | a :: as => (toll a).andThen (tolls toll as)

/-- The toll of a type that stands alone. -/
def TypeExpr.wholeToll (t : TypeExpr) : Toll :=
  (TypeExpr.tollAll t.members).within

/-- The toll of an expression that stands alone. -/
def Expr.wholeToll (e : Expr) : Toll :=
  e.toll.within

def Declarator.toll (d : Declarator) : Toll :=
  (tollOf TypeExpr.wholeToll d.declaredType).andThen (tollOf Expr.wholeToll d.initializer)

def Declaration.toll (d : Declaration) : Toll :=
  tolls Declarator.toll d.declarators

def Parameter.toll (p : Parameter) : Toll :=
  tollOf TypeExpr.wholeToll p.declaredType

def Signature.toll (f : Signature) : Toll :=
  (tolls Parameter.toll f.parameters).andThen (tollOf TypeExpr.wholeToll f.returnType)

def ForStart.toll : ForStart → Toll
  | .declaration d => d.toll
  | .expression e => e.wholeToll

mutual

/-- The toll of what stands in a statement. Statements in it are read one level deeper. -/
def Stmt.toll : Stmt → Toll
  | .variables d _ => d.toll
  | .function signature body _ _ => signature.toll.andThen (Stmt.tollAll body)
  | .block body _ => Stmt.tollAll body
  | .ifThen condition thenBranch _ => condition.wholeToll.andThen thenBranch.toll.within
  | .ifElse condition thenBranch elseBranch _ =>
    condition.wholeToll.andThen (thenBranch.toll.within.andThen elseBranch.toll.within)
  | .whileLoop condition body _ => condition.wholeToll.andThen body.toll.within
  | .forLoop start condition update body _ =>
    (tollOf ForStart.toll start).andThen ((tollOf Expr.wholeToll condition).andThen
      ((tollOf Expr.wholeToll update).andThen body.toll.within))
  | .returns value _ => tollOf Expr.wholeToll value
  | .expression e _ => e.wholeToll

/-- The toll of the statements of a list, each read one level deeper. -/
def Stmt.tollAll : List Stmt → Toll
  | [] => .free
  | s :: ss => s.toll.within.andThen (Stmt.tollAll ss)

end

/-- The toll of a statement that stands alone. -/
def Stmt.wholeToll (s : Stmt) : Toll :=
  s.toll.within

end ScriptLint
