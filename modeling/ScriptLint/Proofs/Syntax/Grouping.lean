import ScriptLint.Syntax.Basic
/-!
# The grouping of operators

How tightly an expression holds together is a number, its strength. The
loosest are assignments and conditionals, then come the binary operations by
their precedences, then unary operations; calls, properties, elements and
everything that is closed in itself hold together most tightly. Operators are
grouped well if every operand is at least as strong as its place asks: the
right operand of a binary operator has to be stronger than the operator and
the left one may be equal, so operators of one precedence group from the
left.

Key definitions: `Expr.strength`, `Expr.Grouped`, `Stmt.Grouped`.
-/

namespace ScriptLint

theorem BinaryOp.precedence_pos (op : BinaryOp) : 1 ≤ op.precedence := by
  cases op <;> decide

theorem BinaryOp.precedence_le (op : BinaryOp) : op.precedence ≤ 10 := by
  cases op <;> decide

namespace Expr

/-- How tightly the expression holds together. -/
def strength : Expr → Nat
  | .assignment _ _ _ _ => 0
  | .conditional _ _ _ _ => 0
  | .binary op _ _ _ => op.precedence
  | .unary _ _ _ => 11
  | .typeOf _ _ => 11
  | _ => 12

/-- The operand of a unary operator is no binary operation, conditional or assignment. -/
def IsOperand (e : Expr) : Prop :=
  11 ≤ e.strength

/-- What is called or accessed is no operation at all. -/
def IsObject (e : Expr) : Prop :=
  12 ≤ e.strength

mutual

/-- Every operand in the expression is as strong as its place asks, and values are stored in
variables, properties and elements only. -/
def Grouped : Expr → Prop
  | .number _ _ => True
  | .string _ _ => True
  | .boolean _ _ => True
  | .null _ => True
  | .identifier _ => True
  | .binary op left right _ =>
    op.precedence ≤ left.strength ∧ op.precedence < right.strength ∧ left.Grouped ∧ right.Grouped
  | .unary _ operand _ => operand.IsOperand ∧ operand.Grouped
  | .typeOf operand _ => operand.IsOperand ∧ operand.Grouped
  | .assignment _ target value _ => target.isAssignable = true ∧ target.Grouped ∧ value.Grouped
  | .conditional condition whenTrue whenFalse _ =>
    0 < condition.strength ∧ condition.Grouped ∧ whenTrue.Grouped ∧ whenFalse.Grouped
  | .call callee arguments _ => callee.IsObject ∧ callee.Grouped ∧ GroupedAll arguments
  | .property object _ _ => object.IsObject ∧ object.Grouped
  | .element object index _ => object.IsObject ∧ object.Grouped ∧ index.Grouped
  | .parenthesized inner _ => inner.Grouped
  | .array elements _ => GroupedAll elements

/-- Every expression of the list is grouped well. -/
def GroupedAll : List Expr → Prop
  | [] => True
  | e :: es => e.Grouped ∧ GroupedAll es

end

theorem groupedAll_of_forall {es : List Expr} (h : ∀ e ∈ es, e.Grouped) : GroupedAll es := by
  induction es with
  | nil => trivial
  | cons e es ih => exact ⟨h e (by simp), ih fun f hf => h f (by simp [hf])⟩

end Expr

/-! ### In statements -/

/-- The first values of the variables are grouped well. -/
def Declaration.Grouped (d : Declaration) : Prop :=
  ∀ v ∈ d.declarators, ∀ e ∈ v.initializer, e.Grouped

/-- What stands first in the header of a `for` statement is grouped well. -/
def ForStart.Grouped : ForStart → Prop
  | .declaration d => d.Grouped
  | .expression e => e.Grouped

mutual

/-- Every expression in the statement is grouped well. -/
def Stmt.Grouped : Stmt → Prop
  | .variables d _ => d.Grouped
  | .function _ body _ _ => Stmt.GroupedAll body
  | .block body _ => Stmt.GroupedAll body
  | .ifThen c s _ => c.Grouped ∧ s.Grouped
  | .ifElse c s s' _ => c.Grouped ∧ s.Grouped ∧ s'.Grouped
  | .whileLoop c s _ => c.Grouped ∧ s.Grouped
  | .forLoop start c u s _ =>
    (∀ f ∈ start, f.Grouped) ∧ (∀ e ∈ c, e.Grouped) ∧ (∀ e ∈ u, e.Grouped) ∧ s.Grouped
  | .returns value _ => ∀ e ∈ value, e.Grouped
  | .expression e _ => e.Grouped

/-- Every expression in the statements of the list is grouped well. -/
def Stmt.GroupedAll : List Stmt → Prop
  | [] => True
  | s :: ss => s.Grouped ∧ Stmt.GroupedAll ss

end

theorem Stmt.GroupedAll.append {ss ts : List Stmt} (h : GroupedAll ss) (h' : GroupedAll ts) :
    GroupedAll (ss ++ ts) := by
  induction ss with
  | nil => exact h'
  | cons s ss ih => exact ⟨h.1, ih h.2⟩

end ScriptLint
