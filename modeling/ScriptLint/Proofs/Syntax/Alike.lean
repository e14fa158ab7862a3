import Mathlib.Data.List.Forall2
import ScriptLint.Syntax.Basic
/-!
# Trees that differ only in place

Two trees are alike when they have the same nodes with the same contents, so
that one can be told from the other only by where the nodes stand. How far
the places may differ is up to a relation of spans: `anyPlace` asks for
nothing, and equality for the same tree.

Key definitions: `Ident.Alike`, `TypeExpr.Alike`, `Expr.Alike`, `Declaration.Alike`, `Stmt.Alike`.
-/

namespace ScriptLint

variable {ρ : Span → Span → Prop}

/-- Any place is as good as any other. -/
abbrev anyPlace : Span → Span → Prop :=
  fun _ _ => True

/-- One name at two places. -/
structure Ident.Alike (ρ : Span → Span → Prop) (v w : Ident) : Prop where
  name : v.name = w.name
  span : ρ v.span w.span

/-- One written type at two places. -/
inductive TypeExpr.Alike (ρ : Span → Span → Prop) : TypeExpr → TypeExpr → Prop where
  | keyword {word : TypeKeyword} {s t : Span} :
    ρ s t → Alike ρ (.keyword word s) (.keyword word t)
  | literal {value : Bool} {s t : Span} : ρ s t → Alike ρ (.literal value s) (.literal value t)
  | reference {v w : Ident} : v.Alike ρ w → Alike ρ (.reference v) (.reference w)
  | array {a b : TypeExpr} {s t : Span} :
    Alike ρ a b → ρ s t → Alike ρ (.array a s) (.array b t)
  | union {as bs : List TypeExpr} {s t : Span} :
    List.Forall₂ (Alike ρ) as bs → ρ s t → Alike ρ (.union as s) (.union bs t)

theorem TypeExpr.Alike.span {a b : TypeExpr} (h : a.Alike ρ b) : ρ a.span b.span := by
  cases h with
  | keyword hs => exact hs
  | literal hs => exact hs
  | reference hv => exact hv.span
  | array _ hs => exact hs
  | union _ hs => exact hs

/-- One expression at two places. -/
inductive Expr.Alike (ρ : Span → Span → Prop) : Expr → Expr → Prop where
  | number {value : Binary64} {s t : Span} : ρ s t → Alike ρ (.number value s) (.number value t)
  | string {value : String} {s t : Span} : ρ s t → Alike ρ (.string value s) (.string value t)
  | boolean {value : Bool} {s t : Span} : ρ s t → Alike ρ (.boolean value s) (.boolean value t)
  | null {s t : Span} : ρ s t → Alike ρ (.null s) (.null t)
  | identifier {v w : Ident} : v.Alike ρ w → Alike ρ (.identifier v) (.identifier w)
  | binary {op : BinaryOp} {a b c d : Expr} {s t : Span} :
    Alike ρ a b → Alike ρ c d → ρ s t → Alike ρ (.binary op a c s) (.binary op b d t)
  | unary {op : UnaryOp} {a b : Expr} {s t : Span} :
    Alike ρ a b → ρ s t → Alike ρ (.unary op a s) (.unary op b t)
  | typeOf {a b : Expr} {s t : Span} : Alike ρ a b → ρ s t → Alike ρ (.typeOf a s) (.typeOf b t)
  | assignment {op : AssignOp} {a b c d : Expr} {s t : Span} :
    Alike ρ a b → Alike ρ c d → ρ s t → Alike ρ (.assignment op a c s) (.assignment op b d t)
  | conditional {a b c d e f : Expr} {s t : Span} :
    Alike ρ a b → Alike ρ c d → Alike ρ e f → ρ s t →
      Alike ρ (.conditional a c e s) (.conditional b d f t)
  | call {a b : Expr} {as bs : List Expr} {s t : Span} :
    Alike ρ a b → List.Forall₂ (Alike ρ) as bs → ρ s t → Alike ρ (.call a as s) (.call b bs t)
  | property {a b : Expr} {v w : Ident} {s t : Span} :
    Alike ρ a b → v.Alike ρ w → ρ s t → Alike ρ (.property a v s) (.property b w t)
  | element {a b c d : Expr} {s t : Span} :
    Alike ρ a b → Alike ρ c d → ρ s t → Alike ρ (.element a c s) (.element b d t)
  | parenthesized {a b : Expr} {s t : Span} :
    Alike ρ a b → ρ s t → Alike ρ (.parenthesized a s) (.parenthesized b t)
  | array {as bs : List Expr} {s t : Span} :
    List.Forall₂ (Alike ρ) as bs → ρ s t → Alike ρ (.array as s) (.array bs t)

namespace Expr.Alike

variable {a b : Expr}

theorem span (h : a.Alike ρ b) : ρ a.span b.span := by
  cases h with
  | identifier hv => exact hv.span
  | _ => assumption

theorem isAssignable (h : a.Alike ρ b) : a.isAssignable = b.isAssignable := by
  cases h <;> rfl

end Expr.Alike

/-! ### Declarations and statements -/

/-- One variable at two places. -/
structure Declarator.Alike (ρ : Span → Span → Prop) (d d' : Declarator) : Prop where
  name : d.name.Alike ρ d'.name
  declaredType : Option.Rel (TypeExpr.Alike ρ) d.declaredType d'.declaredType
  initializer : Option.Rel (Expr.Alike ρ) d.initializer d'.initializer
  span : ρ d.span d'.span

/-- One declaration at two places. -/
structure Declaration.Alike (ρ : Span → Span → Prop) (d d' : Declaration) : Prop where
  kind : d.kind = d'.kind
  declarators : List.Forall₂ (Declarator.Alike ρ) d.declarators d'.declarators
  span : ρ d.span d'.span

/-- One parameter at two places. -/
structure Parameter.Alike (ρ : Span → Span → Prop) (p p' : Parameter) : Prop where
  name : p.name.Alike ρ p'.name
  declaredType : Option.Rel (TypeExpr.Alike ρ) p.declaredType p'.declaredType
  span : ρ p.span p'.span

/-- The head of one function at two places. -/
structure Signature.Alike (ρ : Span → Span → Prop) (f f' : Signature) : Prop where
  name : f.name.Alike ρ f'.name
  parameters : List.Forall₂ (Parameter.Alike ρ) f.parameters f'.parameters
  returnType : Option.Rel (TypeExpr.Alike ρ) f.returnType f'.returnType

/-- One beginning of a loop header at two places. -/
inductive ForStart.Alike (ρ : Span → Span → Prop) : ForStart → ForStart → Prop where
  | declaration {d d' : Declaration} : d.Alike ρ d' → Alike ρ (.declaration d) (.declaration d')
  | expression {a b : Expr} : a.Alike ρ b → Alike ρ (.expression a) (.expression b)

/-- One statement at two places. -/
inductive Stmt.Alike (ρ : Span → Span → Prop) : Stmt → Stmt → Prop where
  | variables {d d' : Declaration} {s t : Span} :
    d.Alike ρ d' → ρ s t → Alike ρ (.variables d s) (.variables d' t)
  | function {f f' : Signature} {as bs : List Stmt} {s s' t t' : Span} :
    f.Alike ρ f' → List.Forall₂ (Alike ρ) as bs → ρ s s' → ρ t t' →
      Alike ρ (.function f as s t) (.function f' bs s' t')
  | block {as bs : List Stmt} {s t : Span} :
    List.Forall₂ (Alike ρ) as bs → ρ s t → Alike ρ (.block as s) (.block bs t)
  | ifThen {a b : Expr} {x y : Stmt} {s t : Span} :
    a.Alike ρ b → Alike ρ x y → ρ s t → Alike ρ (.ifThen a x s) (.ifThen b y t)
  | ifElse {a b : Expr} {x y z w : Stmt} {s t : Span} :
    a.Alike ρ b → Alike ρ x y → Alike ρ z w → ρ s t →
      Alike ρ (.ifElse a x z s) (.ifElse b y w t)
  | whileLoop {a b : Expr} {x y : Stmt} {s t : Span} :
    a.Alike ρ b → Alike ρ x y → ρ s t → Alike ρ (.whileLoop a x s) (.whileLoop b y t)
  | forLoop {i j : Option ForStart} {a b c d : Option Expr} {x y : Stmt} {s t : Span} :
    Option.Rel (ForStart.Alike ρ) i j → Option.Rel (Expr.Alike ρ) a b →
      Option.Rel (Expr.Alike ρ) c d → Alike ρ x y → ρ s t →
      Alike ρ (.forLoop i a c x s) (.forLoop j b d y t)
  | returns {a b : Option Expr} {s t : Span} :
    Option.Rel (Expr.Alike ρ) a b → ρ s t → Alike ρ (.returns a s) (.returns b t)
  | expression {a b : Expr} {s t : Span} :
    a.Alike ρ b → ρ s t → Alike ρ (.expression a s) (.expression b t)

end ScriptLint
