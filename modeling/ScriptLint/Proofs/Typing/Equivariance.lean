import Mathlib.Data.List.Forall2
import ScriptLint.Parsing.Script
import ScriptLint.Proofs.Typing.Footprints
import ScriptLint.Proofs.Typing.Renaming
/-!
# The checker does not depend on the names

The checker only asks whether two names are the same, apart from the names
that mean something by themselves. So a renaming can be applied to a tree
before it is checked, or to the errors afterwards: the types that are found
are the same, and the errors are the same at the same places, with the images
of the names they quote. Each step is shown to commute with the renaming, and
the walk over a tree follows the tree.

Key theorems: `Check.renames_infer`, `Check.renames_statement`, `Script.checkedState_rename`,
`Script.check_rename`.
-/

namespace ScriptLint

variable {r : String → String}

/-! ### Written types -/

namespace TypeExpr

mutual

theorem toTy_rename (h : Renaming r) : ∀ t : TypeExpr, (t.rename r).toTy = t.toTy
  | .keyword _ _ => rfl
  | .literal _ _ => rfl
  | .reference v => by
    rw [rename, toTy, toTy, Ident.rename, h.isAmbientType_eq]
    split
    next htype => rw [h.type v.name htype]
    next => rfl
  | .array element _ => congrArg Ty.array (toTy_rename h element)
  | .union members _ => congrArg Ty.join (toTys_rename h members)

theorem toTys_rename (h : Renaming r) : ∀ ts : List TypeExpr, toTys (renameAll r ts) = toTys ts
  | [] => rfl
  | t :: ts => congrArg₂ List.cons (toTy_rename h t) (toTys_rename h ts)

end

mutual

theorem unknownNames_rename (h : Renaming r) : ∀ t : TypeExpr,
    (t.rename r).unknownNames = t.unknownNames.map (Ident.rename r)
  | .keyword _ _ => rfl
  | .literal _ _ => rfl
  | .reference v => by
    rw [rename, unknownNames, unknownNames, Ident.rename, h.isAmbientType_eq]
    split <;> rfl
  | .array element _ => unknownNames_rename h element
  | .union members _ => unknownNamesAll_rename h members

theorem unknownNamesAll_rename (h : Renaming r) : ∀ ts : List TypeExpr,
    unknownNamesAll (renameAll r ts) = (unknownNamesAll ts).map (Ident.rename r)
  | [] => rfl
  | t :: ts => by
    rw [renameAll, unknownNamesAll, unknownNamesAll, List.map_append, unknownNames_rename h t,
      unknownNamesAll_rename h ts]

end

end TypeExpr

namespace Check

open Typing

theorem renames_resolve (h : Renaming r) (type : TypeExpr) :
    Renames r (resolve type) (resolve (type.rename r)) := by
  unfold resolve
  rw [TypeExpr.unknownNames_rename h, TypeExpr.toTy_rename h]
  refine Renames.bind (Renames.forM (fun v => ?_) _) fun _ => Renames.pure _
  exact renames_report (.unknownName v.name) v.span

theorem renames_resolve? (h : Renaming r) : ∀ type : Option TypeExpr,
    Renames r (resolve? type) (resolve? (type.map (TypeExpr.rename r)))
  | none => Renames.pure none
  | some type => Renames.bind (renames_resolve h type) fun _ => Renames.pure _

/-! ### Expressions -/

theorem renames_callResult (callee : Ty) (span : Span) :
    Renames r (callResult callee span) (callResult callee span) := by
  unfold callResult
  exact Renames.report_if .notCallable span (Renames.pure Ty.any)

theorem renames_callNamed (h : Renaming r) (name : Ident) (count : Nat) (span : Span) :
    Renames r (callNamed name count span) (callNamed (name.rename r) count span) := by
  refine Renames.bind (renames_lookup? h name.name) fun symbol => ?_
  rcases symbol with _ | ⟨type, kind, place⟩ | ⟨result, arity, place⟩
  · exact Renames.bind (renames_report (.unknownName name.name) name.span) fun _ => Renames.pure _
  · exact Renames.bind (renames_callResult type name.span) fun _ => Renames.pure _
  · cases arity with
    | none => exact Renames.pure _
    | some arity => exact Renames.report_if (.argumentCount arity count) span (Renames.pure _)

theorem renames_nameType (h : Renaming r) (name : Ident) :
    Renames r (nameType name) (nameType (name.rename r)) := by
  refine Renames.bind (renames_lookup? h name.name) fun symbol => ?_
  rcases symbol with _ | ⟨type, kind, place⟩ | ⟨result, arity, place⟩
  · exact Renames.bind (renames_report (.unknownName name.name) name.span) fun _ => Renames.pure _
  · exact Renames.pure _
  · exact Renames.pure _

theorem renames_targetType (h : Renaming r) (name : Ident) :
    Renames r (targetType name) (targetType (name.rename r)) := by
  refine Renames.bind (renames_lookup? h name.name) fun symbol => ?_
  rcases symbol with _ | ⟨type, kind, place⟩ | ⟨result, arity, place⟩
  · exact Renames.bind (renames_report (.unknownName name.name) name.span) fun _ => Renames.pure _
  · by_cases hkind : kind = some .constKind
    · simp only [hkind, if_true]
      exact Renames.bind (renames_report (.assignmentToConstant name.name) name.span)
        fun _ => Renames.pure _
    · simp only [hkind, if_false]
      exact Renames.pure _
  · exact Renames.bind (renames_report (.assignmentToFunction name.name) name.span)
      fun _ => Renames.pure _

theorem renames_addition (sign : Punctuator) (left right : Ty) (span : Span) :
    Renames r (addition sign left right span) (addition sign left right span) := by
  unfold addition
  split
  · exact Renames.pure _
  · split
    · exact Renames.pure _
    · split
      · exact Renames.pure _
      · exact Renames.bind (renames_report (.operatorNotApplicable sign left right) span)
          fun _ => Renames.pure _

theorem renames_arithmetic (left right : Ty) (span : Span) :
    Renames r (arithmetic left right span) (arithmetic left right span) := by
  unfold arithmetic
  split
  · exact Renames.bind (renames_report .leftNotNumeric span) fun _ => Renames.pure _
  · exact Renames.report_if .rightNotNumeric span (Renames.pure _)

theorem renames_binaryResult (op : BinaryOp) (left right : Ty) (span : Span) :
    Renames r (binaryResult op left right span) (binaryResult op left right span) := by
  unfold binaryResult
  split
  · exact Renames.pure _
  · exact Renames.pure _
  · exact Renames.pure _
  · exact renames_addition _ left right span
  · exact renames_arithmetic left right span

theorem renames_binaryType (op : BinaryOp) (left right : Option Ty) (span : Span) :
    Renames r (binaryType op left right span) (binaryType op left right span) := by
  unfold binaryType
  split
  · exact Renames.pure _
  · split
    · exact Renames.bind (renames_binaryResult op _ _ span) fun _ => Renames.pure _
    · exact Renames.pure _

/-- The one property that the checker knows is kept, and no other name becomes it. -/
theorem renames_propertyType (h : Renaming r) (object : Ty) (name : Ident) :
    Renames r (propertyType object name) (propertyType object (name.rename r)) := by
  have hlength : (name.rename r).name = "length" ↔ name.name = "length" :=
    h.eq_length_iff name.name
  unfold propertyType
  simp only [hlength]
  split
  · exact Renames.pure _
  · split
    · exact Renames.pure _
    · exact Renames.bind (renames_report (.unknownProperty name.name object) name.span)
        fun _ => Renames.pure _

theorem renames_storedType (op : AssignOp) (target : Option Ty) (value : Ty) (span : Span) :
    Renames r (storedType op target value span) (storedType op target value span) := by
  unfold storedType
  split
  · exact Renames.pure _
  · exact Renames.bind (renames_addition _ _ value span) fun _ => Renames.pure _
  · exact Renames.report_if (.operatorNotApplicable _ _ value) span (Renames.pure _)
  · exact Renames.pure _

theorem renames_assignmentType (op : AssignOp) (target value : Option Ty) (s t : Span) :
    Renames r (assignmentType op target value s t) (assignmentType op target value s t) := by
  unfold assignmentType
  split
  · exact Renames.pure _
  · refine Renames.bind (renames_storedType op target _ (s.cover t)) fun stored => ?_
    cases stored with
    | none => exact Renames.pure _
    | some stored =>
      cases target with
      | none => exact Renames.pure _
      | some target => exact Renames.report_if (.notAssignable stored target) s (Renames.pure _)

theorem unaryType_rename (op : UnaryOp) (operand : Expr) (type : Option Ty) :
    unaryType op (operand.rename r) type = unaryType op operand type := by
  unfold unaryType
  rw [Expr.negated?_rename]

mutual

/-- **The type of an expression does not depend on the names in it.** -/
theorem renames_infer (h : Renaming r) : ∀ e : Expr, Renames r (infer e) (infer (e.rename r))
  | .number _ _ => Renames.pure _
  | .string _ _ => Renames.pure _
  | .boolean _ _ => Renames.pure _
  | .null _ => Renames.pure _
  | .identifier name => renames_nameType h name
  | .binary op left right span =>
    Renames.bind (renames_infer h left) fun leftType =>
      Renames.bind (renames_infer h right) fun rightType =>
        renames_binaryType op leftType rightType span
  | .unary op operand _ => by
    refine Renames.bind (renames_infer h operand) fun type => ?_
    rw [unaryType_rename]
    exact Renames.pure _
  | .typeOf operand _ => Renames.bind (renames_infer h operand) fun _ => Renames.pure _
  | .assignment op target value _ => by
    have hrest (type : Option Ty) := Renames.bind (renames_infer h value) fun valueType =>
      renames_assignmentType op type valueType target.span value.span
    have htarget := renames_infer h target
    rw [Expr.rename, infer, infer, Expr.name?_rename, Expr.span_rename, Expr.span_rename]
    cases target.name? with
    | some name => exact Renames.bind (renames_targetType h name) hrest
    | none => exact Renames.bind htarget hrest
  | .conditional condition whenTrue whenFalse _ => by
    refine Renames.bind (renames_infer h condition) fun _ => ?_
    refine Renames.bind (renames_infer h whenTrue) fun trueType => ?_
    refine Renames.bind (renames_infer h whenFalse) fun falseType => ?_
    cases trueType <;> cases falseType <;> exact Renames.pure _
  | .call callee arguments span => by
    have hrest (result : Option Ty) := Renames.bind (renames_inferAll h arguments) fun _ =>
      Renames.pure result
    have hcallee := renames_infer h callee
    rw [Expr.rename, infer, infer, Expr.name?_rename, Expr.span_rename, Expr.length_renameAll]
    cases callee.name? with
    | some name => exact Renames.bind (renames_callNamed h name arguments.length span) hrest
    | none =>
      refine Renames.bind hcallee fun type => ?_
      cases type with
      | none => exact Renames.bind (Renames.pure none) hrest
      | some type =>
        refine Renames.bind ?_ hrest
        exact Renames.bind (renames_callResult type callee.span) fun _ => Renames.pure _
  | .property object name _ => by
    refine Renames.bind (renames_infer h object) fun type => ?_
    cases type with
    | none => exact Renames.pure _
    | some type => exact Renames.bind (renames_propertyType h type name) fun _ => Renames.pure _
  | .element object index _ =>
    Renames.bind (renames_infer h object) fun _ =>
      Renames.bind (renames_infer h index) fun _ => Renames.pure _
  | .parenthesized inner _ => by
    rw [Expr.rename, infer, infer]
    exact renames_infer h inner
  | .array elements _ => Renames.bind (renames_inferAll h elements) fun _ => Renames.pure _

theorem renames_inferAll (h : Renaming r) : ∀ es : List Expr,
    Renames r (inferAll es) (inferAll (Expr.renameAll r es))
  | [] => Renames.pure _
  | e :: es =>
    Renames.bind (renames_infer h e) fun _ => Renames.bind (renames_inferAll h es) fun _ =>
      Renames.pure _

end

/-! ### Declarations -/

theorem renames_declareVariable (h : Renaming r) (kind : DeclKind) (name : Ident) (type : Ty) :
    Renames r (declareVariable kind name type) (declareVariable kind (name.rename r) type) := by
  refine Renames.get_bind fun s => ?_
  simp only [State.scopes_rename, ScopeStack.function_rename, ScopeStack.current_rename]
  refine Renames.bind (renames_declareNew h _ name.name _) fun existing => ?_
  rcases existing with _ | ⟨oldType, oldKind, place⟩ | ⟨result, arity, place⟩
  · exact Renames.pure ()
  · show Renames r (if _ then _ else _) (if _ then _ else _)
    split
    · exact renames_modifyScopes fun x => ScopeStack.declare_rename r x _ name.name _
    · split
      · exact renames_reportBoth (.duplicateIdentifier name.name) _ name.span
      · exact renames_reportBoth (.blockScopedRedeclaration name.name) _ name.span
  · exact renames_reportBoth (.duplicateIdentifier name.name) _ name.span

theorem renames_variableType (kind : DeclKind) (name : Ident) (declared : Option Ty)
    (initial : Option (Option Ty)) :
    Renames r (variableType kind name declared initial)
      (variableType kind (name.rename r) declared initial) := by
  unfold variableType
  split
  · exact Renames.report_if (.notAssignable _ _) name.span (Renames.pure _)
  all_goals exact Renames.pure _

theorem renames_firstValue (h : Renaming r) : ∀ e : Option Expr,
    Renames r (firstValue e) (firstValue (e.map (Expr.rename r)))
  | none => Renames.pure none
  | some e => Renames.bind (renames_infer h e) fun _ => Renames.pure _

theorem renames_declareValued (h : Renaming r) (kind : DeclKind) (name : Ident)
    (declared : Option Ty) (initial : Option (Option Ty)) :
    Renames r (declareValued kind name declared initial)
      (declareValued kind (name.rename r) declared initial) := by
  refine Renames.bind (renames_variableType kind name declared initial) fun type => ?_
  cases type with
  | none => exact renames_declareVariable h kind name Ty.any
  | some type =>
    have hrecord := Renames.modify fun s => State.record_rename r name.span.start type s
    exact Renames.bind hrecord fun _ => renames_declareVariable h kind name type

theorem renames_declarator (h : Renaming r) (kind : DeclKind) (d : Declarator) :
    Renames r (declarator kind d) (declarator kind (d.rename r)) := by
  rw [declarator_eq, declarator_eq]
  refine Renames.bind (renames_resolve? h d.declaredType) fun declared => ?_
  refine Renames.bind (renames_firstValue h d.initializer) fun initial => ?_
  exact renames_declareValued h kind d.name declared initial

theorem renames_declaration (h : Renaming r) (d : Declaration) :
    Renames r (declaration d) (declaration (d.rename r)) :=
  Renames.forM (renames_declarator h d.kind) d.declarators

theorem renames_declareParameter (h : Renaming r) (p : Parameter) :
    Renames r (declareParameter p) (declareParameter (p.rename r)) := by
  refine Renames.bind (renames_resolve? h p.declaredType) fun type => ?_
  refine Renames.get_bind fun s => ?_
  rw [State.scopes_rename, ScopeStack.current_rename]
  refine Renames.bind (renames_declareNew h _ p.name.name _) fun existing => ?_
  cases existing with
  | none => exact Renames.pure ()
  | some existing =>
    exact renames_reportBoth (.duplicateIdentifier p.name.name) existing p.name.span

theorem functionSymbol_rename (f : Signature) (result : Ty) :
    functionSymbol (f.rename r) result = functionSymbol f result := by
  simp [functionSymbol, Signature.rename, Ident.rename]

theorem result_rename (h : Renaming r) (f : Signature) :
    (f.rename r).returnType.map TypeExpr.toTy = f.returnType.map TypeExpr.toTy := by
  simp [Signature.rename, Function.comp_def, TypeExpr.toTy_rename h]

theorem renames_declareFunction (h : Renaming r) (f : Signature) :
    Renames r (declareFunction f) (declareFunction (f.rename r)) := by
  refine Renames.get_bind fun s => ?_
  rw [State.scopes_rename, ScopeStack.current_rename, functionSymbol_rename, result_rename h]
  refine Renames.bind (renames_declareNew h _ f.name.name _) fun existing => ?_
  rcases existing with _ | ⟨type, kind, place⟩ | ⟨result, arity, place⟩
  · exact Renames.pure ()
  · exact renames_reportBoth (.duplicateIdentifier f.name.name) _ f.name.span
  · exact renames_reportBoth .duplicateFunction _ f.name.span

theorem renames_declareFunctions (h : Renaming r) (stmts : List Stmt) :
    Renames r (declareFunctions stmts) (declareFunctions (Stmt.renameAll r stmts)) := by
  induction stmts with
  | nil => exact Renames.pure ()
  | cons s _ ih =>
    cases s with
    | function f _ _ _ => exact Renames.bind (renames_declareFunction h f) fun _ => ih
    | _ => exact ih

theorem renames_functionBody (h : Renaming r) (f : Signature) (declared : Option Ty)
    {run run' : Check Unit} (hrun : Renames r run run') :
    Renames r (functionBody f declared run) (functionBody (f.rename r) declared run') := by
  refine Renames.bind (renames_inFunctionScope ?_) fun frame => ?_
  · refine Renames.bind (Renames.forM (renames_declareParameter h) f.parameters) fun _ => ?_
    exact renames_inFrame declared hrun
  · obtain ⟨name, parameters, returnType⟩ := f
    cases returnType with
    | none => exact Renames.pure _
    | some type =>
      simp only [Signature.rename, Option.map_some, TypeExpr.span_rename]
      exact Renames.report_if .missingReturn type.span (Renames.pure _)

/-! ### Statements -/

theorem renames_valueType (h : Renaming r) : ∀ value : Option Expr,
    Renames r (valueType value) (valueType (value.map (Expr.rename r)))
  | none => Renames.pure _
  | some e => renames_infer h e

theorem renames_yieldValue (value : Option Expr) (span : Span) (type : Option Ty) :
    Renames r (yieldValue value span type)
      (yieldValue (value.map (Expr.rename r)) span type) := by
  refine Renames.get_bind fun s => ?_
  rw [State.frames_rename]
  rcases s.frames with _ | ⟨⟨declared, returns⟩, frames⟩
  · exact renames_report .strayReturn span
  · cases value with
    | none => exact renames_addReturn _
    | some e =>
      rcases type with _ | type
      · exact renames_addReturn _
      · cases declared with
        | none => exact renames_addReturn _
        | some declared =>
          simp only [Option.map_some, Expr.span_rename]
          exact Renames.report_if (.notAssignable type declared) e.span (renames_addReturn _)

theorem renames_returnValue (h : Renaming r) (value : Option Expr) (span : Span) :
    Renames r (returnValue value span) (returnValue (value.map (Expr.rename r)) span) := by
  rw [returnValue_eq, returnValue_eq]
  exact Renames.bind (renames_valueType h value) (renames_yieldValue value span)

theorem renames_expression (h : Renaming r) (e : Expr) :
    Renames r (expression e) (expression (e.rename r)) :=
  Renames.bind (renames_infer h e) fun _ => Renames.pure ()

theorem renames_expression? (h : Renaming r) : ∀ e : Option Expr,
    Renames r (expression? e) (expression? (e.map (Expr.rename r)))
  | none => Renames.pure ()
  | some e => renames_expression h e

theorem renames_forStart (h : Renaming r) : ∀ start : Option ForStart,
    Renames r (forStart start) (forStart (start.map (ForStart.rename r)))
  | none => Renames.pure ()
  | some (.declaration d) => renames_declaration h d
  | some (.expression e) => renames_expression h e

mutual

/-- **A statement is checked alike under all names.** -/
theorem renames_statement (h : Renaming r) : ∀ s : Stmt,
    Renames r (statement s) (statement (s.rename r))
  | .variables d _ => renames_declaration h d
  | .function f body _ _ =>
    Renames.bind (renames_resolve? h f.returnType) fun declared =>
      Renames.bind (renames_functionBody h f declared (renames_together h body)) fun _ =>
        Renames.pure ()
  | .block body _ => renames_inScope (renames_together h body)
  | .ifThen condition thenBranch _ =>
    Renames.bind (renames_expression h condition) fun _ => renames_statement h thenBranch
  | .ifElse condition thenBranch elseBranch _ =>
    Renames.bind (renames_expression h condition) fun _ =>
      Renames.bind (renames_statement h thenBranch) fun _ => renames_statement h elseBranch
  | .whileLoop condition body _ =>
    Renames.bind (renames_expression h condition) fun _ => renames_statement h body
  | .forLoop start condition update body _ =>
    renames_inScope (Renames.bind (renames_forStart h start) fun _ =>
      Renames.bind (renames_expression? h condition) fun _ =>
        Renames.bind (renames_expression? h update) fun _ => renames_statement h body)
  | .returns value span => renames_returnValue h value span
  | .expression e _ => renames_expression h e

theorem renames_together (h : Renaming r) : ∀ stmts : List Stmt, Renames r
    (together stmts (inferFunctions stmts) (statements stmts))
    (together (Stmt.renameAll r stmts) (inferFunctions (Stmt.renameAll r stmts))
      (statements (Stmt.renameAll r stmts)))
  | stmts => Renames.bind (renames_declareFunctions h stmts) fun _ =>
      Renames.bind (renames_inferFunctions h stmts) fun _ => renames_statements h stmts

theorem renames_statements (h : Renaming r) : ∀ stmts : List Stmt,
    Renames r (statements stmts) (statements (Stmt.renameAll r stmts))
  | [] => Renames.pure ()
  | s :: ss => Renames.bind (renames_statement h s) fun _ => renames_statements h ss

theorem renames_inferFunction (h : Renaming r) : ∀ s : Stmt,
    Renames r (inferFunction s) (inferFunction (s.rename r))
  | .function ⟨name, parameters, returnType⟩ body _ _ => by
    cases returnType with
    | some _ => exact Renames.pure ()
    | none =>
      have hbody := renames_functionBody h ⟨name, parameters, none⟩ none (renames_together h body)
      refine Renames.bind (renames_silently hbody) fun result => ?_
      refine Renames.get_bind fun s => renames_modifyScopes fun x => ?_
      rw [State.scopes_rename, ScopeStack.current_rename, functionSymbol_rename]
      exact ScopeStack.declare_rename r x _ name.name _
  | .variables _ _ => Renames.pure ()
  | .block _ _ => Renames.pure ()
  | .ifThen _ _ _ => Renames.pure ()
  | .ifElse _ _ _ _ => Renames.pure ()
  | .whileLoop _ _ _ => Renames.pure ()
  | .forLoop _ _ _ _ _ => Renames.pure ()
  | .returns _ _ => Renames.pure ()
  | .expression _ _ => Renames.pure ()

theorem renames_inferFunctions (h : Renaming r) : ∀ stmts : List Stmt,
    Renames r (inferFunctions stmts) (inferFunctions (Stmt.renameAll r stmts))
  | [] => Renames.pure ()
  | s :: ss => Renames.bind (renames_inferFunction h s) fun _ => renames_inferFunctions h ss

end

end Check

/-- Two findings of one kind at one place. The second is worded as the first one is, with the
image of the name that it quotes. -/
structure Diagnostic.Renamed (r : String → String) (d d' : Diagnostic) : Prop where
  file : d'.file = d.file
  span : d'.span = d.span
  category : d'.category = d.category
  source : d'.source = d.source
  code : d'.code = d.code
  message : ∃ problem : TypeProblem, problem.code = d.code ∧
    d.message = problem.message ∧ d'.message = (problem.rename r).message ∧
    (problem.quoted? = none → d'.message = d.message) ∧
    ∀ name, problem.quoted? = some name → ∃ before after,
      d.message = before ++ name ++ after ∧ d'.message = before ++ r name ++ after

theorem TypeError.renamed_toDiagnostic (r : String → String) (file : String) (e : TypeError) :
    Diagnostic.Renamed r (e.toDiagnostic file) ((e.rename r).toDiagnostic file) where
  file := rfl
  span := rfl
  category := rfl
  source := rfl
  code := e.problem.code_rename r
  message := ⟨e.problem, rfl, rfl, rfl, TypeProblem.message_rename_of_none r,
    fun _ => TypeProblem.message_rename_of_some r⟩

namespace Script

theorem checkedState_rename (h : Renaming r) (script : Script) :
    (script.rename r).checkedState = script.checkedState.rename r := by
  have hbody := Check.renames_together h script.body Typing.State.initial
  rw [Typing.State.initial_rename] at hbody
  exact congrArg Prod.snd hbody

/-- **The checker does not depend on the names.** Under a renaming a script has the same types,
and the same findings in the same order, with the images of the names they quote. -/
theorem check_rename (h : Renaming r) (script : Script) :
    (script.rename r).check.types = script.check.types ∧
    List.Forall₂ (Diagnostic.Renamed r) script.check.diagnostics
      (script.rename r).check.diagnostics := by
  have hstate := script.checkedState_rename h
  have herrors : (script.rename r).checkedState.errors
      = script.checkedState.errors.map (TypeError.rename r) := by
    rw [hstate]
    exact (List.map_reverse).symm
  constructor
  · show (script.rename r).checkedState.types = script.checkedState.types
    rw [hstate]
    rfl
  · show List.Forall₂ _ (script.checkedState.errors.map _)
      ((script.rename r).checkedState.errors.map _)
    rw [herrors, List.map_map, List.forall₂_map_left_iff, List.forall₂_map_right_iff,
      List.forall₂_same]
    exact fun e _ => e.renamed_toDiagnostic r script.name

/-- Two names change places: a constant and a name that stands for nothing. -/
theorem check_rename_swapped :
    let script := (recover "a.ts" "const x = 1; x = y; let z: y = x.y").1
    List.Forall₂ (Diagnostic.Renamed (Equiv.swap "x" "y")) script.check.diagnostics
      (script.rename (Equiv.swap "x" "y")).check.diagnostics ∧
    script.check.diagnostics.map (·.message) =
      ["Cannot assign to 'x' because it is a constant.", "Cannot find name 'y'.",
        "Cannot find name 'y'.", "Property 'y' does not exist on type '1'."] ∧
    (script.rename (Equiv.swap "x" "y")).check.diagnostics.map (·.message) =
      ["Cannot assign to 'y' because it is a constant.", "Cannot find name 'x'.",
        "Cannot find name 'x'.", "Property 'x' does not exist on type '1'."] := by
  have hswap : Renaming (Equiv.swap "x" "y") :=
    Renaming.swap (by decide) (by decide)
  exact ⟨(check_rename hswap _).2, by decide +kernel, by decide +kernel⟩

end Script

end ScriptLint
