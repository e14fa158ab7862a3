import ScriptLint.Proofs.Layout.Checker
/-!
# The checker does not depend on layout

On two trees that are alike the checker goes the same way: it finds the same
types, and reports the same errors at corresponding places. A step that only
looks at symbols and types takes the same decisions on both trees, so each
proof follows its step.

Key theorems: `agree_infer`, `agree_statement`, `agree_body`.
-/

namespace ScriptLint

variable {A : Alignment} {ρ : Span → Span → Prop}

/-! ### Written types -/

mutual

theorem TypeExpr.Alike.toTy : ∀ {a b : TypeExpr}, a.Alike ρ b → a.toTy = b.toTy
  | _, _, .keyword _ => rfl
  | _, _, .literal _ => rfl
  | _, _, .reference h => by rw [TypeExpr.toTy, TypeExpr.toTy, h.name]
  | _, _, .array h _ => by rw [TypeExpr.toTy, TypeExpr.toTy, h.toTy]
  | _, _, .union h _ => by rw [TypeExpr.toTy, TypeExpr.toTy, TypeExpr.toTys_alike h]

theorem TypeExpr.toTys_alike : ∀ {as bs : List TypeExpr}, List.Forall₂ (TypeExpr.Alike ρ) as bs →
    TypeExpr.toTys as = TypeExpr.toTys bs
  | _, _, .nil => rfl
  | _, _, .cons h hs => by rw [TypeExpr.toTys, TypeExpr.toTys, h.toTy, TypeExpr.toTys_alike hs]

end

mutual

theorem TypeExpr.Alike.unknownNames : ∀ {a b : TypeExpr}, a.Alike ρ b →
    List.Forall₂ (Ident.Alike ρ) a.unknownNames b.unknownNames
  | _, _, .keyword _ => .nil
  | _, _, .literal _ => .nil
  | _, _, .reference h => by
    rw [TypeExpr.unknownNames, TypeExpr.unknownNames, h.name]
    split
    · exact .nil
    · exact .cons h .nil
  | _, _, .array h _ => h.unknownNames
  | _, _, .union h _ => TypeExpr.unknownNamesAll_alike h

theorem TypeExpr.unknownNamesAll_alike : ∀ {as bs : List TypeExpr},
    List.Forall₂ (TypeExpr.Alike ρ) as bs →
    List.Forall₂ (Ident.Alike ρ) (TypeExpr.unknownNamesAll as) (TypeExpr.unknownNamesAll bs)
  | _, _, .nil => .nil
  | _, _, .cons h hs => List.rel_append h.unknownNames (TypeExpr.unknownNamesAll_alike hs)

end

namespace Check

open Typing

theorem agree_resolve {a b : TypeExpr} (h : a.Alike A.Spans b) :
    Agree A (· = ·) (resolve a) (resolve b) := by
  refine Agree.andThen (Agree.forM (fun v w hvw => ?_) h.unknownNames) (Agree.pure h.toTy)
  rw [hvw.name]
  exact agree_report _ hvw.span

theorem agree_resolve? {a b : Option TypeExpr} (h : Option.Rel (TypeExpr.Alike A.Spans) a b) :
    Agree A (· = ·) (resolve? a) (resolve? b) := by
  cases h with
  | none => exact Agree.pure rfl
  | some h => exact Agree.bind_eq (agree_resolve h) fun type => Agree.pure rfl

/-! ### Expressions -/

/-- An error that is reported under a condition, and what comes then. -/
theorem Agree.report_if {α β : Type} {R : α → β → Prop} {c : Prop} {_ : Decidable c}
    {problem : TypeProblem} {s t : Span} {f : Unit → Check α} {g : Unit → Check β}
    (h : A.Spans s t) (hfg : Agree A R (f ()) (g ())) :
    Agree A R (if c then report problem s >>= f else f ())
      (if c then report problem t >>= g else g ()) := by
  by_cases hc : c
  · rw [if_pos hc, if_pos hc]
    exact Agree.andThen (agree_report problem h) hfg
  · rw [if_neg hc, if_neg hc]
    exact hfg

theorem agree_callResult (callee : Ty) {s t : Span} (h : A.Spans s t) :
    Agree A (· = ·) (callResult callee s) (callResult callee t) :=
  Agree.report_if h (Agree.pure rfl)

theorem agree_callNamed {v w : Ident} (h : v.Alike A.Spans w) (count : Nat) {s t : Span}
    (hst : A.Spans s t) : Agree A (· = ·) (callNamed v count s) (callNamed w count t) := by
  unfold callNamed
  rw [h.name]
  refine Agree.bind (agree_lookup? w.name) fun x y hxy => ?_
  cases hxy with
  | none => exact Agree.andThen (agree_report _ h.span) (Agree.pure rfl)
  | some hxy =>
    cases hxy with
    | @function _ arity =>
      cases arity with
      | none => exact Agree.pure rfl
      | some arity => exact Agree.report_if hst (Agree.pure rfl)
    | value _ => exact Agree.bind_eq (agree_callResult _ h.span) fun type => Agree.pure rfl

theorem agree_nameType {v w : Ident} (h : v.Alike A.Spans w) :
    Agree A (· = ·) (nameType v) (nameType w) := by
  unfold nameType
  rw [h.name]
  refine Agree.bind (agree_lookup? w.name) fun x y hxy => ?_
  cases hxy with
  | none => exact Agree.andThen (agree_report _ h.span) (Agree.pure rfl)
  | some hxy => cases hxy <;> exact Agree.pure rfl

theorem agree_targetType {v w : Ident} (h : v.Alike A.Spans w) :
    Agree A (· = ·) (targetType v) (targetType w) := by
  unfold targetType
  rw [h.name]
  refine Agree.bind (agree_lookup? w.name) fun x y hxy => ?_
  cases hxy with
  | none => exact Agree.andThen (agree_report _ h.span) (Agree.pure rfl)
  | some hxy =>
    cases hxy with
    | function _ => exact Agree.andThen (agree_report _ h.span) (Agree.pure rfl)
    | value _ =>
      show Agree A _ (if _ then _ else _) (if _ then _ else _)
      split
      · exact Agree.andThen (agree_report _ h.span) (Agree.pure rfl)
      · exact Agree.pure rfl

theorem agree_addition (sign : Punctuator) (left right : Ty) {s t : Span} (h : A.Spans s t) :
    Agree A (· = ·) (addition sign left right s) (addition sign left right t) := by
  unfold addition
  split
  · exact Agree.pure rfl
  · split
    · exact Agree.pure rfl
    · split
      · exact Agree.pure rfl
      · exact Agree.andThen (agree_report _ h) (Agree.pure rfl)

theorem agree_arithmetic (left right : Ty) {s t : Span} (h : A.Spans s t) :
    Agree A (· = ·) (arithmetic left right s) (arithmetic left right t) := by
  unfold arithmetic
  split
  · exact Agree.andThen (agree_report _ h) (Agree.pure rfl)
  · exact Agree.report_if h (Agree.pure rfl)

theorem agree_binaryType (op : BinaryOp) (left right : Option Ty) {s t : Span}
    (h : A.Spans s t) :
    Agree A (· = ·) (binaryType op left right s) (binaryType op left right t) := by
  unfold binaryType
  split
  · exact Agree.pure rfl
  · split
    next left right =>
      refine Agree.bind_eq ?_ fun type => Agree.pure rfl
      unfold binaryResult
      split
      · exact Agree.pure rfl
      · exact Agree.pure rfl
      · exact Agree.pure rfl
      · exact agree_addition _ left right h
      · exact agree_arithmetic left right h
    next => exact Agree.pure rfl

theorem agree_propertyType (object : Ty) {v w : Ident} (h : v.Alike A.Spans w) :
    Agree A (· = ·) (propertyType object v) (propertyType object w) := by
  unfold propertyType
  rw [h.name]
  split
  · exact Agree.pure rfl
  · split
    · exact Agree.pure rfl
    · exact Agree.andThen (agree_report _ h.span) (Agree.pure rfl)

theorem agree_storedType (op : AssignOp) (target : Option Ty) (value : Ty) {s t : Span}
    (h : A.Spans s t) :
    Agree A (· = ·) (storedType op target value s) (storedType op target value t) := by
  unfold storedType
  split
  · exact Agree.pure rfl
  · exact Agree.bind_eq (agree_addition _ _ value h) fun type => Agree.pure rfl
  · exact Agree.report_if h (Agree.pure rfl)
  · exact Agree.pure rfl

theorem agree_assignmentType (op : AssignOp) (target value : Option Ty) {s s' t t' : Span}
    (h : A.Spans s t) (h' : A.Spans s' t') :
    Agree A (· = ·) (assignmentType op target value s s') (assignmentType op target value t t') := by
  unfold assignmentType
  split
  · exact Agree.pure rfl
  · refine Agree.bind_eq (agree_storedType op target _ (h.cover h')) fun stored => ?_
    split
    · exact Agree.pure rfl
    · split
      · exact Agree.report_if h (Agree.pure rfl)
      · exact Agree.pure rfl

theorem alike_name? {a b : Expr} (h : a.Alike ρ b) :
    Option.Rel (Ident.Alike ρ) a.name? b.name? := by
  cases h with
  | identifier h => exact .some h
  | _ => exact .none

theorem alike_negated? {a b : Expr} (h : a.Alike ρ b) : a.negated? = b.negated? := by
  cases h <;> rfl

theorem alike_unaryType (op : UnaryOp) {a b : Expr} (h : a.Alike ρ b) (type : Option Ty) :
    unaryType op a type = unaryType op b type := by
  unfold unaryType
  rw [alike_negated? h]

mutual

/-- **The type of an expression does not depend on layout,** and neither do the errors in it. -/
theorem agree_infer : ∀ {a b : Expr}, a.Alike A.Spans b → Agree A (· = ·) (infer a) (infer b)
  | _, _, .number _ => Agree.pure rfl
  | _, _, .string _ => Agree.pure rfl
  | _, _, .boolean _ => Agree.pure rfl
  | _, _, .null _ => Agree.pure rfl
  | _, _, .identifier h => agree_nameType h
  | _, _, .binary ha hb hs =>
    Agree.bind_eq (agree_infer ha) fun left => Agree.bind_eq (agree_infer hb) fun right =>
      agree_binaryType _ left right hs
  | _, _, .unary ha _ =>
    Agree.bind_eq (agree_infer ha) fun type => Agree.pure (alike_unaryType _ ha type)
  | _, _, .typeOf ha _ => Agree.bind_eq (agree_infer ha) fun _ => Agree.pure rfl
  | _, _, @Expr.Alike.assignment _ op _ _ _ _ _ _ ha hb _ => by
    have hrest := fun target => Agree.bind_eq (agree_infer hb) fun value =>
      agree_assignmentType op target value ha.span hb.span
    have hname := alike_name? ha
    have htarget := agree_infer ha
    rw [infer, infer]
    generalize Expr.name? _ = v at hname ⊢
    generalize Expr.name? _ = w at hname ⊢
    cases hname with
    | some hvw => exact Agree.bind_eq (agree_targetType hvw) hrest
    | none => exact Agree.bind_eq htarget hrest
  | _, _, .conditional ha hb hc _ => by
    refine Agree.bind_eq (agree_infer ha) fun _ => Agree.bind_eq (agree_infer hb) fun x => ?_
    refine Agree.bind_eq (agree_infer hc) fun y => ?_
    cases x <;> cases y <;> exact Agree.pure rfl
  | _, _, .call ha hs hspan => by
    have hrest := fun result : Option Ty => Agree.bind_eq (agree_inferAll hs) fun _ =>
      Agree.pure (A := A) (Eq.refl result)
    have hname := alike_name? ha
    have hcallee := agree_infer ha
    rw [infer, infer]
    generalize Expr.name? _ = v at hname ⊢
    generalize Expr.name? _ = w at hname ⊢
    cases hname with
    | some hvw => exact Agree.bind_eq (hs.length_eq ▸ agree_callNamed hvw _ hspan) hrest
    | none =>
      refine Agree.bind_eq hcallee fun type => ?_
      cases type with
      | none => exact Agree.bind_eq (Agree.pure rfl) hrest
      | some type =>
        refine Agree.bind_eq ?_ hrest
        exact Agree.bind_eq (agree_callResult type ha.span) fun _ => Agree.pure rfl
  | _, _, .property ha hv _ => by
    refine Agree.bind_eq (agree_infer ha) fun type => ?_
    cases type with
    | none => exact Agree.pure rfl
    | some type => exact Agree.bind_eq (agree_propertyType type hv) fun _ => Agree.pure rfl
  | _, _, .element ha hb _ =>
    Agree.bind_eq (agree_infer ha) fun _ => Agree.bind_eq (agree_infer hb) fun _ => Agree.pure rfl
  | _, _, .parenthesized ha _ => by
    rw [infer, infer]
    exact agree_infer ha
  | _, _, .array hs _ => Agree.bind_eq (agree_inferAll hs) fun _ => Agree.pure rfl

theorem agree_inferAll : ∀ {as bs : List Expr}, List.Forall₂ (Expr.Alike A.Spans) as bs →
    Agree A (· = ·) (inferAll as) (inferAll bs)
  | _, _, .nil => Agree.pure rfl
  | _, _, .cons h hs =>
    Agree.bind_eq (agree_infer h) fun _ => Agree.bind_eq (agree_inferAll hs) fun _ => Agree.pure rfl

end

/-! ### Declarations -/

theorem agree_declareVariable (kind : DeclKind) {v w : Ident} (h : v.Alike A.Spans w) (type : Ty) :
    Agree A (fun _ _ => True) (declareVariable kind v type) (declareVariable kind w type) := by
  refine Agree.get_bind fun s t hst => ?_
  have hsymbol : (Symbol.value type (some kind) v.span).Alike A.Spans
      (Symbol.value type (some kind) w.span) := .value h.span
  simp only [h.name, hst.scopes.function, hst.scopes.current]
  refine Agree.bind (agree_declareNew _ w.name hsymbol) fun x y hxy => ?_
  cases hxy with
  | none => exact Agree.pure trivial
  | some hxy =>
    cases hxy with
    | function hs => exact agree_reportBoth _ (.function hs) h.span
    | value hs =>
      show Agree A _ (if _ then _ else _) (if _ then _ else _)
      split
      · exact agree_modifyScopes fun _ _ hxy => hxy.declare _ w.name hsymbol
      · split
        · exact agree_reportBoth _ (.value hs) h.span
        · exact agree_reportBoth _ (.value hs) h.span

theorem agree_variableType (kind : DeclKind) {v w : Ident} (h : v.Alike A.Spans w)
    (declared : Option Ty) (initial : Option (Option Ty)) :
    Agree A (· = ·) (variableType kind v declared initial)
      (variableType kind w declared initial) := by
  unfold variableType
  split
  · exact Agree.report_if h.span (Agree.pure rfl)
  all_goals exact Agree.pure rfl

/-- A variable is declared after its type was recorded, if it has one. -/
theorem agree_record_declare (kind : DeclKind) {v w : Ident} (h : v.Alike A.Spans w)
    (type : Option Ty) :
    Agree A (fun _ _ => True)
      (do
        match type with
        | some type => modify (State.record v.span.start type)
        | none => pure ()
        declareVariable kind v (type.getD Ty.any))
      (do
        match type with
        | some type => modify (State.record w.span.start type)
        | none => pure ()
        declareVariable kind w (type.getD Ty.any)) := by
  cases type with
  | none => exact agree_declareVariable kind h _
  | some type =>
    refine Agree.andThen (Agree.modify fun s t hst => ?_) (agree_declareVariable kind h _)
    exact hst.record h.span.start type

theorem agree_declarator (kind : DeclKind) {d d' : Declarator} (h : d.Alike A.Spans d') :
    Agree A (fun _ _ => True) (declarator kind d) (declarator kind d') := by
  refine Agree.bind_eq (agree_resolve? h.declaredType) fun declared => ?_
  have hinitial := h.initializer
  generalize d.initializer = a at hinitial ⊢
  generalize d'.initializer = b at hinitial ⊢
  cases hinitial with
  | none =>
    refine Agree.bind_eq (Agree.pure rfl) fun initial => ?_
    refine Agree.bind_eq (agree_variableType kind h.name declared initial) fun type => ?_
    exact agree_record_declare kind h.name type
  | some hab =>
    have hvalue := Agree.bind_eq (agree_infer hab) fun type => Agree.pure (A := A) (Eq.refl (some type))
    refine Agree.bind_eq hvalue fun initial => ?_
    refine Agree.bind_eq (agree_variableType kind h.name declared initial) fun type => ?_
    exact agree_record_declare kind h.name type

theorem agree_declaration {d d' : Declaration} (h : d.Alike A.Spans d') :
    Agree A (fun _ _ => True) (declaration d) (declaration d') := by
  unfold declaration
  rw [h.kind]
  exact Agree.forM (fun _ _ hd => agree_declarator _ hd) h.declarators

theorem agree_declareParameter {p p' : Parameter} (h : p.Alike A.Spans p') :
    Agree A (fun _ _ => True) (declareParameter p) (declareParameter p') := by
  refine Agree.bind_eq (agree_resolve? h.declaredType) fun type => ?_
  refine Agree.get_bind fun s t hst => ?_
  rw [h.name.name, hst.scopes.current]
  refine Agree.bind (agree_declareNew _ _ (.value h.name.span)) fun x y hxy => ?_
  cases hxy with
  | none => exact Agree.pure trivial
  | some hxy => exact agree_reportBoth _ hxy h.name.span

theorem alike_functionSymbol {f f' : Signature} (h : f.Alike A.Spans f') (result : Ty) :
    (functionSymbol f result).Alike A.Spans (functionSymbol f' result) := by
  rw [functionSymbol, functionSymbol, h.parameters.length_eq]
  exact .function h.name.span

theorem alike_result {f f' : Signature} (h : f.Alike A.Spans f') :
    f.returnType.map TypeExpr.toTy = f'.returnType.map TypeExpr.toTy := by
  have htype := h.returnType
  generalize f.returnType = a at htype ⊢
  generalize f'.returnType = b at htype ⊢
  cases htype with
  | none => rfl
  | some hab => exact congrArg some hab.toTy

theorem agree_declareFunction {f f' : Signature} (h : f.Alike A.Spans f') :
    Agree A (fun _ _ => True) (declareFunction f) (declareFunction f') := by
  refine Agree.get_bind fun s t hst => ?_
  rw [h.name.name, hst.scopes.current, alike_result h]
  refine Agree.bind (agree_declareNew _ _ (alike_functionSymbol h _)) fun x y hxy => ?_
  cases hxy with
  | none => exact Agree.pure trivial
  | some hxy =>
    cases hxy with
    | function hs => exact agree_reportBoth _ (.function hs) h.name.span
    | value hs => exact agree_reportBoth _ (.value hs) h.name.span

theorem agree_declareFunctions {as bs : List Stmt} (h : List.Forall₂ (Stmt.Alike A.Spans) as bs) :
    Agree A (fun _ _ => True) (declareFunctions as) (declareFunctions bs) := by
  induction h with
  | nil => exact Agree.pure trivial
  | cons hab _ ih =>
    cases hab with
    | function hf _ _ _ => exact Agree.andThen (agree_declareFunction hf) ih
    | _ => exact ih

theorem agree_functionBody {f f' : Signature} (h : f.Alike A.Spans f') (declared : Option Ty)
    {run run' : Check Unit} (hrun : Agree A (fun _ _ => True) run run') :
    Agree A (· = ·) (functionBody f declared run) (functionBody f' declared run') := by
  refine Agree.bind_eq (agree_inFunctionScope ?_) fun frame => ?_
  · refine Agree.andThen (Agree.forM (fun p q hpq => ?_) h.parameters) ?_
    · exact agree_declareParameter hpq
    · exact agree_inFrame declared hrun
  have htype := h.returnType
  generalize f.returnType = a at htype ⊢
  generalize f'.returnType = b at htype ⊢
  cases htype with
  | none => exact Agree.pure rfl
  | some hab => exact Agree.report_if hab.span (Agree.pure rfl)

/-! ### Statements -/

theorem agree_returnValue {a b : Option Expr} (h : Option.Rel (Expr.Alike A.Spans) a b)
    {s t : Span} (hspan : A.Spans s t) :
    Agree A (fun _ _ => True) (returnValue a s) (returnValue b t) := by
  cases h with
  | none =>
    refine Agree.bind_eq (Agree.pure rfl) fun type => Agree.get_bind fun x y hxy => ?_
    rw [hxy.frames]
    cases y.frames with
    | nil => exact agree_report _ hspan
    | cons frame frames => exact agree_addReturn _
  | some hab =>
    refine Agree.bind_eq (agree_infer hab) fun type => Agree.get_bind fun x y hxy => ?_
    rw [hxy.frames]
    cases y.frames with
    | nil => exact agree_report _ hspan
    | cons frame frames =>
      obtain ⟨declared, returns⟩ := frame
      cases type with
      | none => exact agree_addReturn _
      | some type =>
        cases declared with
        | none => exact agree_addReturn _
        | some declared => exact Agree.report_if hab.span (agree_addReturn _)

theorem agree_expression {a b : Expr} (h : a.Alike A.Spans b) :
    Agree A (fun _ _ => True) (expression a) (expression b) :=
  Agree.bind_eq (agree_infer h) fun _ => Agree.pure trivial

theorem agree_expression? {a b : Option Expr} (h : Option.Rel (Expr.Alike A.Spans) a b) :
    Agree A (fun _ _ => True) (expression? a) (expression? b) := by
  cases h with
  | none => exact Agree.pure trivial
  | some h => exact agree_expression h

theorem agree_forStart {a b : Option ForStart} (h : Option.Rel (ForStart.Alike A.Spans) a b) :
    Agree A (fun _ _ => True) (forStart a) (forStart b) := by
  cases h with
  | none => exact Agree.pure trivial
  | some h =>
    cases h with
    | declaration h => exact agree_declaration h
    | expression h => exact agree_expression h

mutual

/-- **A statement is checked alike in every layout.** -/
theorem agree_statement : ∀ {a b : Stmt}, a.Alike A.Spans b →
    Agree A (fun _ _ => True) (statement a) (statement b)
  | _, _, .variables h _ => agree_declaration h
  | _, _, .function h hs _ _ =>
    Agree.bind_eq (agree_resolve? h.returnType) fun declared =>
      Agree.bind_eq (agree_functionBody h declared (agree_together hs)) fun _ => Agree.pure trivial
  | _, _, .block hs _ => agree_inScope (agree_together hs)
  | _, _, .ifThen h hs _ => Agree.andThen (agree_expression h) (agree_statement hs)
  | _, _, .ifElse h hs hs' _ =>
    Agree.andThen (agree_expression h) (Agree.andThen (agree_statement hs) (agree_statement hs'))
  | _, _, .whileLoop h hs _ => Agree.andThen (agree_expression h) (agree_statement hs)
  | _, _, .forLoop h h' h'' hs _ =>
    agree_inScope (Agree.andThen (agree_forStart h) (Agree.andThen (agree_expression? h')
      (Agree.andThen (agree_expression? h'') (agree_statement hs))))
  | _, _, .returns h hs => agree_returnValue h hs
  | _, _, .expression h _ => agree_expression h

theorem agree_together : ∀ {as bs : List Stmt}, List.Forall₂ (Stmt.Alike A.Spans) as bs →
    Agree A (fun _ _ => True) (together as (inferFunctions as) (statements as))
      (together bs (inferFunctions bs) (statements bs))
  | _, _, hs => Agree.andThen (agree_declareFunctions hs)
      (Agree.andThen (agree_inferFunctions hs) (agree_statements hs))

theorem agree_statements : ∀ {as bs : List Stmt}, List.Forall₂ (Stmt.Alike A.Spans) as bs →
    Agree A (fun _ _ => True) (statements as) (statements bs)
  | _, _, .nil => Agree.pure trivial
  | _, _, .cons h hs => Agree.andThen (agree_statement h) (agree_statements hs)

theorem agree_inferFunction : ∀ {a b : Stmt}, a.Alike A.Spans b →
    Agree A (fun _ _ => True) (inferFunction a) (inferFunction b)
  | _, _, .function h hs _ _ => by
    have hbody := agree_silently (agree_functionBody h none (agree_together hs))
    have htype := h.returnType
    rw [inferFunction, inferFunction]
    generalize Signature.returnType _ = a at htype ⊢
    generalize Signature.returnType _ = b at htype ⊢
    cases htype with
    | some _ => exact Agree.pure trivial
    | none =>
      refine Agree.bind_eq hbody fun result => Agree.get_bind fun s t hst => ?_
      rw [h.name.name, hst.scopes.current]
      exact agree_modifyScopes fun _ _ hxy => hxy.declare _ _ (alike_functionSymbol h result)
  | _, _, .variables _ _ => Agree.pure trivial
  | _, _, .block _ _ => Agree.pure trivial
  | _, _, .ifThen _ _ _ => Agree.pure trivial
  | _, _, .ifElse _ _ _ _ => Agree.pure trivial
  | _, _, .whileLoop _ _ _ => Agree.pure trivial
  | _, _, .forLoop _ _ _ _ _ => Agree.pure trivial
  | _, _, .returns _ _ => Agree.pure trivial
  | _, _, .expression _ _ => Agree.pure trivial

theorem agree_inferFunctions : ∀ {as bs : List Stmt}, List.Forall₂ (Stmt.Alike A.Spans) as bs →
    Agree A (fun _ _ => True) (inferFunctions as) (inferFunctions bs)
  | _, _, .nil => Agree.pure trivial
  | _, _, .cons h hs => Agree.andThen (agree_inferFunction h) (agree_inferFunctions hs)

end

end Check

end ScriptLint
