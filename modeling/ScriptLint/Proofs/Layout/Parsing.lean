import ScriptLint.Proofs.Layout.Reading
/-!
# The grammar does not depend on layout

Every reader of the grammar agrees with itself on aligned texts: it takes
the same decisions, and makes trees that are alike.

Key theorems: `agree_typeExpr`, `agree_expression`, `agree_statement`, `agree_statements`.
-/

namespace ScriptLint.Parse

variable {A : Alignment}

/-- The span from a start to the last token consumed, at the end of a reader. -/
theorem Agree.spanned {α β : Type} {R : α → β → Prop} {a b : Nat} {f : Span → α} {g : Span → β}
    (h : A.starts a b) (hR : ∀ s t, A.Spans s t → R (f s) (g t)) :
    Agree A R (do return f (← spanFrom a)) (do return g (← spanFrom b)) :=
  Agree.bind (agree_spanFrom h) fun s t hst => Agree.pure (hR s t hst)

/-- A token and what is made of it. -/
theorem Agree.leaf {α β : Type} {R : α → β → Prop} {a : α} {b : β} (h : R a b) :
    Agree A R (do advance; return a) (do advance; return b) :=
  Agree.bind agree_advance fun _ _ _ => Agree.pure h

/-! ### Types -/

section Types

variable {inner : Parse TypeExpr}

theorem agree_simpleType (hinner : Agree A (TypeExpr.Alike A.Spans) inner inner) :
    Agree A (TypeExpr.Alike A.Spans) (simpleType inner) (simpleType inner) := by
  refine Agree.bind agree_currentSpan fun s t hst => Agree.peek_bind fun token => ?_
  split
  · exact Agree.leaf (.literal hst)
  · exact Agree.leaf (.literal hst)
  · refine Agree.bind agree_advance fun _ _ _ => Agree.bind hinner fun a b hab => ?_
    exact Agree.bind (agree_expect _) fun _ _ _ => Agree.pure hab
  · split
    · exact Agree.leaf (.keyword hst)
    · split
      · exact Agree.leaf (.reference ⟨rfl, hst⟩)
      · exact Agree.fail _
  · exact Agree.fail _

theorem agree_arrayType (hinner : Agree A (TypeExpr.Alike A.Spans) inner inner) :
    Agree A (TypeExpr.Alike A.Spans) (arrayType inner) (arrayType inner) := by
  refine Agree.bind agree_currentSpan fun s t hst => ?_
  refine Agree.bind (agree_simpleType hinner) fun a b hab => agree_loop (fun c d hcd => ?_) hab
  refine Agree.peek_bind fun token => ?_
  split
  · refine Agree.bind agree_descend fun _ _ _ => Agree.bind agree_advance fun _ _ _ => ?_
    refine Agree.bind (agree_expect _) fun _ _ _ => ?_
    exact Agree.spanned hst.start fun _ _ h => .again (.array hcd h)
  · exact Agree.pure (.done hcd)

theorem agree_unionType (hinner : Agree A (TypeExpr.Alike A.Spans) inner inner) :
    Agree A (TypeExpr.Alike A.Spans) (unionType inner) (unionType inner) := by
  refine Agree.bind agree_currentSpan fun s t hst => ?_
  refine Agree.bind (agree_separated _ (agree_arrayType hinner)) fun as bs hlist => ?_
  rcases hlist with _ | ⟨hab, _ | ⟨hcd, hrest⟩⟩
  · exact Agree.spanned hst.start fun _ _ h => .union .nil h
  · exact Agree.pure hab
  · exact Agree.spanned hst.start fun _ _ h => .union (.cons hab (.cons hcd hrest)) h

theorem agree_typeExpr :
    ∀ depth, Agree A (TypeExpr.Alike A.Spans) (typeExpr depth) (typeExpr depth)
  | 0 => Agree.fail _
  | depth + 1 => agree_nested (agree_unionType (agree_typeExpr depth))

end Types

/-! ### Expressions -/

section Expressions

variable {inner : Rank → Parse Expr}

theorem agree_primary (hinner : ∀ rank, Agree A (Expr.Alike A.Spans) (inner rank) (inner rank)) :
    Agree A (Expr.Alike A.Spans) (primary inner) (primary inner) := by
  refine Agree.bind agree_currentSpan fun s t hst => Agree.peek_bind fun token => ?_
  split
  · exact Agree.leaf (.number hst)
  · exact Agree.leaf (.string hst)
  · exact Agree.leaf (.boolean hst)
  · exact Agree.leaf (.boolean hst)
  · exact Agree.leaf (.null hst)
  · refine Agree.bind agree_advance fun _ _ _ => Agree.bind (hinner _) fun a b hab => ?_
    refine Agree.bind (agree_expect _) fun _ _ _ => ?_
    exact Agree.spanned hst.start fun _ _ h => .parenthesized hab h
  · refine Agree.bind agree_advance fun _ _ _ => ?_
    refine Agree.bind (agree_listUntil _ (hinner _)) fun as bs hlist => ?_
    refine Agree.bind (agree_expect _) fun _ _ _ => ?_
    exact Agree.spanned hst.start fun _ _ h => .array hlist h
  · split
    · exact Agree.leaf (.identifier ⟨rfl, hst⟩)
    · exact Agree.fail _

theorem agree_access (hinner : ∀ rank, Agree A (Expr.Alike A.Spans) (inner rank) (inner rank))
    {i j : Nat} (hij : A.starts i j) {a b : Expr} (hab : a.Alike A.Spans b) :
    Agree A (Round.Alike (Expr.Alike A.Spans)) (access inner i a) (access inner j b) := by
  refine Agree.peek_bind fun token => ?_
  split
  · refine Agree.bind agree_descend fun _ _ _ => Agree.bind agree_advance fun _ _ _ => ?_
    refine Agree.bind (agree_listUntil _ (hinner _)) fun as bs hlist => ?_
    refine Agree.bind (agree_expect _) fun _ _ _ => ?_
    exact Agree.spanned hij fun _ _ h => .again (.call hab hlist h)
  · refine Agree.bind agree_descend fun _ _ _ => Agree.bind agree_advance fun _ _ _ => ?_
    refine Agree.bind agree_ident fun v w hvw => ?_
    exact Agree.spanned hij fun _ _ h => .again (.property hab hvw h)
  · refine Agree.bind agree_descend fun _ _ _ => Agree.bind agree_advance fun _ _ _ => ?_
    refine Agree.bind (hinner _) fun c d hcd => ?_
    refine Agree.bind (agree_expect _) fun _ _ _ => ?_
    exact Agree.spanned hij fun _ _ h => .again (.element hab hcd h)
  · exact Agree.pure (.done hab)

theorem agree_unary (hinner : ∀ rank, Agree A (Expr.Alike A.Spans) (inner rank) (inner rank)) :
    Agree A (Expr.Alike A.Spans) (unary inner) (unary inner) := by
  refine Agree.bind agree_currentSpan fun s t hst => Agree.peek_bind fun token => ?_
  split
  · refine Agree.bind agree_advance fun _ _ _ => Agree.bind (hinner _) fun a b hab => ?_
    exact Agree.spanned hst.start fun _ _ h => .unary hab h
  · split
    · refine Agree.bind agree_advance fun _ _ _ => Agree.bind (hinner _) fun a b hab => ?_
      exact Agree.spanned hst.start fun _ _ h => .typeOf hab h
    · refine Agree.bind agree_currentSpan fun s' t' hst' => ?_
      refine Agree.bind (agree_primary hinner) fun a b hab => ?_
      exact agree_loop (fun c d hcd => agree_access hinner hst'.start hcd) hab

theorem agree_operation (hinner : ∀ rank, Agree A (Expr.Alike A.Spans) (inner rank) (inner rank))
    (least : Nat) {a b : Expr} (hab : a.Alike A.Spans b) :
    Agree A (Round.Alike (Expr.Alike A.Spans)) (operation inner least a)
      (operation inner least b) := by
  refine Agree.peek_bind fun token => ?_
  split
  · split
    · exact Agree.pure (.done hab)
    · refine Agree.bind agree_descend fun _ _ _ => Agree.bind agree_advance fun _ _ _ => ?_
      refine Agree.bind (hinner _) fun c d hcd => ?_
      exact Agree.pure (.again (.binary hab hcd (hab.span.cover hcd.span)))
  · exact Agree.pure (.done hab)

theorem agree_binary (hinner : ∀ rank, Agree A (Expr.Alike A.Spans) (inner rank) (inner rank))
    (least : Nat) : Agree A (Expr.Alike A.Spans) (binary inner least) (binary inner least) :=
  Agree.bind (agree_unary hinner) fun _ _ hab =>
    agree_loop (fun _ _ hcd => agree_operation hinner least hcd) hab

theorem agree_conditional
    (hinner : ∀ rank, Agree A (Expr.Alike A.Spans) (inner rank) (inner rank)) :
    Agree A (Expr.Alike A.Spans) (conditional inner) (conditional inner) := by
  refine Agree.bind (agree_binary hinner 1) fun a b hab => ?_
  refine Agree.bind (agree_eat _) fun found _ hfound => ?_
  subst hfound
  cases found
  · exact Agree.pure hab
  · refine Agree.bind (hinner _) fun c d hcd => Agree.bind (agree_expect _) fun _ _ _ => ?_
    refine Agree.bind (hinner _) fun e f hef => ?_
    exact Agree.pure (.conditional hab hcd hef (hab.span.cover hef.span))

theorem agree_assignment
    (hinner : ∀ rank, Agree A (Expr.Alike A.Spans) (inner rank) (inner rank)) :
    Agree A (Expr.Alike A.Spans) (assignment inner) (assignment inner) := by
  refine Agree.bind (agree_conditional hinner) fun a b hab => Agree.peek_bind fun token => ?_
  split
  · rw [hab.isAssignable]
    split
    · refine Agree.bind agree_advance fun _ _ _ => Agree.bind (hinner _) fun c d hcd => ?_
      exact Agree.pure (.assignment hab hcd (hab.span.cover hcd.span))
    · exact Agree.throw ⟨rfl, hab.span⟩
  · exact Agree.pure hab

/-- An expression of any rank, however deep. -/
theorem agree_expression :
    ∀ depth rank, Agree A (Expr.Alike A.Spans) (expression depth rank) (expression depth rank)
  | 0, _ => Agree.fail _
  | depth + 1, rank => by
    have hinner := agree_expression depth
    refine agree_nested ?_
    cases rank with
    | assignment => exact agree_assignment hinner
    | binary least => exact agree_binary hinner least
    | unary => exact agree_unary hinner

end Expressions

/-! ### Statements -/

section Statements

theorem agree_synchronize : Agree A (fun _ _ => True) synchronize synchronize := by
  refine agree_loop (R := fun _ _ => True) (fun _ _ _ => Agree.peek_bind fun token => ?_) trivial
  split
  · exact Agree.pure (.done trivial)
  · split
    · exact Agree.leaf (.done trivial)
    · split
      · exact Agree.pure (.done trivial)
      · exact Agree.leaf (.again trivial)

/-- A statement that began at corresponding places is given up at corresponding places: the test
for progress compares two starts. -/
theorem agree_recover {i j : Nat} (hij : A.starts i j) {e e' : SyntaxError}
    (he : e.Alike A.Spans e') : Agree A (fun _ _ => True) (recover i e) (recover j e') := by
  refine Agree.bind (agree_note he) fun _ _ _ => Agree.bind agree_currentSpan fun s t hst => ?_
  have hstart := A.eq_iff hst.start hij
  by_cases h : s.start = i
  · rw [if_pos h, if_pos (hstart.mp h)]
    exact Agree.bind agree_advance fun _ _ _ => agree_synchronize
  · rw [if_neg h, if_neg (mt hstart.mpr h)]
    exact Agree.bind (Agree.pure trivial) fun _ _ (_ : True) => agree_synchronize

/-- **A list of statements does not depend on layout,** damaged or not, and not on the statements
that were read in the second text before. -/
theorem agree_statementsLoop {statement : Parse Stmt} (close : Option Token)
    (h : Agree A (Stmt.Alike A.Spans) statement statement) (front : List Stmt) :
    Agree A (fun as bs => ∃ back, bs = front ++ back ∧ List.Forall₂ (Stmt.Alike A.Spans) as back)
      (loop (statementsRound statement close) []) (loop (statementsRound statement close) front) := by
  refine agree_loop (fun as bs hlist => Agree.peek_bind fun token => ?_) ⟨[], by simp, .nil⟩
  split
  · exact Agree.pure (.done hlist)
  · refine Agree.bind (agree_eat _) fun found _ hfound => ?_
    subst hfound
    cases found
    · refine Agree.bind agree_currentSpan fun s t hst => ?_
      refine Agree.bind (agree_attempt h) fun r r' hr => ?_
      cases hr with
      | @ok a b hab =>
        obtain ⟨back, rfl, hback⟩ := hlist
        refine Agree.pure (.again ⟨back ++ [b], List.append_assoc _ _ _, ?_⟩)
        exact List.rel_append hback (.cons hab .nil)
      | error he =>
        exact Agree.bind (agree_recover hst.start he) fun _ _ _ => Agree.pure (.again hlist)
    · exact Agree.pure (.again hlist)

theorem agree_statements {statement : Parse Stmt} (close : Option Token)
    (h : Agree A (Stmt.Alike A.Spans) statement statement) :
    Agree A (List.Forall₂ (Stmt.Alike A.Spans)) (statements statement close)
      (statements statement close) := by
  intro s t hst
  rw [statements_eq]
  have hloop := agree_statementsLoop close h [] s t hst
  generalize loop (statementsRound statement close) [] s = r at hloop ⊢
  generalize loop (statementsRound statement close) [] t = r' at hloop ⊢
  cases hloop with
  | ok hbody hstate =>
    obtain ⟨back, rfl, hback⟩ := hbody
    exact .ok hback hstate
  | error he hstate => exact .error he hstate

theorem agree_block {statement : Parse Stmt}
    (h : Agree A (Stmt.Alike A.Spans) statement statement) :
    Agree A (fun x y => List.Forall₂ (Stmt.Alike A.Spans) x.1 y.1 ∧ A.Spans x.2 y.2)
      (block statement) (block statement) := by
  refine Agree.bind agree_currentSpan fun s t hst => Agree.bind (agree_expect _) fun _ _ _ => ?_
  refine Agree.bind (agree_statements _ h) fun as bs hlist => ?_
  refine Agree.bind (agree_expect _) fun _ _ _ => ?_
  exact Agree.spanned hst.start fun _ _ hspan => ⟨hlist, hspan⟩

/-- The readers of the parts of a statement do not depend on layout. -/
structure Parts.Uniform (A : Alignment) (inner : Parts) : Prop where
  typeExpr : Agree A (TypeExpr.Alike A.Spans) inner.typeExpr inner.typeExpr
  expression : Agree A (Expr.Alike A.Spans) inner.expression inner.expression
  statement : Agree A (Stmt.Alike A.Spans) inner.statement inner.statement

variable {inner : Parts}

theorem agree_declarator (h : inner.Uniform A) :
    Agree A (Declarator.Alike A.Spans) (declarator inner) (declarator inner) := by
  refine Agree.bind agree_ident fun v w hvw => ?_
  refine Agree.bind (agree_optionalAfter _ h.typeExpr) fun a b hab => ?_
  refine Agree.bind (agree_optionalAfter _ h.expression) fun c d hcd => ?_
  exact Agree.spanned hvw.span.start fun _ _ hspan => ⟨hvw, hab, hcd, hspan⟩

theorem agree_declaration (h : inner.Uniform A) (kind : DeclKind) :
    Agree A (Declaration.Alike A.Spans) (declaration inner kind) (declaration inner kind) := by
  refine Agree.bind agree_currentSpan fun s t hst => Agree.bind agree_advance fun _ _ _ => ?_
  refine Agree.bind (agree_separated _ (agree_declarator h)) fun as bs hlist => ?_
  exact Agree.spanned hst.start fun _ _ hspan => ⟨rfl, hlist, hspan⟩

theorem agree_parameter (h : inner.Uniform A) :
    Agree A (Parameter.Alike A.Spans) (parameter inner) (parameter inner) := by
  refine Agree.bind agree_ident fun v w hvw => ?_
  refine Agree.bind (agree_optionalAfter _ h.typeExpr) fun a b hab => ?_
  exact Agree.spanned hvw.span.start fun _ _ hspan => ⟨hvw, hab, hspan⟩

theorem agree_parameters (h : inner.Uniform A) :
    Agree A (List.Forall₂ (Parameter.Alike A.Spans)) (parameters inner) (parameters inner) := by
  have hnone : Agree A (List.Forall₂ (Parameter.Alike A.Spans)) (pure []) (pure []) :=
    Agree.pure .nil
  refine Agree.bind (agree_expect _) fun _ _ _ => Agree.peek_bind fun token => ?_
  split
  · refine Agree.bind hnone fun as bs hlist => ?_
    exact Agree.bind (agree_expect _) fun _ _ _ => Agree.pure hlist
  · refine Agree.bind (agree_separated _ (agree_parameter h)) fun as bs hlist => ?_
    exact Agree.bind (agree_expect _) fun _ _ _ => Agree.pure hlist

theorem agree_function (h : inner.Uniform A) :
    Agree A (Stmt.Alike A.Spans) (function inner) (function inner) := by
  refine Agree.bind agree_currentSpan fun s t hst => Agree.bind agree_advance fun _ _ _ => ?_
  refine Agree.bind agree_ident fun v w hvw => Agree.bind (agree_parameters h) fun ps qs hps => ?_
  refine Agree.bind (agree_optionalAfter _ h.typeExpr) fun a b hab => ?_
  refine Agree.bind (agree_block h.statement) fun x y hxy => ?_
  exact Agree.spanned hst.start fun _ _ hspan => .function ⟨hvw, hps, hab⟩ hxy.1 hxy.2 hspan

theorem agree_condition (h : inner.Uniform A) :
    Agree A (Expr.Alike A.Spans) (condition inner) (condition inner) := by
  refine Agree.bind (agree_expect _) fun _ _ _ => Agree.bind h.expression fun a b hab => ?_
  exact Agree.bind (agree_expect _) fun _ _ _ => Agree.pure hab

theorem agree_ifStatement (h : inner.Uniform A) :
    Agree A (Stmt.Alike A.Spans) (ifStatement inner) (ifStatement inner) := by
  refine Agree.bind agree_currentSpan fun s t hst => Agree.bind agree_advance fun _ _ _ => ?_
  refine Agree.bind (agree_condition h) fun a b hab => Agree.bind h.statement fun x y hxy => ?_
  refine Agree.bind (agree_eat _) fun found _ hfound => ?_
  subst hfound
  cases found
  · exact Agree.spanned hst.start fun _ _ hspan => .ifThen hab hxy hspan
  · refine Agree.bind h.statement fun z w hzw => ?_
    exact Agree.spanned hst.start fun _ _ hspan => .ifElse hab hxy hzw hspan

theorem agree_whileStatement (h : inner.Uniform A) :
    Agree A (Stmt.Alike A.Spans) (whileStatement inner) (whileStatement inner) := by
  refine Agree.bind agree_currentSpan fun s t hst => Agree.bind agree_advance fun _ _ _ => ?_
  refine Agree.bind (agree_condition h) fun a b hab => Agree.bind h.statement fun x y hxy => ?_
  exact Agree.spanned hst.start fun _ _ hspan => .whileLoop hab hxy hspan

theorem agree_expressionUnless (h : inner.Uniform A) (sign : Punctuator) :
    Agree A (Option.Rel (Expr.Alike A.Spans)) (expressionUnless inner sign)
      (expressionUnless inner sign) := by
  refine Agree.peek_bind fun token => ?_
  split
  · exact Agree.pure .none
  · exact Agree.bind h.expression fun a b hab => Agree.pure (.some hab)

theorem agree_forStart (h : inner.Uniform A) :
    Agree A (Option.Rel (ForStart.Alike A.Spans)) (forStart inner) (forStart inner) := by
  refine Agree.peek_bind fun token => ?_
  split
  · refine Agree.bind (agree_declaration h _) fun d d' hd => ?_
    exact Agree.pure (.some (.declaration hd))
  · refine Agree.bind (agree_expressionUnless h _) fun a b hab => ?_
    cases hab with
    | none => exact Agree.pure .none
    | some hab => exact Agree.pure (.some (.expression hab))

theorem agree_forStatement (h : inner.Uniform A) :
    Agree A (Stmt.Alike A.Spans) (forStatement inner) (forStatement inner) := by
  refine Agree.bind agree_currentSpan fun s t hst => Agree.bind agree_advance fun _ _ _ => ?_
  refine Agree.bind (agree_expect _) fun _ _ _ => Agree.bind (agree_forStart h) fun i j hij => ?_
  refine Agree.bind (agree_expect _) fun _ _ _ => ?_
  refine Agree.bind (agree_expressionUnless h _) fun a b hab => ?_
  refine Agree.bind (agree_expect _) fun _ _ _ => ?_
  refine Agree.bind (agree_expressionUnless h _) fun c d hcd => ?_
  refine Agree.bind (agree_expect _) fun _ _ _ => Agree.bind h.statement fun x y hxy => ?_
  exact Agree.spanned hst.start fun _ _ hspan => .forLoop hij hab hcd hxy hspan

theorem agree_returnStatement (h : inner.Uniform A) :
    Agree A (Stmt.Alike A.Spans) (returnStatement inner) (returnStatement inner) := by
  refine Agree.bind agree_currentSpan fun s t hst => Agree.bind agree_advance fun _ _ _ => ?_
  refine Agree.peek_bind fun token => ?_
  have hvalue : Agree A (Option.Rel (Expr.Alike A.Spans)) (some <$> inner.expression)
      (some <$> inner.expression) :=
    Agree.bind h.expression fun a b hab => Agree.pure (.some hab)
  have hnone : Agree A (Option.Rel (Expr.Alike A.Spans)) (pure none) (pure none) :=
    Agree.pure .none
  split
  · refine Agree.bind hnone fun a b hab => Agree.bind (agree_eat _) fun _ _ _ => ?_
    exact Agree.spanned hst.start fun _ _ hspan => .returns hab hspan
  · refine Agree.bind hvalue fun a b hab => Agree.bind (agree_eat _) fun _ _ _ => ?_
    exact Agree.spanned hst.start fun _ _ hspan => .returns hab hspan

theorem agree_variableStatement (h : inner.Uniform A) (kind : DeclKind) :
    Agree A (Stmt.Alike A.Spans) (variableStatement inner kind) (variableStatement inner kind) := by
  refine Agree.bind agree_currentSpan fun s t hst => ?_
  refine Agree.bind (agree_declaration h kind) fun d d' hd => Agree.bind (agree_eat _) fun _ _ _ => ?_
  exact Agree.spanned hst.start fun _ _ hspan => .variables hd hspan

theorem agree_expressionStatement (h : inner.Uniform A) :
    Agree A (Stmt.Alike A.Spans) (expressionStatement inner) (expressionStatement inner) := by
  refine Agree.bind agree_currentSpan fun s t hst => ?_
  refine Agree.bind h.expression fun a b hab => Agree.bind (agree_eat _) fun _ _ _ => ?_
  exact Agree.spanned hst.start fun _ _ hspan => .expression hab hspan

theorem agree_statementWith (h : inner.Uniform A) :
    Agree A (Stmt.Alike A.Spans) (statementWith inner) (statementWith inner) := by
  refine Agree.peek_bind fun token => ?_
  split
  · exact agree_variableStatement h _
  · split
    · exact agree_function h
    · refine Agree.bind (agree_block h.statement) fun x y hxy => ?_
      exact Agree.pure (.block hxy.1 hxy.2)
    · exact agree_ifStatement h
    · exact agree_whileStatement h
    · exact agree_forStatement h
    · exact agree_returnStatement h
    · exact agree_expressionStatement h

/-- A statement, however deep. -/
theorem agree_statement :
    ∀ depth, Agree A (Stmt.Alike A.Spans) (statement depth) (statement depth)
  | 0 => Agree.fail _
  | depth + 1 => agree_nested (agree_statementWith
      ⟨agree_typeExpr depth, agree_expression depth _, agree_statement depth⟩)

end Statements

end ScriptLint.Parse
