import ScriptLint.Proofs.Syntax.Derivation
import ScriptLint.Syntax.Outline
/-!
# The variables of a script

The variables that a script declares, found by walking its statements: into
blocks, branches, loops, the headers of loops and the bodies of functions,
and nowhere else, since no expression and no type declares a variable. The
walk over the outline meets the same variables in the same order, and the
lexemes that name them stand in that order in the text.

Key definitions: `Stmt.declarators`, `Stmt.declaratorsAll`.
Key theorems: `Script.declared_eq`, `Stmt.SpellsAll.names_within`.
-/

namespace ScriptLint

/-- The variables that the header of a `for` statement declares. -/
def ForStart.declarators : ForStart → List Declarator
  | .declaration d => d.declarators
  | .expression _ => []

mutual

/-- The variables that a statement declares, at any depth, in the order of the source. -/
def Stmt.declarators : Stmt → List Declarator
  | .variables d _ => d.declarators
  | .function _ body _ _ => Stmt.declaratorsAll body
  | .block body _ => Stmt.declaratorsAll body
  | .ifThen _ s _ => s.declarators
  | .ifElse _ s s' _ => s.declarators ++ s'.declarators
  | .whileLoop _ s _ => s.declarators
  | .forLoop start _ _ s _ => start.toList.flatMap ForStart.declarators ++ s.declarators
  | .returns _ _ => []
  | .expression _ _ => []

/-- The variables that the statements of a list declare. -/
def Stmt.declaratorsAll : List Stmt → List Declarator
  | [] => []
  | s :: ss => s.declarators ++ Stmt.declaratorsAll ss

end

/-! ### In the outline -/

namespace Outline

/-- The variables that the nodes of an outline declare, in pre-order. -/
def declared (o : Outline) : List Declarator :=
  o.nodes.filterMap Node.declared?

/-- The same for outlines that stand side by side. -/
def declaredAll (os : List Outline) : List Declarator :=
  ((preorderAll 0 os).map Prod.snd).filterMap Node.declared?

mutual

theorem preorder_snd (d d' : Nat) : ∀ o : Outline,
    (preorder d o).map Prod.snd = (preorder d' o).map Prod.snd
  | .node root children => by
    simp only [preorder, List.map_cons]
    rw [preorderAll_snd (d + 1) (d' + 1) children]

/-- Which nodes are met does not depend on the depth at which the walk starts. -/
theorem preorderAll_snd (d d' : Nat) : ∀ os : List Outline,
    (preorderAll d os).map Prod.snd = (preorderAll d' os).map Prod.snd
  | [] => rfl
  | o :: os => by
    simp only [preorderAll, List.map_append]
    rw [preorder_snd d d' o, preorderAll_snd d d' os]

end

@[simp] theorem declaredAll_nil : declaredAll [] = [] := rfl

@[simp] theorem declaredAll_cons (o : Outline) (os : List Outline) :
    declaredAll (o :: os) = o.declared ++ declaredAll os := by
  simp [declaredAll, declared, nodes, preorderAll]

@[simp] theorem declaredAll_append (os os' : List Outline) :
    declaredAll (os ++ os') = declaredAll os ++ declaredAll os' := by
  induction os with
  | nil => simp
  | cons o os ih => simp [ih]

theorem declared_node (root : Node) (children : List Outline) :
    (node root children).declared = root.declared?.toList ++ declaredAll children := by
  rw [declared, nodes, preorder, List.map_cons, preorderAll_snd 1 0 children]
  rw [List.filterMap_cons, declaredAll]
  cases root.declared? <;> rfl

@[simp] theorem declared_leaf (form : Form) (span : Span)
    (h : Node.declared? ⟨form, span⟩ = none) : (leaf form span).declared = [] := by
  rw [leaf, declared_node, h]
  rfl

end Outline

open Outline

@[simp] theorem Ident.declared_outline (name : Ident) : name.outline.declared = [] :=
  declared_leaf _ _ rfl

mutual

/-- No type declares a variable. -/
@[simp] theorem TypeExpr.declared_outline : ∀ t : TypeExpr, t.outline.declared = []
  | .keyword _ _ | .literal _ _ => by
    rw [TypeExpr.outline]
    exact declared_leaf _ _ rfl
  | .reference name => by simp [TypeExpr.outline, declared_node, Node.declared?]
  | .array t _ => by
    simp [TypeExpr.outline, declared_node, Node.declared?, t.declared_outline]
  | .union ts _ => by
    simp [TypeExpr.outline, declared_node, Node.declared?, TypeExpr.declared_outlines ts]

theorem TypeExpr.declared_outlines : ∀ ts : List TypeExpr, declaredAll (TypeExpr.outlines ts) = []
  | [] => rfl
  | t :: ts => by
    simp [TypeExpr.outlines, t.declared_outline, TypeExpr.declared_outlines ts]

end

mutual

/-- No expression declares a variable. -/
@[simp] theorem Expr.declared_outline : ∀ e : Expr, e.outline.declared = []
  | .number _ _ | .string _ _ | .boolean _ _ | .null _ => by
    rw [Expr.outline]
    exact declared_leaf _ _ rfl
  | .identifier name => by simp [Expr.outline]
  | .binary _ e f _ | .assignment _ e f _ | .element e f _ => by
    simp [Expr.outline, declared_node, Node.declared?, e.declared_outline, f.declared_outline]
  | .unary _ e _ | .typeOf e _ | .property e _ _ | .parenthesized e _ => by
    simp [Expr.outline, declared_node, Node.declared?, e.declared_outline]
  | .conditional c e f _ => by
    simp [Expr.outline, declared_node, Node.declared?, c.declared_outline, e.declared_outline,
      f.declared_outline]
  | .call e es _ => by
    simp [Expr.outline, declared_node, Node.declared?, e.declared_outline,
      Expr.declared_outlines es]
  | .array es _ => by
    simp [Expr.outline, declared_node, Node.declared?, Expr.declared_outlines es]

theorem Expr.declared_outlines : ∀ es : List Expr, declaredAll (Expr.outlines es) = []
  | [] => rfl
  | e :: es => by simp [Expr.outlines, e.declared_outline, Expr.declared_outlines es]

end

/-- A part that may be left out declares nothing if no such part does. -/
theorem declaredAll_option {α : Type} {f : α → Outline} (h : ∀ a, (f a).declared = [])
    (a : Option α) : declaredAll (a.map f).toList = [] := by
  cases a <;> simp [h]

theorem Declarator.declared_outline (kind : DeclKind) (d : Declarator) :
    (d.outline kind).declared = [d] := by
  simp [Declarator.outline, declared_node, Node.declared?,
    declaredAll_option TypeExpr.declared_outline, declaredAll_option Expr.declared_outline]

theorem Declaration.declared_outline (d : Declaration) :
    d.outline.declared = d.declarators := by
  have h : ∀ ds : List Declarator, declaredAll (ds.map (Declarator.outline d.kind)) = ds := by
    intro ds
    induction ds with
    | nil => rfl
    | cons v ds ih => simp [Declarator.declared_outline, ih]
  simp [Declaration.outline, declared_node, Node.declared?, h]

theorem Signature.declared_outlines (sig : Signature) : declaredAll sig.outlines = [] := by
  have h : ∀ ps : List Parameter, declaredAll (ps.map Parameter.outline) = [] := by
    intro ps
    induction ps with
    | nil => rfl
    | cons p ps ih =>
      simp [ih, Parameter.outline, declared_node, Node.declared?,
        declaredAll_option TypeExpr.declared_outline]
  simp [Signature.outlines, h, declaredAll_option TypeExpr.declared_outline]

theorem ForStart.declared_outline (f : ForStart) :
    f.outline.declared = f.declarators := by
  cases f with
  | declaration d => exact d.declared_outline
  | expression e => exact e.declared_outline

mutual

/-- The outline of a statement declares what the statement declares. -/
theorem Stmt.declared_outline : ∀ s : Stmt, s.outline.declared = s.declarators
  | .variables d _ => by
    simp [Stmt.outline, declared_node, Node.declared?, d.declared_outline, Stmt.declarators]
  | .function sig body _ _ => by
    simp [Stmt.outline, declared_node, Node.declared?, sig.declared_outlines,
      Stmt.declared_outlines body, Stmt.declarators]
  | .block body _ => by
    simp [Stmt.outline, declared_node, Node.declared?, Stmt.declared_outlines body,
      Stmt.declarators]
  | .ifThen _ s _ | .whileLoop _ s _ => by
    simp [Stmt.outline, declared_node, Node.declared?, s.declared_outline, Stmt.declarators]
  | .ifElse _ s s' _ => by
    simp [Stmt.outline, declared_node, Node.declared?, s.declared_outline, s'.declared_outline,
      Stmt.declarators]
  | .forLoop start _ _ s _ => by
    cases start with
    | none =>
      simp [Stmt.outline, declared_node, Node.declared?, s.declared_outline, Stmt.declarators,
        declaredAll_option Expr.declared_outline]
    | some f =>
      simp [Stmt.outline, declared_node, Node.declared?, s.declared_outline, Stmt.declarators,
        declaredAll_option Expr.declared_outline, f.declared_outline]
  | .returns value _ => by
    simp [Stmt.outline, declared_node, Node.declared?, Stmt.declarators,
      declaredAll_option Expr.declared_outline]
  | .expression e _ => by
    simp [Stmt.outline, declared_node, Node.declared?, Stmt.declarators]

theorem Stmt.declared_outlines : ∀ ss : List Stmt,
    declaredAll (Stmt.outlines ss) = Stmt.declaratorsAll ss
  | [] => rfl
  | s :: ss => by
    simp [Stmt.outlines, Stmt.declaratorsAll, s.declared_outline, Stmt.declared_outlines ss]

end

/-- **The walk over the outline meets every variable of the script, in order and once.** -/
theorem Script.declared_eq (script : Script) :
    script.declared = Stmt.declaratorsAll script.body := by
  have h := declared_node ⟨.script script.name, script.span⟩ (Stmt.outlines script.body)
  rw [Stmt.declared_outlines] at h
  exact h

/-! ### In the text -/

/-- The names stand among the lexemes, in the same order. -/
structure NamesWithin (names : List Ident) (ws : List Lexeme) : Prop where
  spans : (names.map Ident.span).Sublist (ws.map Lexeme.span)
  spelled : ∀ name ∈ names, ∃ w ∈ ws, name.SpelledBy w

namespace NamesWithin

variable {names names' : List Ident} {ws us : List Lexeme}

theorem nil : NamesWithin [] ws :=
  ⟨List.nil_sublist _, by simp⟩

theorem cons {name : Ident} {w : Lexeme} (hname : name.SpelledBy w) (h : NamesWithin names ws) :
    NamesWithin (name :: names) (w :: ws) := by
  refine ⟨?_, ?_⟩
  · rw [List.map_cons, List.map_cons, hname.2]
    exact h.spans.cons_cons _
  · intro i hi
    rcases List.mem_cons.mp hi with rfl | hi
    · exact ⟨w, by simp, hname⟩
    · obtain ⟨v, hv, hspelled⟩ := h.spelled i hi
      exact ⟨v, by simp [hv], hspelled⟩

theorem append (h : NamesWithin names ws) (h' : NamesWithin names' us) :
    NamesWithin (names ++ names') (ws ++ us) := by
  refine ⟨?_, ?_⟩
  · rw [List.map_append, List.map_append]
    exact h.spans.append h'.spans
  · intro i hi
    rcases List.mem_append.mp hi with hi | hi
    · obtain ⟨v, hv, hspelled⟩ := h.spelled i hi
      exact ⟨v, by simp [hv], hspelled⟩
    · obtain ⟨v, hv, hspelled⟩ := h'.spelled i hi
      exact ⟨v, by simp [hv], hspelled⟩

/-- More lexemes may stand around them. -/
theorem mono (h : NamesWithin names ws) (hsub : ws.Sublist us) : NamesWithin names us := by
  refine ⟨h.spans.trans (hsub.map _), fun i hi => ?_⟩
  obtain ⟨v, hv, hspelled⟩ := h.spelled i hi
  exact ⟨v, hsub.subset hv, hspelled⟩

theorem skip (h : NamesWithin names ws) (w : Lexeme) : NamesWithin names (w :: ws) :=
  h.mono (List.sublist_cons_self w ws)

theorem behind (h : NamesWithin names ws) (us : List Lexeme) : NamesWithin names (us ++ ws) :=
  h.mono (List.sublist_append_right us ws)

theorem before (h : NamesWithin names ws) (us : List Lexeme) : NamesWithin names (ws ++ us) :=
  h.mono (List.sublist_append_left ws us)

end NamesWithin

theorem Declarator.Spells.names_within {d : Declarator} {ws : List Lexeme} (h : d.Spells ws) :
    NamesWithin [d.name] ws := by
  cases h with
  | mk hname _ _ => exact .cons hname .nil

theorem Declaration.Spells.names_within {d : Declaration} {ws : List Lexeme} (h : d.Spells ws) :
    NamesWithin (d.declarators.map Declarator.name) ws := by
  cases h with
  | mk _ hds =>
    refine NamesWithin.skip ?_ _
    induction hds with
    | one hd => exact hd.names_within
    | more hd _ _ ih =>
      rw [List.map_cons, ← List.singleton_append]
      exact hd.names_within.append (ih.skip _)

theorem ForStart.names_within {f : Option ForStart} {ws : List Lexeme}
    (h : Perhaps ForStart.Spells f ws) :
    NamesWithin ((f.toList.flatMap ForStart.declarators).map Declarator.name) ws := by
  cases h with
  | none => exact .nil
  | some h =>
    cases h with
    | declaration hd => simpa [ForStart.declarators] using hd.names_within
    | expression _ => simpa [ForStart.declarators] using NamesWithin.nil

theorem Ended.sublist {ws us : List Lexeme} (h : Ended ws us) : ws.Sublist us := by
  cases h with
  | bare => exact List.Sublist.refl _
  | semicolon _ => exact List.sublist_append_left _ _

mutual

theorem Stmt.Spells.names_within {junk : Prop} : ∀ {s : Stmt} {ws : List Lexeme},
    Stmt.Spells junk s ws → NamesWithin (s.declarators.map Declarator.name) ws
  | _, _, .variables hd he => by
    rw [Stmt.declarators]
    exact hd.names_within.mono he.sublist
  | _, _, .function _ _ hb _ => by
    rw [Stmt.declarators]
    exact ((hb.names_within.before _).skip _).behind _
  | _, _, .block _ hb _ => by
    rw [Stmt.declarators]
    exact (hb.names_within.before _).skip _
  | _, _, .ifThen _ _ _ _ hs | _, _, .whileLoop _ _ _ _ hs => by
    rw [Stmt.declarators]
    exact (((hs.names_within.skip _).behind _).skip _).skip _
  | _, _, .ifElse _ _ _ _ hs _ hs' => by
    rw [Stmt.declarators, List.map_append]
    refine ((((NamesWithin.append hs.names_within ?_).skip _).behind _).skip _).skip _
    exact hs'.names_within.skip _
  | _, _, .forLoop _ _ ha _ _ _ _ _ hs => by
    rw [Stmt.declarators, List.map_append]
    refine ((NamesWithin.append (ForStart.names_within ha) ?_).skip _).skip _
    exact ((((hs.names_within.skip _).behind _).skip _).behind _).skip _
  | _, _, .returns _ _ _ => by
    rw [Stmt.declarators]
    exact .nil
  | _, _, .expression _ _ => by
    rw [Stmt.declarators]
    exact .nil

/-- **The names of the variables stand in the text in the order in which they are declared.** -/
theorem Stmt.SpellsAll.names_within {junk : Prop} : ∀ {body : List Stmt} {ws : List Lexeme},
    Stmt.SpellsAll junk body ws →
      NamesWithin ((Stmt.declaratorsAll body).map Declarator.name) ws
  | _, _, .nil => .nil
  | _, _, .pass _ hb => hb.names_within.skip _
  | _, _, .cons hs hb => by
    rw [Stmt.declaratorsAll, List.map_append]
    exact hs.names_within.append hb.names_within

end

end ScriptLint
