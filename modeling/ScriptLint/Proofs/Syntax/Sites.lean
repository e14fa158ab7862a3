import Mathlib.Data.List.Basic
import ScriptLint.Proofs.Syntax.Declared
/-!
# The sites of a script

Apart from their nesting, statements are made of a few kinds of sites: the
expressions that are evaluated, the variables with their annotations and
first values, the parameters, and the functions with their return types.
What is declared and what is mentioned in a script, however deep, can be read
off its sites. They stand in the text one after the other, so each of the
names that are mentioned has a lexeme of its own.

Key definitions: `Expr.identifiers`, `TypeExpr.references`, `Site`, `Stmt.sites`, `Script.sites`.
Key theorems: `Stmt.SpellsAll.sites_within`, `SitesWithin.names_within`, `SitesWithin.spells`.
-/

namespace ScriptLint

/-! ### Names that are mentioned -/

mutual

/-- The names that are used as expressions, at any depth, in the order of the source. The name of
a property is none of them. -/
def Expr.identifiers : Expr → List Ident
  | .number _ _ => []
  | .string _ _ => []
  | .boolean _ _ => []
  | .null _ => []
  | .identifier name => [name]
  | .binary _ left right _ => left.identifiers ++ right.identifiers
  | .unary _ operand _ => operand.identifiers
  | .typeOf operand _ => operand.identifiers
  | .assignment _ target value _ => target.identifiers ++ value.identifiers
  | .conditional condition whenTrue whenFalse _ =>
    condition.identifiers ++ (whenTrue.identifiers ++ whenFalse.identifiers)
  | .call callee arguments _ => callee.identifiers ++ Expr.identifiersAll arguments
  | .property object _ _ => object.identifiers
  | .element object index _ => object.identifiers ++ index.identifiers
  | .parenthesized inner _ => inner.identifiers
  | .array elements _ => Expr.identifiersAll elements

/-- The names that are used in the expressions of a list. -/
def Expr.identifiersAll : List Expr → List Ident
  | [] => []
  | e :: es => e.identifiers ++ Expr.identifiersAll es

end

mutual

/-- The names that stand for types in a written type, in order. -/
def TypeExpr.references : TypeExpr → List Ident
  | .keyword _ _ => []
  | .literal _ _ => []
  | .reference name => [name]
  | .array element _ => element.references
  | .union members _ => TypeExpr.referencesAll members

/-- The names that stand for types in the types of a list. -/
def TypeExpr.referencesAll : List TypeExpr → List Ident
  | [] => []
  | t :: ts => t.references ++ TypeExpr.referencesAll ts

end

/-! ### Sites -/

/-- A part of a statement in which names are declared or mentioned. -/
inductive Site where
  | expression (e : Expr)
  | declarator (kind : DeclKind) (d : Declarator)
  | parameter (p : Parameter)
  | signature (f : Signature)

namespace Site

/-- The type that is written at a site. -/
def type? : Site → Option TypeExpr
  | .expression _ => none
  | .declarator _ d => d.declaredType
  | .parameter p => p.declaredType
  | .signature f => f.returnType

/-- The expression that is evaluated at a site. -/
def expression? : Site → Option Expr
  | .expression e => some e
  | .declarator _ d => d.initializer
  | .parameter _ => none
  | .signature _ => none

/-- The name that is introduced at a site. -/
def name? : Site → Option Ident
  | .expression _ => none
  | .declarator _ d => some d.name
  | .parameter p => some p.name
  | .signature f => some f.name

/-- The variable that is declared at a site, with its kind. -/
def declared? : Site → Option (DeclKind × Declarator)
  | .declarator kind d => some (kind, d)
  | _ => none

/-- The names that stand for types at a site. -/
def references (site : Site) : List Ident :=
  site.type?.toList.flatMap TypeExpr.references

/-- The names that are used as expressions at a site. -/
def identifiers (site : Site) : List Ident :=
  site.expression?.toList.flatMap Expr.identifiers

/-- All names that are mentioned at a site, in the order of the source. -/
def mentions (site : Site) : List Ident :=
  site.references ++ site.identifiers

end Site

/-- The sites of a declaration. -/
def Declaration.sites (d : Declaration) : List Site :=
  d.declarators.map (.declarator d.kind)

/-- The sites of what stands first in the header of a `for` statement. -/
def ForStart.sites : ForStart → List Site
  | .declaration d => d.sites
  | .expression e => [.expression e]

/-- The sites of a function before its body. -/
def Signature.sites (f : Signature) : List Site :=
  f.parameters.map .parameter ++ [.signature f]

mutual

/-- The sites of a statement, at any depth, in the order of the source. -/
def Stmt.sites : Stmt → List Site
  | .variables d _ => d.sites
  | .function f body _ _ => f.sites ++ Stmt.sitesAll body
  | .block body _ => Stmt.sitesAll body
  | .ifThen c s _ => .expression c :: s.sites
  | .ifElse c s s' _ => .expression c :: (s.sites ++ s'.sites)
  | .whileLoop c s _ => .expression c :: s.sites
  | .forLoop start c u s _ =>
    start.toList.flatMap ForStart.sites
      ++ (c.toList.map .expression ++ (u.toList.map .expression ++ s.sites))
  | .returns value _ => value.toList.map .expression
  | .expression e _ => [.expression e]

/-- The sites of the statements of a list. -/
def Stmt.sitesAll : List Stmt → List Site
  | [] => []
  | s :: ss => s.sites ++ Stmt.sitesAll ss

end

namespace Script

/-- The sites of a script. -/
def sites (script : Script) : List Site :=
  Stmt.sitesAll script.body

/-- The names that are used as expressions in a script. -/
def identifiers (script : Script) : List Ident :=
  script.sites.flatMap Site.identifiers

/-- The names that stand for types in a script. -/
def references (script : Script) : List Ident :=
  script.sites.flatMap Site.references

/-- The names that a script introduces: its variables, parameters and functions. -/
def introduced (script : Script) : List Ident :=
  script.sites.filterMap Site.name?

/-- The variables that a script declares, with their kinds. -/
def declarations (script : Script) : List (DeclKind × Declarator) :=
  script.sites.filterMap Site.declared?

end Script

/-! ### The variables among the sites -/

/-- The variables that are declared at the sites of a list. -/
def declaratorsAt (sites : List Site) : List Declarator :=
  (sites.filterMap Site.declared?).map Prod.snd

theorem declaratorsAt_append (xs ys : List Site) :
    declaratorsAt (xs ++ ys) = declaratorsAt xs ++ declaratorsAt ys := by
  simp [declaratorsAt]

theorem declaratorsAt_expressions (es : List Expr) :
    declaratorsAt (es.map Site.expression) = [] := by
  simp [declaratorsAt, List.filterMap_map, Function.comp_def, Site.declared?]

theorem Declaration.declaratorsAt_sites (d : Declaration) : declaratorsAt d.sites = d.declarators := by
  simp [declaratorsAt, Declaration.sites, List.filterMap_map, Function.comp_def, Site.declared?]

theorem Signature.declaratorsAt_sites (f : Signature) : declaratorsAt f.sites = [] := by
  simp [declaratorsAt, Signature.sites, List.filterMap_map, Function.comp_def, Site.declared?]

theorem ForStart.declaratorsAt_sites (start : Option ForStart) :
    declaratorsAt (start.toList.flatMap ForStart.sites)
      = start.toList.flatMap ForStart.declarators := by
  match start with
  | none => rfl
  | some (.declaration d) => simpa [ForStart.sites, ForStart.declarators] using d.declaratorsAt_sites
  | some (.expression e) => rfl

mutual

theorem Stmt.declaratorsAt_sites : ∀ s : Stmt, declaratorsAt s.sites = s.declarators
  | .variables d _ => d.declaratorsAt_sites
  | .function f body _ _ => by
    rw [Stmt.sites, Stmt.declarators, declaratorsAt_append, f.declaratorsAt_sites,
      Stmt.declaratorsAt_sitesAll body, List.nil_append]
  | .block body _ => by
    rw [Stmt.sites, Stmt.declarators, Stmt.declaratorsAt_sitesAll body]
  | .ifThen c s _ | .whileLoop c s _ => by
    rw [Stmt.sites, Stmt.declarators, ← s.declaratorsAt_sites]
    rfl
  | .ifElse c s s' _ => by
    rw [Stmt.sites, Stmt.declarators, ← s.declaratorsAt_sites, ← s'.declaratorsAt_sites,
      ← declaratorsAt_append]
    rfl
  | .forLoop start c u s _ => by
    rw [Stmt.sites, Stmt.declarators, declaratorsAt_append, declaratorsAt_append,
      declaratorsAt_append, declaratorsAt_expressions, declaratorsAt_expressions,
      ForStart.declaratorsAt_sites, s.declaratorsAt_sites, List.nil_append, List.nil_append]
  | .returns value _ => declaratorsAt_expressions value.toList
  | .expression e _ => rfl

/-- The sites of the variables are those that the walk over the statements finds. -/
theorem Stmt.declaratorsAt_sitesAll : ∀ ss : List Stmt,
    declaratorsAt (Stmt.sitesAll ss) = Stmt.declaratorsAll ss
  | [] => rfl
  | s :: ss => by
    rw [Stmt.sitesAll, Stmt.declaratorsAll, declaratorsAt_append, s.declaratorsAt_sites,
      Stmt.declaratorsAt_sitesAll ss]

end

/-! ### Where the sites stand -/

/-- What is written at a site. The return type of a function stands for the function. -/
inductive Site.Spells : Site → List Lexeme → Prop
  | expression {e : Expr} {ws : List Lexeme} : e.Spells ws → Site.Spells (.expression e) ws
  | declarator {kind : DeclKind} {d : Declarator} {ws : List Lexeme} :
      d.Spells ws → Site.Spells (.declarator kind d) ws
  | parameter {p : Parameter} {ws : List Lexeme} : p.Spells ws → Site.Spells (.parameter p) ws
  | signature {f : Signature} {ws : List Lexeme} :
      Behind .colon TypeExpr.Spells f.returnType ws → Site.Spells (.signature f) ws

/-- The sites are written in this order among the lexemes of a row. -/
inductive SitesWithin : List Site → List Lexeme → Prop
  | nil {ws : List Lexeme} : SitesWithin [] ws
  | skip {sites : List Site} {ws : List Lexeme} (w : Lexeme) :
      SitesWithin sites ws → SitesWithin sites (w :: ws)
  | cons {site : Site} {sites : List Site} {ws us : List Lexeme} :
      site.Spells ws → SitesWithin sites us → SitesWithin (site :: sites) (ws ++ us)

namespace SitesWithin

variable {sites sites' : List Site} {ws us : List Lexeme}

theorem behind (h : SitesWithin sites ws) (us : List Lexeme) : SitesWithin sites (us ++ ws) := by
  induction us with
  | nil => exact h
  | cons u us ih => exact .skip u ih

theorem append (h : SitesWithin sites ws) (h' : SitesWithin sites' us) :
    SitesWithin (sites ++ sites') (ws ++ us) := by
  induction h with
  | nil => exact h'.behind _
  | skip w _ ih => exact .skip w ih
  | cons hs _ ih =>
    rw [List.cons_append, List.append_assoc]
    exact .cons hs ih

theorem before (h : SitesWithin sites ws) (us : List Lexeme) : SitesWithin sites (ws ++ us) := by
  have hboth := h.append (.nil : SitesWithin [] us)
  rwa [List.append_nil] at hboth

theorem single {site : Site} (h : site.Spells ws) : SitesWithin [site] ws := by
  have hcons := SitesWithin.cons h (.nil : SitesWithin [] [])
  rwa [List.append_nil] at hcons

/-- Each site has a row of its own. -/
theorem spells (h : SitesWithin sites ws) : ∀ site ∈ sites, ∃ us, site.Spells us ∧ us.Sublist ws := by
  induction h with
  | nil => simp
  | skip w _ ih =>
    intro site hsite
    obtain ⟨us, hus, hsub⟩ := ih site hsite
    exact ⟨us, hus, hsub.trans (List.sublist_cons_self w _)⟩
  | @cons first rest ws us hs _ ih =>
    intro site hsite
    rcases List.mem_cons.mp hsite with rfl | hsite
    · exact ⟨ws, hs, List.sublist_append_left ws us⟩
    · obtain ⟨vs, hvs, hsub⟩ := ih site hsite
      exact ⟨vs, hvs, hsub.trans (List.sublist_append_right ws us)⟩

/-- What is found at each site in order is found in order in the whole row. -/
theorem names_within {f : Site → List Ident}
    (hf : ∀ site us, site.Spells us → NamesWithin (f site) us) (h : SitesWithin sites ws) :
    NamesWithin (sites.flatMap f) ws := by
  induction h with
  | nil => exact ⟨List.nil_sublist _, by simp⟩
  | skip w _ ih => exact ih.skip w
  | cons hs _ ih =>
    rw [List.flatMap_cons]
    exact (hf _ _ hs).append ih

variable {α : Type} {P : α → List Lexeme → Prop} {f : α → Site}

theorem of_separated {sign : Punctuator} (hP : ∀ a us, P a us → (f a).Spells us) {as : List α}
    (h : Separated sign P as ws) : SitesWithin (as.map f) ws := by
  induction h with
  | one ha => exact single (hP _ _ ha)
  | more ha _ _ ih =>
    rw [List.map_cons, ← List.singleton_append]
    exact (single (hP _ _ ha)).append (.skip _ ih)

theorem of_perhaps (hP : ∀ a us, P a us → (f a).Spells us) {a : Option α} (h : Perhaps P a ws) :
    SitesWithin (a.toList.map f) ws := by
  cases h with
  | none => exact .nil
  | some ha => exact single (hP _ _ ha)

end SitesWithin

theorem Declaration.Spells.sites_within {d : Declaration} {ws : List Lexeme} (h : d.Spells ws) :
    SitesWithin d.sites ws := by
  cases h with
  | mk _ hds => exact .skip _ (.of_separated (fun _ _ hd => .declarator hd) hds)

theorem ForStart.sites_within {start : Option ForStart} {ws : List Lexeme}
    (h : Perhaps ForStart.Spells start ws) :
    SitesWithin (start.toList.flatMap ForStart.sites) ws := by
  cases h with
  | none => exact .nil
  | some h =>
    cases h with
    | declaration hd => simpa [ForStart.sites] using hd.sites_within
    | expression he => simpa [ForStart.sites] using SitesWithin.single (.expression he)

theorem Signature.Spells.sites_within {f : Signature} {ws : List Lexeme} (h : f.Spells ws) :
    SitesWithin f.sites ws := by
  cases h with
  | mk _ _ _ hps _ htype =>
    refine .skip _ (.skip _ (.skip _ (SitesWithin.append ?_ (.skip _ (.single (.signature htype))))))
    cases hps with
    | nil => exact .nil
    | some hps => exact .of_separated (fun _ _ hp => .parameter hp) hps

theorem Ended.sites_within {sites : List Site} {ws us : List Lexeme} (h : Ended ws us)
    (hsites : SitesWithin sites ws) : SitesWithin sites us := by
  cases h with
  | bare => exact hsites
  | semicolon _ => exact hsites.before _

/-- A condition in parentheses behind its keyword, and what follows it. -/
theorem sites_within_condition {c : Expr} {sites : List Site} {cs ws : List Lexeme}
    {i l r : Lexeme} (hc : c.Spells cs) (h : SitesWithin sites ws) :
    SitesWithin (.expression c :: sites) (i :: l :: (cs ++ r :: ws)) :=
  .skip i (.skip l (.cons (.expression hc) (.skip r h)))

mutual

theorem Stmt.Spells.sites_within {junk : Prop} : ∀ {s : Stmt} {ws : List Lexeme},
    Stmt.Spells junk s ws → SitesWithin s.sites ws
  | _, _, .variables hd he => by
    rw [Stmt.sites]
    exact he.sites_within hd.sites_within
  | _, _, .function hf _ hb _ => by
    rw [Stmt.sites]
    exact hf.sites_within.append (.skip _ (hb.sites_within.before _))
  | _, _, .block _ hb _ => by
    rw [Stmt.sites]
    exact .skip _ (hb.sites_within.before _)
  | _, _, .ifThen _ _ hc _ hs | _, _, .whileLoop _ _ hc _ hs => by
    rw [Stmt.sites]
    exact sites_within_condition hc hs.sites_within
  | _, _, .ifElse _ _ hc _ hs _ hs' => by
    rw [Stmt.sites]
    exact sites_within_condition hc (hs.sites_within.append (.skip _ hs'.sites_within))
  | _, _, .forLoop _ _ ha _ hc _ hu _ hs => by
    rw [Stmt.sites]
    have hupdate := SitesWithin.of_perhaps (fun _ _ he => Site.Spells.expression he) hu
    have hcondition := SitesWithin.of_perhaps (fun _ _ he => Site.Spells.expression he) hc
    refine .skip _ (.skip _ ((ForStart.sites_within ha).append (.skip _ ?_)))
    exact hcondition.append (.skip _ (hupdate.append (.skip _ hs.sites_within)))
  | _, _, .returns _ hv he => by
    rw [Stmt.sites]
    exact he.sites_within (.skip _ (.of_perhaps (fun _ _ he => .expression he) hv))
  | _, _, .expression h he => by
    rw [Stmt.sites]
    exact he.sites_within (.single (.expression h))

/-- **The sites of statements stand in the text in their order.** -/
theorem Stmt.SpellsAll.sites_within {junk : Prop} : ∀ {body : List Stmt} {ws : List Lexeme},
    Stmt.SpellsAll junk body ws → SitesWithin (Stmt.sitesAll body) ws
  | _, _, .nil => .nil
  | _, _, .pass _ hb => .skip _ hb.sites_within
  | _, _, .cons hs hb => by
    rw [Stmt.sitesAll]
    exact hs.sites_within.append hb.sites_within

end

/-! ### Where the names are mentioned -/

mutual

theorem Expr.Spells.identifiers_within : ∀ {e : Expr} {ws : List Lexeme}, e.Spells ws →
    NamesWithin e.identifiers ws
  | .number _ _, _, _ | .string _ _, _, _ | .boolean _ _, _, _ | .null _, _, _ => by
    rw [Expr.identifiers]
    exact ⟨List.nil_sublist _, by simp⟩
  | .identifier _, _, .identifier h => .cons h .nil
  | .binary _ _ _ _, _, .binary h _ h' | .assignment _ _ _ _, _, .assignment h _ h' => by
    rw [Expr.identifiers]
    exact h.identifiers_within.append (h'.identifiers_within.skip _)
  | .unary _ _ _, _, .unary _ h | .typeOf _ _, _, .typeOf _ h => by
    rw [Expr.identifiers]
    exact h.identifiers_within.skip _
  | .conditional _ _ _ _, _, .conditional hc _ h _ h' => by
    rw [Expr.identifiers]
    refine hc.identifiers_within.append (NamesWithin.skip ?_ _)
    exact h.identifiers_within.append (h'.identifiers_within.skip _)
  | .call _ _ _, _, .call h _ hs _ => by
    rw [Expr.identifiers]
    exact h.identifiers_within.append (((Expr.identifiersAll_within hs).before _).skip _)
  | .property _ _ _, _, .property h _ _ => by
    rw [Expr.identifiers]
    exact h.identifiers_within.before _
  | .element _ _ _, _, .element h _ h' _ => by
    rw [Expr.identifiers]
    exact h.identifiers_within.append ((h'.identifiers_within.before _).skip _)
  | .parenthesized _ _, _, .parenthesized _ h _ => by
    rw [Expr.identifiers]
    exact (h.identifiers_within.before _).skip _
  | .array _ _, _, .array _ hs _ => by
    rw [Expr.identifiers]
    exact ((Expr.identifiersAll_within hs).before _).skip _

theorem Expr.identifiersAll_within : ∀ {es : List Expr} {ws : List Lexeme},
    Listed Expr.Spells es ws → NamesWithin (Expr.identifiersAll es) ws
  | [], _, .nil => .nil
  | [_], _, .last h => by
    rw [Expr.identifiersAll, Expr.identifiersAll, List.append_nil]
    exact h.identifiers_within
  | _ :: _, _, .more h _ hs => by
    rw [Expr.identifiersAll]
    exact h.identifiers_within.append ((Expr.identifiersAll_within hs).skip _)

end

/-- A union mentions what its members mention. -/
theorem TypeExpr.referencesAll_within {ts : List TypeExpr} {ws : List Lexeme}
    (h : Separated .bar TypeExpr.SpellsMember ts ws)
    (hmember : ∀ t us, us.length ≤ ws.length → TypeExpr.SpellsMember t us →
      NamesWithin t.references us) : NamesWithin (TypeExpr.referencesAll ts) ws := by
  induction h with
  | @one t ws ht =>
    rw [TypeExpr.referencesAll, TypeExpr.referencesAll, List.append_nil]
    exact hmember t ws (Nat.le_refl _) ht
  | @more t ts ws us w ht _ _ ih =>
    rw [TypeExpr.referencesAll]
    have hlength : (ws ++ w :: us).length = ws.length + us.length + 1 := by simp; omega
    refine (hmember t ws (by omega) ht).append (NamesWithin.skip (ih ?_) w)
    exact fun t' us' hle => hmember t' us' (by omega)

theorem TypeExpr.references_within_of_members {n : Nat}
    (hmember : ∀ t us, us.length ≤ n → TypeExpr.SpellsMember t us → NamesWithin t.references us)
    {t : TypeExpr} {ws : List Lexeme} (hn : ws.length ≤ n) (h : t.Spells ws) :
    NamesWithin t.references ws := by
  cases h with
  | one h => exact hmember t ws hn h
  | union hts _ =>
    rw [TypeExpr.references]
    exact TypeExpr.referencesAll_within hts fun t' us hle => hmember t' us (Nat.le_trans hle hn)

/-- A type in parentheses leaves no node, so the induction is on the number of lexemes. -/
theorem TypeExpr.SpellsMember.references_within (n : Nat) : ∀ (t : TypeExpr) (ws : List Lexeme),
    ws.length ≤ n → t.SpellsMember ws → NamesWithin t.references ws := by
  induction n with
  | zero =>
    intro t ws hn h
    exact absurd (List.length_eq_zero_iff.mp (Nat.le_zero.mp hn)) h.ne_nil
  | succ n ih =>
    intro t ws hn h
    cases h with
    | keyword _ | literalTrue _ | literalFalse _ =>
      rw [TypeExpr.references]
      exact ⟨List.nil_sublist _, by simp⟩
    | @reference name w hw _ =>
      rw [TypeExpr.references]
      exact .cons ⟨by rw [hw]; rfl, rfl⟩ .nil
    | @parenthesized t ws l r _ h _ =>
      have hlength : (l :: (ws ++ [r])).length = ws.length + 2 := by simp
      have hinner := TypeExpr.references_within_of_members ih (by omega) h
      exact (hinner.before _).skip _
    | @array t ws l r h _ _ =>
      have hlength : (ws ++ [l, r]).length = ws.length + 2 := by simp
      rw [TypeExpr.references]
      exact (ih t ws (by omega) h).before _

theorem TypeExpr.Spells.references_within {t : TypeExpr} {ws : List Lexeme} (h : t.Spells ws) :
    NamesWithin t.references ws :=
  TypeExpr.references_within_of_members (TypeExpr.SpellsMember.references_within ws.length)
    (Nat.le_refl _) h

/-- What stands behind its sign, if it is there. -/
theorem Behind.names_within {α : Type} {P : α → List Lexeme → Prop} {f : α → List Ident}
    {sign : Punctuator} {a : Option α} {ws : List Lexeme}
    (hP : ∀ a us, P a us → NamesWithin (f a) us) (h : Behind sign P a ws) :
    NamesWithin (a.toList.flatMap f) ws := by
  cases h with
  | none => exact .nil
  | some _ ha => simpa using (hP _ _ ha).skip _

/-- **The names mentioned at a site stand among its lexemes in their order.** -/
theorem Site.Spells.mentions_within {site : Site} {ws : List Lexeme} (h : site.Spells ws) :
    NamesWithin site.mentions ws := by
  have htype : ∀ (a : Option TypeExpr) (us : List Lexeme), Behind .colon TypeExpr.Spells a us →
      NamesWithin (a.toList.flatMap TypeExpr.references) us := fun _ _ h' =>
    h'.names_within fun _ _ ht => ht.references_within
  have hvalue : ∀ (a : Option Expr) (us : List Lexeme), Behind .equal Expr.Spells a us →
      NamesWithin (a.toList.flatMap Expr.identifiers) us := fun _ _ h' =>
    h'.names_within fun _ _ he => he.identifiers_within
  cases h with
  | expression he => simpa [Site.mentions, Site.references, Site.identifiers, Site.type?,
      Site.expression?] using he.identifiers_within
  | declarator hd =>
    cases hd with
    | mk _ ht he => exact ((htype _ _ ht).append (hvalue _ _ he)).skip _
  | parameter hp =>
    cases hp with
    | mk _ ht =>
      rw [Site.mentions, show Site.identifiers (.parameter _) = [] from rfl, List.append_nil]
      exact (htype _ _ ht).skip _
  | signature ht =>
    rw [Site.mentions, show Site.identifiers (.signature _) = [] from rfl, List.append_nil]
    exact htype _ _ ht

end ScriptLint
