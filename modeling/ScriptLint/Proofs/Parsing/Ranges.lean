import ScriptLint.Proofs.Parsing.Positions
import ScriptLint.Proofs.Syntax.Height
/-!
# Where the nodes of a tree stand

A node stands over a row of lexemes if it reaches from the first of them to
the last and its parts stand over rows of their own inside of it, one behind
the other. What was read stands over the lexemes it was read from, whether or
not errors were met. So every node begins and ends with a token of the text
and lies inside the node around it, the parts of a node follow each other
without overlapping, and a name stands where the text has it.

Key definitions: `Among`, `Outline.Over`.
Key theorems: `Expr.Spells.over`, `TypeExpr.Spells.among`, `Stmt.Spells.over`,
`Script.nodes_nest_in_order`.
-/

namespace ScriptLint

/-! ### The ends of a row -/

section Rows

variable {ws us vs : List Lexeme}

theorem Span.eq_of_ends {s t : Span} (hstart : s.start = t.start) (hstop : s.stop = t.stop) :
    s = t := by
  obtain ⟨a, m⟩ := s
  obtain ⟨b, n⟩ := t
  simp only [Span.stop] at hstart hstop
  rw [Span.mk.injEq]
  omega

theorem endOf_eq_getLast (start : Nat) (h : ws ≠ []) :
    endOf start ws = (ws.getLast h).span.stop := by
  induction ws generalizing start with
  | nil => exact absurd rfl h
  | cons w ws ih =>
    rw [endOf_cons]
    cases ws with
    | nil => rfl
    | cons v vs => rw [List.getLast_cons (List.cons_ne_nil v vs), ih]

theorem start_extent (h : ws ≠ []) : (extent ws).start = (ws.head h).span.start := by
  cases ws with
  | nil => exact absurd rfl h
  | cons w ws => rfl

theorem stop_extent (hordered : ws.Pairwise fun v w => v.span.stop ≤ w.span.start) (h : ws ≠ []) :
    (extent ws).stop = (ws.getLast h).span.stop := by
  cases ws with
  | nil => exact absurd rfl h
  | cons w ws =>
    rw [← endOf_eq_getLast w.span.start h, endOf_cons, extent, Span.stop_upTo]
    have hfirst := stop_le_endOf hordered List.mem_cons_self
    have hw := w.span.start_le_stop
    omega

theorem extent_singleton (w : Lexeme) : extent [w] = w.span :=
  Span.eq_of_ends rfl (stop_extent (List.pairwise_singleton _ w) (List.cons_ne_nil w []))

/-- A row reaches over the rows inside of it. -/
theorem extent_contains_extent (hordered : ws.Pairwise fun v w => v.span.stop ≤ w.span.start)
    (hsub : us.Sublist ws) (h : us ≠ []) : (extent ws).contains (extent us) = true := by
  have hfirst := contains_extent hordered _ (hsub.subset (List.head_mem h))
  have hlast := contains_extent hordered _ (hsub.subset (List.getLast_mem h))
  simp only [Span.contains, decide_eq_true_eq] at hfirst hlast ⊢
  rw [start_extent h, stop_extent (hordered.sublist hsub) h]
  exact ⟨hfirst.1, hlast.2⟩

/-- What covers the two ends of a row is as long as the row. -/
theorem cover_extent (hordered : (ws ++ (vs ++ us)).Pairwise fun v w => v.span.stop ≤ w.span.start)
    (hws : ws ≠ []) (hus : us ≠ []) :
    (extent ws).cover (extent us) = extent (ws ++ (vs ++ us)) := by
  have hne : ws ++ (vs ++ us) ≠ [] := by simp [hws]
  obtain ⟨hleft, hrest, hbefore⟩ := List.pairwise_append.mp hordered
  have hright := (List.pairwise_append.mp hrest).2.1
  have hstart := start_extent hws
  have hstop := stop_extent hright hus
  have hwhole := start_extent hne
  have hwhole' := stop_extent hordered hne
  rw [List.head_append_of_ne_nil hws] at hwhole
  simp only [List.getLast_append_of_ne_nil _ (show vs ++ us ≠ [] by simp [hus]),
    List.getLast_append_of_ne_nil _ hus] at hwhole'
  -- the first row lies before the last one
  have hmid : (extent ws).stop ≤ (extent us).start := by
    rw [stop_extent hleft hws, start_extent hus]
    exact hbefore _ (List.getLast_mem hws) _ (List.mem_append_right vs (List.head_mem hus))
  have hws' := (extent ws).start_le_stop
  have hus' := (extent us).start_le_stop
  refine Span.eq_of_ends ?_ ?_
  · rw [Span.cover, Span.start_upTo]
    omega
  · rw [Span.cover, Span.stop_upTo]
    omega

end Rows

/-! ### Parts among the lexemes of a row -/

/-- The items are written in this order among the lexemes of a row. -/
inductive Among {α : Type} (P : α → List Lexeme → Prop) : List α → List Lexeme → Prop
  | nil {ws : List Lexeme} : Among P [] ws
  | skip {as : List α} {ws : List Lexeme} (w : Lexeme) : Among P as ws → Among P as (w :: ws)
  | cons {a : α} {as : List α} {ws us : List Lexeme} :
      P a ws → Among P as us → Among P (a :: as) (ws ++ us)

namespace Among

variable {α β : Type} {P : α → List Lexeme → Prop} {Q : β → List Lexeme → Prop} {as bs : List α}
  {ws us : List Lexeme}

theorem behind (h : Among P as ws) (us : List Lexeme) : Among P as (us ++ ws) := by
  induction us with
  | nil => exact h
  | cons u us ih => exact .skip u ih

theorem append (h : Among P as ws) (h' : Among P bs us) : Among P (as ++ bs) (ws ++ us) := by
  induction h with
  | nil => exact h'.behind _
  | skip w _ ih => exact .skip w ih
  | cons ha _ ih =>
    rw [List.cons_append, List.append_assoc]
    exact .cons ha ih

theorem before (h : Among P as ws) (us : List Lexeme) : Among P as (ws ++ us) := by
  have hboth := h.append (.nil : Among P [] us)
  rwa [List.append_nil] at hboth

theorem single {a : α} (h : P a ws) : Among P [a] ws := by
  have hcons := Among.cons h (.nil : Among P [] [])
  rwa [List.append_nil] at hcons

/-- An item of one lexeme. -/
theorem first {a : α} {w : Lexeme} (h : P a [w]) (h' : Among P as us) :
    Among P (a :: as) (w :: us) :=
  .cons h h'

/-- Each item has a row of its own. -/
theorem part (h : Among P as ws) : ∀ a ∈ as, ∃ us, P a us ∧ us.Sublist ws := by
  induction h with
  | nil => simp
  | skip w _ ih =>
    intro a ha
    obtain ⟨us, hus, hsub⟩ := ih a ha
    exact ⟨us, hus, hsub.trans (List.sublist_cons_self w _)⟩
  | @cons b bs ws us hb _ ih =>
    intro a ha
    rcases List.mem_cons.mp ha with rfl | ha
    · exact ⟨ws, hb, List.sublist_append_left ws us⟩
    · obtain ⟨vs, hvs, hsub⟩ := ih a ha
      exact ⟨vs, hvs, hsub.trans (List.sublist_append_right ws us)⟩

/-- What holds of two items whose rows lie one behind the other holds of any two of the list. -/
theorem pairwise {R : α → α → Prop} (h : Among P as ws)
    (hordered : ws.Pairwise fun v w => v.span.stop ≤ w.span.start)
    (hR : ∀ a b us vs, P a us → P b vs → us.Sublist ws → vs.Sublist ws →
      (∀ u ∈ us, ∀ v ∈ vs, u.span.stop ≤ v.span.start) → R a b) : as.Pairwise R := by
  induction h with
  | nil => exact .nil
  | skip w _ ih =>
    refine ih hordered.of_cons fun a b us vs ha hb hus hvs => ?_
    exact hR a b us vs ha hb (hus.cons w) (hvs.cons w)
  | @cons a as ws us ha has ih =>
    obtain ⟨-, hright, hbefore⟩ := List.pairwise_append.mp hordered
    refine List.pairwise_cons.mpr ⟨fun b hb => ?_, ih hright fun a b ts vs ha hb hts hvs => ?_⟩
    · obtain ⟨vs, hvs, hsub⟩ := has.part b hb
      exact hR a b ws vs ha hvs (List.sublist_append_left ws us)
        (hsub.trans (List.sublist_append_right ws us)) fun u hu v hv =>
          hbefore u hu v (hsub.subset hv)
    · exact hR a b ts vs ha hb (hts.trans (List.sublist_append_right ws us))
        (hvs.trans (List.sublist_append_right ws us))

variable {f : β → α}

theorem of_separated {sign : Punctuator} {items : List β} (h : Separated sign Q items ws)
    (hQ : ∀ b us, Q b us → us.Sublist ws → Among P [f b] us) : Among P (items.map f) ws := by
  induction h with
  | one hb => exact hQ _ _ hb (List.Sublist.refl _)
  | @more b bs ws us w hb _ _ ih =>
    rw [List.map_cons, ← List.singleton_append]
    refine (hQ _ _ hb (List.sublist_append_left ws _)).append (.skip w (ih fun b' us' hb' hsub => ?_))
    exact hQ b' us' hb' ((hsub.cons w).trans (List.sublist_append_right ws _))

theorem of_behind {sign : Punctuator} {item : Option β} (h : Behind sign Q item ws)
    (hQ : ∀ b us, Q b us → us.Sublist ws → Among P [f b] us) : Among P (item.map f).toList ws := by
  cases h with
  | none => exact .nil
  | some _ hb => exact .skip _ (hQ _ _ hb (List.sublist_cons_self _ _))

theorem of_perhaps {item : Option β} (h : Perhaps Q item ws)
    (hQ : ∀ b, Q b ws → Among P [f b] ws) : Among P (item.map f).toList ws := by
  cases h with
  | none => exact .nil
  | some hb => exact hQ _ hb

end Among

/-! ### Nodes over rows -/

/-- The parts of a node. -/
def Outline.parts : Outline → List Outline
  | .node _ children => children

/-- The node reaches over just this row, and its parts stand among the lexemes of the row. A name
stands over the one lexeme that names it. -/
inductive Outline.Over : Outline → List Lexeme → Prop
  | node {form : Form} {children : List Outline} {ws : List Lexeme} :
      ws ≠ [] → (∀ name, form = .identifier name → ∃ w, ws = [w] ∧ w.token.name? = some name) →
      Among Outline.Over children ws → Outline.Over (.node ⟨form, extent ws⟩ children) ws

namespace Outline.Over

variable {o : Outline} {ws : List Lexeme}

theorem span_eq (h : o.Over ws) : o.root.span = extent ws := by
  cases h with
  | node _ _ _ => rfl

theorem ne_nil (h : o.Over ws) : ws ≠ [] := by
  cases h with
  | node hne _ _ => exact hne

/-- A node that is no name. -/
theorem part {form : Form} {children : List Outline} (hne : ws ≠ [])
    (hform : ∀ name, form ≠ .identifier name) (h : Among Outline.Over children ws) :
    (Outline.node ⟨form, extent ws⟩ children).Over ws :=
  .node hne (fun name hname => absurd hname (hform name)) h

theorem leaf {form : Form} {w : Lexeme} (hform : ∀ name, form ≠ .identifier name) :
    (Outline.leaf form w.span).Over [w] := by
  rw [← extent_singleton w]
  exact .part (List.cons_ne_nil w []) hform .nil

end Outline.Over

theorem Ident.SpelledBy.over {name : Ident} {w : Lexeme} (h : name.SpelledBy w) :
    name.outline.Over [w] := by
  rw [Ident.outline, h.2, ← extent_singleton w]
  refine .node (List.cons_ne_nil w []) (fun x hx => ⟨w, rfl, ?_⟩) .nil
  rw [← Form.identifier.inj hx]
  exact h.1

/-! ### Types -/

theorem TypeExpr.outlines_eq_map (ts : List TypeExpr) :
    TypeExpr.outlines ts = ts.map TypeExpr.outline := by
  induction ts with
  | nil => rfl
  | cons t ts ih => rw [TypeExpr.outlines, ih, List.map_cons]

theorem TypeExpr.Spells.among_of_members {n : Nat}
    (hmember : ∀ (t : TypeExpr) (us : List Lexeme), us.length ≤ n → t.SpellsMember us →
      Among Outline.Over [t.outline] us) {t : TypeExpr} {ws : List Lexeme} (hn : ws.length ≤ n)
    (h : t.Spells ws) : Among Outline.Over [t.outline] ws := by
  cases h with
  | one h => exact hmember t ws hn h
  | union hts _ =>
    rw [TypeExpr.outline, TypeExpr.outlines_eq_map]
    refine .single (.part (hts.ne_nil fun _ _ h => h.ne_nil) nofun (.of_separated hts ?_))
    exact fun t' us ht' hsub => hmember t' us (Nat.le_trans hsub.length_le hn) ht'

/-- A type in parentheses leaves no node, so the induction is on the number of lexemes. -/
theorem TypeExpr.SpellsMember.among (n : Nat) : ∀ (t : TypeExpr) (ws : List Lexeme),
    ws.length ≤ n → t.SpellsMember ws → Among Outline.Over [t.outline] ws := by
  induction n with
  | zero =>
    intro t ws hn h
    exact absurd (List.length_eq_zero_iff.mp (Nat.le_zero.mp hn)) h.ne_nil
  | succ n ih =>
    intro t ws hn h
    cases h with
    | keyword _ | literalTrue _ | literalFalse _ =>
      rw [TypeExpr.outline]
      exact .single (.leaf nofun)
    | @reference name w hw _ =>
      have hname : Ident.SpelledBy ⟨name, w.span⟩ w := ⟨by rw [hw]; rfl, rfl⟩
      rw [TypeExpr.outline, ← extent_singleton w]
      rw [← extent_singleton w] at hname
      exact .single (.part (List.cons_ne_nil w []) nofun (.single hname.over))
    | @parenthesized t ws l r _ h _ =>
      have hlength : (l :: (ws ++ [r])).length = ws.length + 2 := by simp
      exact .skip l ((h.among_of_members ih (by omega)).before [r])
    | @array t ws l r h _ _ =>
      have hlength : (ws ++ [l, r]).length = ws.length + 2 := by simp
      rw [TypeExpr.outline]
      exact .single (.part (by simp) nofun ((ih t ws (by omega) h).before [l, r]))

/-- **A type stands among the lexemes that spell it,** without the parentheses around it. -/
theorem TypeExpr.Spells.among {t : TypeExpr} {ws : List Lexeme} (h : t.Spells ws) :
    Among Outline.Over [t.outline] ws :=
  h.among_of_members (TypeExpr.SpellsMember.among ws.length) (Nat.le_refl _)

/-! ### Expressions -/

@[simp] theorem Expr.span_root_outline (e : Expr) : e.outline.root.span = e.span := by
  cases e <;> rw [Expr.outline] <;> rfl

/-- A node whose span covers its first and its last part. -/
theorem Outline.Over.covering (form : Form) {first last : Outline} {between : List Outline}
    {ws us : List Lexeme} (vs : List Lexeme) (hform : ∀ name, form ≠ .identifier name)
    (hordered : (ws ++ (vs ++ us)).Pairwise fun v w => v.span.stop ≤ w.span.start)
    (hfirst : first.Over ws) (hbetween : Among Outline.Over between vs) (hlast : last.Over us) :
    (Outline.node ⟨form, first.root.span.cover last.root.span⟩ (first :: (between ++ [last]))).Over
      (ws ++ (vs ++ us)) := by
  rw [hfirst.span_eq, hlast.span_eq, cover_extent hordered hfirst.ne_nil hlast.ne_nil]
  refine .part (by simp [hfirst.ne_nil]) hform ?_
  exact .cons hfirst (hbetween.append (.single hlast))

mutual

/-- **An expression stands over the lexemes that spell it.** -/
theorem Expr.Spells.over : ∀ {e : Expr} {ws : List Lexeme}, e.Spells ws →
    (ws.Pairwise fun v w => v.span.stop ≤ w.span.start) → e.outline.Over ws
  | .number _ _, _, .number _, _ | .string _ _, _, .string _, _
  | .boolean _ _, _, .booleanTrue _, _ | .boolean _ _, _, .booleanFalse _, _
  | .null _, _, .null _, _ => by
    rw [Expr.outline]
    exact .leaf nofun
  | .identifier _, _, .identifier h, _ => h.over
  | .binary op e f _, _, .binary (w := w) h _ h', hordered => by
    obtain ⟨hws, hus, -⟩ := List.pairwise_append.mp hordered
    have hnode := Outline.Over.covering (.binary op) [w] nofun hordered
      (h.over hws) .nil (h'.over hus.of_cons)
    simpa [Expr.outline] using hnode
  | .assignment op e f _, _, .assignment (w := w) h _ h', hordered => by
    obtain ⟨hws, hus, -⟩ := List.pairwise_append.mp hordered
    have hnode := Outline.Over.covering (.assignment op) [w] nofun hordered
      (h.over hws) .nil (h'.over hus.of_cons)
    simpa [Expr.outline] using hnode
  | .conditional c e f _, _, @Expr.Spells.conditional _ _ _ ws us vs q r hc _ h _ h', hordered => by
    have hrow : ws ++ q :: (us ++ r :: vs) = ws ++ ((q :: (us ++ [r])) ++ vs) := by simp
    obtain ⟨hws, hrest, -⟩ := List.pairwise_append.mp hordered
    obtain ⟨hus, hvs, -⟩ := List.pairwise_append.mp hrest.of_cons
    rw [hrow] at hordered ⊢
    have hmiddle : Among Outline.Over [e.outline] (q :: (us ++ [r])) :=
      .skip q ((Among.single (h.over hus)).before [r])
    have hnode := Outline.Over.covering .conditional (q :: (us ++ [r])) nofun hordered
      (hc.over hws) hmiddle (h'.over hvs.of_cons)
    simpa [Expr.outline] using hnode
  | .unary _ _ _, _, .unary _ h, hordered | .typeOf _ _, _, .typeOf _ h, hordered => by
    rw [Expr.outline]
    exact .part (List.cons_ne_nil _ _) nofun (.skip _ (.single (h.over hordered.of_cons)))
  | .call _ _ _, _, .call h _ hs _, hordered => by
    obtain ⟨hws, hrest, -⟩ := List.pairwise_append.mp hordered
    have hus := (List.pairwise_append.mp hrest.of_cons).1
    rw [Expr.outline]
    refine .part (by simp) nofun (.cons (h.over hws) (.skip _ ?_))
    exact (Expr.outlines_among hs hus).before _
  | .property _ _ _, _, .property h _ hname, hordered => by
    have hws := (List.pairwise_append.mp hordered).1
    rw [Expr.outline]
    exact .part (by simp) nofun (.cons (h.over hws) (.skip _ (.single hname.over)))
  | .element _ _ _, _, .element h _ h' _, hordered => by
    obtain ⟨hws, hrest, -⟩ := List.pairwise_append.mp hordered
    have hus := (List.pairwise_append.mp hrest.of_cons).1
    rw [Expr.outline]
    exact .part (by simp) nofun (.cons (h.over hws) (.skip _ ((Among.single (h'.over hus)).before _)))
  | .parenthesized _ _, _, .parenthesized _ h _, hordered => by
    have hws := (List.pairwise_append.mp hordered.of_cons).1
    rw [Expr.outline]
    exact .part (List.cons_ne_nil _ _) nofun (.skip _ ((Among.single (h.over hws)).before _))
  | .array _ _, _, .array _ hs _, hordered => by
    have hws := (List.pairwise_append.mp hordered.of_cons).1
    rw [Expr.outline]
    exact .part (List.cons_ne_nil _ _) nofun (.skip _ ((Expr.outlines_among hs hws).before _))

theorem Expr.outlines_among : ∀ {es : List Expr} {ws : List Lexeme}, Listed Expr.Spells es ws →
    (ws.Pairwise fun v w => v.span.stop ≤ w.span.start) →
    Among Outline.Over (Expr.outlines es) ws
  | [], _, .nil, _ => .nil
  | [_], _, .last h, hordered => .single (h.over hordered)
  | _ :: _, _, .more h _ hs, hordered => by
    obtain ⟨hws, hus, -⟩ := List.pairwise_append.mp hordered
    rw [Expr.outlines]
    exact .cons (h.over hws) (.skip _ (Expr.outlines_among hs hus.of_cons))

end

/-! ### Statements -/

section Declarations

variable {ws : List Lexeme}

theorem Declarator.Spells.over {kind : DeclKind} {d : Declarator} (h : d.Spells ws)
    (hordered : ws.Pairwise fun v w => v.span.stop ≤ w.span.start) :
    (d.outline kind).Over ws := by
  cases h with
  | @mk name type value w ts es hname htype hvalue =>
    refine .part (List.cons_ne_nil w _) nofun (.first hname.over ?_)
    have hes := (List.pairwise_append.mp hordered.of_cons).2.1
    refine (Among.of_behind htype fun t us ht _ => ht.among).append (.of_behind hvalue ?_)
    exact fun e us he hsub => .single (he.over (hes.sublist hsub))

theorem Declaration.Spells.over {d : Declaration} (h : d.Spells ws)
    (hordered : ws.Pairwise fun v w => v.span.stop ≤ w.span.start) : d.outline.Over ws := by
  cases h with
  | mk _ hds =>
    refine .part (List.cons_ne_nil _ _) nofun (.skip _ (.of_separated hds fun d us hd hsub => ?_))
    exact .single (hd.over (hordered.of_cons.sublist hsub))

theorem Parameter.Spells.over {p : Parameter} (h : p.Spells ws) : p.outline.Over ws := by
  cases h with
  | @mk name type w ts hname htype =>
    refine .part (List.cons_ne_nil w _) nofun (.first hname.over ?_)
    exact .of_behind htype fun t us ht _ => ht.among

theorem ForStart.Spells.over {start : ForStart} (h : start.Spells ws)
    (hordered : ws.Pairwise fun v w => v.span.stop ≤ w.span.start) : start.outline.Over ws := by
  cases h with
  | declaration h => exact h.over hordered
  | expression h => exact h.over hordered

theorem Signature.Spells.among {f : Signature} (h : f.Spells ws) :
    Among Outline.Over f.outlines ws := by
  cases h with
  | @mk name ps type f w l r ws ts _ hname _ hps _ htype =>
    have htypes : Among Outline.Over (type.map TypeExpr.outline).toList ts :=
      .of_behind htype fun t us ht _ => ht.among
    refine .skip f (.first hname.over (.skip l ?_))
    refine Among.append ?_ (.skip r htypes)
    cases hps with
    | nil => exact .nil
    | some hps => exact .of_separated hps fun p us hp _ => .single hp.over

/-- A semicolon at the end adds no part. -/
theorem Ended.among {us : List Lexeme} {os : List Outline} (h : Ended ws us)
    (hos : (ws.Pairwise fun v w => v.span.stop ≤ w.span.start) → Among Outline.Over os ws)
    (hordered : us.Pairwise fun v w => v.span.stop ≤ w.span.start) : Among Outline.Over os us := by
  cases h with
  | bare => exact hos hordered
  | semicolon _ => exact (hos (List.pairwise_append.mp hordered).1).before _

/-- A condition in parentheses behind its keyword, and what follows it. -/
theorem among_condition {c : Expr} {os : List Outline} {cs ws : List Lexeme} {i l r : Lexeme}
    (hc : c.Spells cs)
    (hordered : (i :: l :: (cs ++ r :: ws)).Pairwise fun v w => v.span.stop ≤ w.span.start)
    (h : (ws.Pairwise fun v w => v.span.stop ≤ w.span.start) → Among Outline.Over os ws) :
    Among Outline.Over (c.outline :: os) (i :: l :: (cs ++ r :: ws)) := by
  obtain ⟨hcs, hrest, -⟩ := List.pairwise_append.mp hordered.of_cons.of_cons
  exact .skip i (.skip l (.cons (hc.over hcs) (.skip r (h hrest.of_cons))))

end Declarations

mutual

/-- **A statement stands over the lexemes it was read from.** -/
theorem Stmt.Spells.over {junk : Prop} : ∀ {s : Stmt} {ws : List Lexeme}, Stmt.Spells junk s ws →
    (ws.Pairwise fun v w => v.span.stop ≤ w.span.start) → s.outline.Over ws
  | .variables _ _, _, .variables hd he, hordered => by
    have hne := he.ne_nil (by cases hd; simp)
    rw [Stmt.outline]
    exact .part hne nofun (he.among (fun h => .single (hd.over h)) hordered)
  | .function _ _ _ _, _, .function (l := l) hf _ hb _, hordered => by
    obtain ⟨-, hblock, -⟩ := List.pairwise_append.mp hordered
    have hbody := (List.pairwise_append.mp hblock.of_cons).1
    rw [Stmt.outline]
    refine .part (by simp) nofun (hf.among.append (.single ?_))
    exact .part (List.cons_ne_nil l _) nofun (.skip l ((hb.among hbody).before _))
  | .block _ _, _, .block _ hb _, hordered => by
    have hbody := (List.pairwise_append.mp hordered.of_cons).1
    rw [Stmt.outline]
    exact .part (List.cons_ne_nil _ _) nofun (.skip _ ((hb.among hbody).before _))
  | .ifThen _ _ _, _, .ifThen _ _ hc _ hs, hordered
  | .whileLoop _ _ _, _, .whileLoop _ _ hc _ hs, hordered => by
    rw [Stmt.outline]
    exact .part (List.cons_ne_nil _ _) nofun
      (among_condition hc hordered fun h => .single (hs.over h))
  | .ifElse _ _ _ _, _, .ifElse _ _ hc _ hs _ hs', hordered => by
    rw [Stmt.outline]
    refine .part (List.cons_ne_nil _ _) nofun (among_condition hc hordered fun h => ?_)
    obtain ⟨hws, hus, -⟩ := List.pairwise_append.mp h
    exact .cons (hs.over hws) (.skip _ (.single (hs'.over hus.of_cons)))
  | .forLoop _ _ _ _ _, _, .forLoop _ _ ha _ hc _ hu _ hs, hordered => by
    obtain ⟨has, hrest, -⟩ := List.pairwise_append.mp hordered.of_cons.of_cons
    obtain ⟨hcs, hrest, -⟩ := List.pairwise_append.mp hrest.of_cons
    obtain ⟨hus, hws, -⟩ := List.pairwise_append.mp hrest.of_cons
    have hstart := Among.of_perhaps ha fun _ h => .single (h.over has)
    have hcondition := Among.of_perhaps hc fun _ h => .single (h.over hcs)
    have hupdate := Among.of_perhaps hu fun _ h => .single (h.over hus)
    rw [Stmt.outline, List.append_assoc, List.append_assoc]
    refine .part (List.cons_ne_nil _ _) nofun (.skip _ (.skip _ (hstart.append (.skip _ ?_))))
    exact hcondition.append (.skip _ (hupdate.append (.skip _ (.single (hs.over hws.of_cons)))))
  | .returns _ _, _, .returns _ hv he, hordered => by
    have hne := he.ne_nil (List.cons_ne_nil _ _)
    rw [Stmt.outline]
    refine .part hne nofun (he.among (fun h => .skip _ (.of_perhaps hv fun e hspells => ?_)) hordered)
    exact .single (hspells.over h.of_cons)
  | .expression _ _, _, .expression h he, hordered => by
    have hne := he.ne_nil h.ne_nil
    rw [Stmt.outline]
    exact .part hne nofun (he.among (fun hws => .single (h.over hws)) hordered)

theorem Stmt.SpellsAll.among {junk : Prop} : ∀ {body : List Stmt} {ws : List Lexeme},
    Stmt.SpellsAll junk body ws → (ws.Pairwise fun v w => v.span.stop ≤ w.span.start) →
    Among Outline.Over (Stmt.outlines body) ws
  | _, _, .nil, _ => .nil
  | _, _, .pass _ hb, hordered => .skip _ (hb.among hordered.of_cons)
  | _, _, .cons hs hb, hordered => by
    obtain ⟨hws, hus, -⟩ := List.pairwise_append.mp hordered
    rw [Stmt.outlines]
    exact .cons (hs.over hws) (hb.among hus)

end

/-! ### Scripts -/

/-- What stands at the end of a way stands over a part of the row. -/
theorem Outline.Over.at? {o part : Outline} {ws : List Lexeme} {way : List Nat} (h : o.Over ws)
    (hpart : o.at? way = some part) : ∃ us, part.Over us ∧ us.Sublist ws := by
  induction way generalizing o ws with
  | nil =>
    obtain ⟨root, children⟩ := o
    obtain rfl := Option.some.inj hpart
    exact ⟨ws, h, List.Sublist.refl ws⟩
  | cons i is ih =>
    cases h with
    | @node form children ws _ _ hchildren =>
      rw [Outline.at?] at hpart
      cases hchild : children[i]? with
      | none => simp [hchild] at hpart
      | some child =>
        rw [hchild] at hpart
        obtain ⟨us, hus, hsub⟩ := hchildren.part child (List.mem_of_getElem? hchild)
        obtain ⟨vs, hvs, hsub'⟩ := ih hus hpart
        exact ⟨vs, hvs, hsub'.trans hsub⟩

/-- Outlines among the lexemes of a row follow each other. -/
theorem Among.follow {os : List Outline} {ws : List Lexeme} (h : Among Outline.Over os ws)
    (hordered : ws.Pairwise fun v w => v.span.stop ≤ w.span.start) :
    os.Pairwise fun a b => a.root.span.stop ≤ b.root.span.start := by
  refine h.pairwise hordered fun a b us vs ha hb hus hvs hbefore => ?_
  rw [ha.span_eq, hb.span_eq, stop_extent (hordered.sublist hus) ha.ne_nil,
    start_extent hb.ne_nil]
  exact hbefore _ (List.getLast_mem ha.ne_nil) _ (List.head_mem hb.ne_nil)

/-- A row of lexemes of a text has bytes, and lies in the text. -/
theorem extent_in_text {text : String} {ws : List Lexeme} (hne : ws ≠ [])
    (hsub : ws.Sublist (Parse.lexemesOf (scan text))) :
    0 < (extent ws).length ∧ (extent ws).stop ≤ text.utf8ByteSize := by
  have hordered := (Parse.ordered_lexemesOf text).sublist hsub
  have hfirst := Parse.placed_of_mem_lexemesOf (hsub.subset (List.head_mem hne))
  have hlast := Parse.placed_of_mem_lexemesOf (hsub.subset (List.getLast_mem hne))
  have hwithin := contains_extent hordered _ (List.head_mem hne)
  have hpos := hfirst.length_pos
  have hstop := hlast.stop_le
  rw [Span.contains, decide_eq_true_eq] at hwithin
  rw [← stop_extent hordered hne, ← utf8ByteSize_eq_byteLength] at hstop
  simp only [Span.stop] at hwithin hstop ⊢
  omega

namespace Script

/-- What is known of the parts of a node that stand among the lexemes of a text. -/
theorem parts_placed {text : String} {children : List Outline} {ws : List Lexeme}
    (h : Among Outline.Over children ws) (hsub : ws.Sublist (Parse.lexemesOf (scan text))) :
    ∀ part ∈ children, part.root.span.isEmpty = false ∧
      (∃ w ∈ Parse.lexemesOf (scan text), part.root.span.start = w.span.start) ∧
      ∃ w ∈ Parse.lexemesOf (scan text), part.root.span.stop = w.span.stop := by
  intro part hpart
  obtain ⟨us, hus, hsub'⟩ := h.part part hpart
  have hrow := hsub'.trans hsub
  have hne := hus.ne_nil
  have hordered := (Parse.ordered_lexemesOf text).sublist hrow
  rw [hus.span_eq]
  refine ⟨?_, ⟨_, hrow.subset (List.head_mem hne), start_extent hne⟩,
    ⟨_, hrow.subset (List.getLast_mem hne), stop_extent hordered hne⟩⟩
  have hpos := (extent_in_text hne hrow).1
  simpa [Span.isEmpty] using Nat.ne_of_gt hpos

/-- The statements of a script that was read stand among the lexemes of its text. -/
theorem among_outlines (name text : String) :
    Among Outline.Over (Stmt.outlines (recover name text).1.body) (Parse.lexemesOf (scan text)) :=
  (derives_readBody text).2.1.1.among (Parse.ordered_lexemesOf text)

/-- **The nodes of a tree nest and follow each other.** At the end of every way down the tree of any
text, each part of the node there has bytes, lies inside the node, and begins and ends with a token
of the text; the parts follow each other without overlapping; and a name is what the text has at
its place. -/
theorem nodes_nest_in_order (name text : String) (way : List Nat) {root : Node}
    {children : List Outline}
    (h : (recover name text).1.outline.at? way = some (.node root children)) :
    (∀ part ∈ children, part.root.span.isEmpty = false ∧
      root.span.contains part.root.span = true ∧
      (∃ w ∈ Parse.lexemesOf (scan text), part.root.span.start = w.span.start) ∧
      ∃ w ∈ Parse.lexemesOf (scan text), part.root.span.stop = w.span.stop) ∧
    (children.Pairwise fun part next => part.root.span.stop ≤ next.root.span.start) ∧
    ∀ x, root.form = .identifier x → (recover name text).1.slice root.span = x := by
  have hscript := among_outlines name text
  have hordered := Parse.ordered_lexemesOf text
  cases way with
  | nil =>
    obtain ⟨rfl, rfl⟩ := Outline.node.inj (Option.some.inj h)
    refine ⟨fun part hpart => ?_, hscript.follow hordered, nofun⟩
    obtain ⟨hbytes, hends⟩ := parts_placed hscript (List.Sublist.refl _) part hpart
    obtain ⟨us, hus, hsub⟩ := hscript.part part hpart
    have hstop := (extent_in_text hus.ne_nil hsub).2
    refine ⟨hbytes, decide_eq_true ⟨Nat.zero_le _, ?_⟩, hends⟩
    rw [hus.span_eq]
    simpa [Span.stop, Script.span, recover] using hstop
  | cons i is =>
    rw [Script.outline, Outline.at?] at h
    cases hchild : (Stmt.outlines (recover name text).1.body)[i]? with
    | none => simp [hchild] at h
    | some child =>
      rw [hchild] at h
      obtain ⟨us, hus, hsub⟩ := hscript.part child (List.mem_of_getElem? hchild)
      obtain ⟨ws, hover, hsub'⟩ := hus.at? h
      have hrow := hsub'.trans hsub
      cases hover with
      | @node form children ws hne hname hchildren =>
        refine ⟨fun part hpart => ?_, hchildren.follow (hordered.sublist hrow), fun x hx => ?_⟩
        · obtain ⟨hbytes, hends⟩ := parts_placed hchildren hrow part hpart
          obtain ⟨vs, hvs, hinner⟩ := hchildren.part part hpart
          refine ⟨hbytes, ?_, hends⟩
          rw [hvs.span_eq]
          exact extent_contains_extent (hordered.sublist hrow) hinner hvs.ne_nil
        · obtain ⟨w, rfl, hw⟩ := hname x hx
          have hplaced := Parse.placed_of_mem_lexemesOf (hrow.subset (List.mem_singleton_self w))
          show String.ofList ((slice? (extent [w]) text.toList).getD []) = x
          rw [extent_singleton, hplaced.slice?_eq hw, Option.getD_some, String.ofList_toList]

/-- The theorem at a text with an operand missing, a type in parentheses and an unknown character:
the variable there has its name, its array type and its value one behind the other, and the name in
the type is what the text has. -/
theorem nodes_nest_in_order_recovered :
    ∃ root children inner,
      (recover "a.ts" "1 + ; let x: (Date)[] = # y").1.outline.at? [0, 0, 0]
        = some (.node root children) ∧
      (recover "a.ts" "1 + ; let x: (Date)[] = # y").1.outline.at? [0, 0, 0, 1, 0, 0]
        = some inner ∧
      children.map (fun part => part.root.span) = [⟨10, 1⟩, ⟨13, 8⟩, ⟨26, 1⟩] ∧
      (children.Pairwise fun part next => part.root.span.stop ≤ next.root.span.start) ∧
      (recover "a.ts" "1 + ; let x: (Date)[] = # y").1.slice inner.root.span = "Date" := by
  have hparts : ((recover "a.ts" "1 + ; let x: (Date)[] = # y").1.outline.at? [0, 0, 0]).map
      (fun node => node.parts.map fun part => part.root.span)
      = some [⟨10, 1⟩, ⟨13, 8⟩, ⟨26, 1⟩] := by
    decide +kernel
  have hinner : ((recover "a.ts" "1 + ; let x: (Date)[] = # y").1.outline.at?
      [0, 0, 0, 1, 0, 0]).any (fun part => match part.root.form with
        | .identifier x => x == "Date"
        | _ => false) = true := by
    decide +kernel
  obtain ⟨⟨root, children⟩, hpart, hspans⟩ := Option.map_eq_some_iff.mp hparts
  obtain ⟨⟨root', children'⟩, hpart', hname⟩ := (Option.any_eq_true _ _).mp hinner
  refine ⟨root, children, _, hpart, hpart', hspans, (nodes_nest_in_order _ _ _ hpart).2.1, ?_⟩
  split at hname
  next x hform =>
    exact ((nodes_nest_in_order _ _ _ hpart').2.2 x hform).trans (by simpa using hname)
  next => cases hname

end Script

end ScriptLint
