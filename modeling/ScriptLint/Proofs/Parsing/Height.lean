import ScriptLint.Proofs.Parsing.Depth
import ScriptLint.Proofs.Parsing.SoundStatement
import ScriptLint.Proofs.Syntax.Height
/-!
# How high a tree is read

The levels that the reader counts are not the nodes of the tree: a part is
read deeper, gives its levels back, and is then put under links that take
the same levels again; conditionals, assignments, unions and the parts of a
declaration take none at all. Still there is a height for every room. What
is read one level deeper is at most `reach r` high if `r` levels are left
around it, and a statement is at most one higher.

Key definitions: `Parse.Low`, `Parse.Parts.Low`.
Key theorems: `Parse.low_typeExpr`, `Parse.low_expression`, `Parse.low_statement`,
`Script.fits_recover`.
-/

namespace ScriptLint

theorem Ident.fits_outline (ident : Ident) {n : Nat} (h : 0 < n) : ident.outline.Fits n :=
  .leaf h

namespace Parse

/-- What is read one level deeper is as high as the room around it allows, and the room is there
again behind it. -/
def Low {α : Type} (outline : α → Outline) (p : Parse α) : Prop :=
  ∀ s : State, Ends p s (fun a t => (outline a).Fits (reach s.room) ∧ t.room = s.room)
    fun _ => True

/-- A level deeper there is a link for each level that is left, and two nodes besides. -/
theorem low_nested {α : Type} {outline : α → Outline} {p : Parse α}
    (h : ∀ s : State, Ends p s (fun a _ => (outline a).Fits (reach s.room + s.room + 4))
      fun _ => True) : Low outline (nested p) := by
  intro s
  refine Ends.nested (fun hroom => (h _).imp (fun a t ha => ⟨?_, rfl⟩) fun _ _ => trivial) trivial
  have hreach := reach_succ (s.room - 1)
  rw [Nat.sub_add_cancel (Nat.pos_of_ne_zero hroom)] at hreach
  rw [hreach]
  exact ha

/-! ### Types -/

section Types

variable {inner : Parse TypeExpr} {s : State}

theorem low_simpleType (hinner : Low TypeExpr.outline inner) :
    Ends (simpleType inner) s
      (fun a t => a.outline.Fits (reach s.room + 2) ∧ t.room = s.room) fun _ => True := by
  have hnode : ∀ o : Outline, o.Fits 2 → o.Fits (reach s.room + 2) :=
    fun o ho => ho.mono (Nat.le_add_left _ _)
  refine Ends.currentSpan_bind (Ends.peek_bind ?_)
  split
  · exact Ends.advance_bind (Ends.pure ⟨hnode _ (.leaf (by decide)), by simp⟩)
  · exact Ends.advance_bind (Ends.pure ⟨hnode _ (.leaf (by decide)), by simp⟩)
  · refine Ends.advance_bind (Ends.bind (hinner s.advance) fun a t ⟨ha, ht⟩ => ?_)
    rw [State.room_advance] at ha ht
    refine Ends.expect_bind (fun _ => Ends.pure ⟨ha.mono (Nat.le_add_right _ _), ?_⟩) fun _ => trivial
    simpa using ht
  · split
    · exact Ends.advance_bind (Ends.pure ⟨hnode _ (.leaf (by decide)), by simp⟩)
    · split
      · refine Ends.advance_bind (Ends.pure ⟨hnode _ (.node (n := 1) ?_), by simp⟩)
        simpa using Ident.fits_outline _ (by decide)
      · exact Ends.fail trivial
  · exact Ends.fail trivial

theorem low_arrayType (hinner : Low TypeExpr.outline inner) :
    Ends (arrayType inner) s (fun a t => a.outline.Grown s.room t.room) fun _ => True := by
  refine Ends.currentSpan_bind (Ends.bind (low_simpleType hinner) fun a t ⟨ha, ht⟩ => ?_)
  refine Ends.loop (fun b u hb => Ends.peek_bind ?_) (by rw [ht]; exact .start ha)
  split
  · refine Ends.descend_bind (fun hroom => Ends.advance_bind ?_) trivial
    refine Ends.expect_bind (fun _ => Ends.spanFrom_bind (Ends.pure ?_)) fun _ => trivial
    simp only [Round.value_again, State.room_advance]
    rw [← Nat.sub_add_cancel (Nat.pos_of_ne_zero hroom)] at hb
    exact .around hb (by simp)
  · exact Ends.pure hb

theorem low_unionType (hinner : Low TypeExpr.outline inner) :
    Ends (unionType inner) s (fun a _ => a.outline.Fits (reach s.room + s.room + 4))
      fun _ => True := by
  have hmember : ∀ t : State, t.room ≤ s.room → Ends (arrayType inner) t
      (fun a u => a.outline.Fits (reach s.room + s.room + 2) ∧ u.room ≤ s.room) fun _ => True := by
    intro t ht
    refine (low_arrayType hinner).imp (fun a u ha => ⟨ha.whole.mono ?_, ?_⟩) fun _ => id
    · have := reach_mono ht
      omega
    · exact Nat.le_trans ha.left_le ht
  refine Ends.currentSpan_bind (Ends.bind (Ends.separated hmember
    (fun t ht _ => by simpa using ht) (Nat.le_refl _)) ?_)
  intro members t ⟨hmembers, _⟩
  split
  next a => exact Ends.pure ((hmembers a (by simp)).mono (by omega))
  · refine Ends.spanFrom_bind (Ends.pure (.mono (.node (n := reach s.room + s.room + 2) ?_) (by omega)))
    rw [TypeExpr.outlines_eq]
    simpa using hmembers

theorem low_typeExpr : ∀ depth, Low TypeExpr.outline (typeExpr depth)
  | 0 => fun _ => Ends.fail trivial
  | depth + 1 => low_nested fun _ => low_unionType (low_typeExpr depth)

end Types

/-! ### Expressions -/

section Expressions

variable {inner : Rank → Parse Expr} {s : State}

theorem low_listUntil (hinner : ∀ rank, Low Expr.outline (inner rank)) {close : Punctuator} :
    Ends (listUntil close (inner .assignment)) s
      (fun as t => (∀ o ∈ Expr.outlines as, o.Fits (reach s.room)) ∧ t.room = s.room)
      fun _ => True := by
  have hitem : ∀ t : State, t.room = s.room → Ends (inner .assignment) t
      (fun a u => a.outline.Fits (reach s.room) ∧ u.room = s.room) fun _ => True := by
    intro t ht
    have hlow := hinner .assignment t
    rwa [ht] at hlow
  refine (Ends.listUntil hitem (fun t ht _ => by simpa using ht) rfl).imp ?_ fun _ => id
  intro as t ⟨has, ht⟩
  rw [Expr.outlines_eq]
  exact ⟨by simpa using has, ht⟩

theorem low_primary (hinner : ∀ rank, Low Expr.outline (inner rank)) :
    Ends (primary inner) s
      (fun a t => a.outline.Fits (reach s.room + 1) ∧ t.room = s.room) fun _ => True := by
  refine Ends.currentSpan_bind (Ends.peek_bind ?_)
  split
  · exact Ends.advance_bind (Ends.pure ⟨.leaf (Nat.succ_pos _), by simp⟩)
  · exact Ends.advance_bind (Ends.pure ⟨.leaf (Nat.succ_pos _), by simp⟩)
  · exact Ends.advance_bind (Ends.pure ⟨.leaf (Nat.succ_pos _), by simp⟩)
  · exact Ends.advance_bind (Ends.pure ⟨.leaf (Nat.succ_pos _), by simp⟩)
  · exact Ends.advance_bind (Ends.pure ⟨.leaf (Nat.succ_pos _), by simp⟩)
  · refine Ends.advance_bind (Ends.bind (hinner _ s.advance) fun a t ⟨ha, ht⟩ => ?_)
    rw [State.room_advance] at ha ht
    refine Ends.expect_bind (fun _ => Ends.spanFrom_bind (Ends.pure ⟨.node ?_, ?_⟩)) fun _ => trivial
    · simpa using ha
    · simpa using ht
  · refine Ends.advance_bind (Ends.bind (low_listUntil hinner) fun as t ⟨has, ht⟩ => ?_)
    rw [State.room_advance] at has ht
    refine Ends.expect_bind (fun _ => Ends.spanFrom_bind (Ends.pure ⟨.node has, ?_⟩)) fun _ => trivial
    simpa using ht
  · split
    · exact Ends.advance_bind (Ends.pure ⟨.leaf (Nat.succ_pos _), by simp⟩)
    · exact Ends.fail trivial

/-- Each call, property or element is put around the object in front of it. -/
theorem low_access (hinner : ∀ rank, Low Expr.outline (inner rank)) {room start : Nat}
    {object : Expr} {t : State} (h : object.outline.Grown room t.room) :
    Ends (access inner start object) t (fun r u => r.value.outline.Grown room u.room)
      fun _ => True := by
  have hobject : t.room ≠ 0 → object.outline.Grown room (t.room - 1 + 1) := fun hroom => by
    rwa [Nat.sub_add_cancel (Nat.pos_of_ne_zero hroom)]
  -- what stands beside the object is read with less than the whole room
  have hle : reach (t.room - 1) ≤ reach room + 1 :=
    Nat.le_succ_of_le (reach_mono (Nat.le_trans (Nat.sub_le _ _) h.left_le))
  refine Ends.peek_bind ?_
  split
  · refine Ends.descend_bind (fun hroom => Ends.advance_bind ?_) trivial
    refine Ends.bind (low_listUntil hinner) fun as u ⟨has, hu⟩ => ?_
    rw [State.room_advance] at has hu
    refine Ends.expect_bind (fun _ => Ends.spanFrom_bind (Ends.pure ?_)) fun _ => trivial
    rw [State.room_advance, hu]
    exact .around (hobject hroom) fun part hpart => (has part hpart).mono hle
  · refine Ends.descend_bind (fun hroom => Ends.advance_bind ?_) trivial
    refine Ends.ident_bind (fun _ name _ _ => Ends.spanFrom_bind (Ends.pure ?_)) trivial
    rw [State.room_advance, State.room_advance]
    refine .around (hobject hroom) ?_
    simpa using Ident.fits_outline _ (Nat.succ_pos _)
  · refine Ends.descend_bind (fun hroom => Ends.advance_bind ?_) trivial
    refine Ends.bind (hinner _ _) fun index u ⟨hindex, hu⟩ => ?_
    rw [State.room_advance] at hindex hu
    refine Ends.expect_bind (fun _ => Ends.spanFrom_bind (Ends.pure ?_)) fun _ => trivial
    rw [State.room_advance, hu]
    exact .around (hobject hroom) (by simpa using hindex.mono hle)
  · exact Ends.pure h

theorem low_unary (hinner : ∀ rank, Low Expr.outline (inner rank)) :
    Ends (unary inner) s (fun a t => a.outline.Grown s.room t.room) fun _ => True := by
  have hprefixed : ∀ {f : Expr → Span → Expr} {form : Form},
      (∀ e span, (f e span).outline = .node ⟨form, span⟩ [e.outline]) →
      Ends (do
        advance
        let operand ← inner .unary
        return f operand (← spanFrom s.span.start)) s
        (fun a t => a.outline.Grown s.room t.room) fun _ => True := by
    intro f form hf
    refine Ends.advance_bind (Ends.bind (hinner _ s.advance) fun a t ⟨ha, ht⟩ => ?_)
    rw [State.room_advance] at ha ht
    refine Ends.spanFrom_bind (Ends.pure ?_)
    rw [ht, hf]
    exact .start (.mono (.node (by simpa using ha)) (Nat.le_succ _))
  refine Ends.currentSpan_bind (Ends.peek_bind ?_)
  split
  · exact hprefixed fun e span => by rw [Expr.outline]
  · split
    · exact hprefixed fun e span => by rw [Expr.outline]
    · refine Ends.currentSpan_bind (Ends.bind (low_primary hinner) fun a t ⟨ha, ht⟩ => ?_)
      refine Ends.loop (fun b u hb => low_access hinner hb) ?_
      rw [ht]
      exact .start (ha.mono (Nat.le_succ _))

/-- Each operator is put around the operand in front of it. -/
theorem low_operation (hinner : ∀ rank, Low Expr.outline (inner rank)) {room least : Nat}
    {left : Expr} {t : State} (h : left.outline.Grown room t.room) :
    Ends (operation inner least left) t (fun r u => r.value.outline.Grown room u.room)
      fun _ => True := by
  have hle : reach (t.room - 1) ≤ reach room + 1 :=
    Nat.le_succ_of_le (reach_mono (Nat.le_trans (Nat.sub_le _ _) h.left_le))
  refine Ends.peek_bind ?_
  split
  · split
    · exact Ends.pure h
    · refine Ends.descend_bind (fun hroom => Ends.advance_bind ?_) trivial
      refine Ends.bind (hinner _ _) fun right u ⟨hright, hu⟩ => Ends.pure ?_
      rw [State.room_advance] at hright hu
      rw [hu]
      rw [← Nat.sub_add_cancel (Nat.pos_of_ne_zero hroom)] at h
      exact .around h (by simpa using hright.mono hle)
  · exact Ends.pure h

theorem low_binary (hinner : ∀ rank, Low Expr.outline (inner rank)) (least : Nat) :
    Ends (binary inner least) s (fun a t => a.outline.Grown s.room t.room) fun _ => True :=
  Ends.bind (low_unary hinner) fun _ _ ha => Ends.loop (fun _ _ hb => low_operation hinner hb) ha

/-- The outcomes of a condition are read with what is left of the room. -/
theorem low_conditional (hinner : ∀ rank, Low Expr.outline (inner rank)) :
    Ends (conditional inner) s (fun a t => a.outline.Fits (reach s.room + s.room + 3) ∧
      t.room ≤ s.room) fun _ => True := by
  refine Ends.bind (low_binary hinner 1) fun a t ha => ?_
  have hleft := ha.left_le
  have hreach := reach_mono hleft
  refine Ends.eat_bind (fun _ => ?_) fun _ => Ends.pure ⟨ha.whole.mono (by omega), hleft⟩
  refine Ends.bind (hinner _ t.advance) fun yes u ⟨hyes, hu⟩ => ?_
  rw [State.room_advance] at hyes hu
  refine Ends.expect_bind (fun _ => ?_) fun _ => trivial
  refine Ends.bind (hinner _ u.advance) fun no v ⟨hno, hv⟩ => Ends.pure ⟨.node ?_, ?_⟩
  · rw [State.room_advance, hu] at hno
    simpa using ⟨ha.whole, hyes.mono (by omega), hno.mono (by omega)⟩
  · rw [hv, State.room_advance, hu]
    exact hleft

theorem low_assignment (hinner : ∀ rank, Low Expr.outline (inner rank)) :
    Ends (assignment inner) s (fun a _ => a.outline.Fits (reach s.room + s.room + 4))
      fun _ => True := by
  refine Ends.bind (low_conditional hinner) fun a t ⟨ha, ht⟩ => Ends.peek_bind ?_
  have hreach := reach_mono ht
  split
  · split
    · refine Ends.advance_bind (Ends.bind (hinner _ t.advance) fun value u ⟨hvalue, hu⟩ => ?_)
      rw [State.room_advance] at hvalue
      exact Ends.pure (.node (by simpa using ⟨ha, hvalue.mono (by omega)⟩))
    · exact Ends.throw trivial
  · exact Ends.pure (ha.mono (Nat.le_succ _))

theorem low_expression : ∀ depth rank, Low Expr.outline (expression depth rank)
  | 0, _ => fun _ => Ends.fail trivial
  | depth + 1, rank => by
    have hinner := low_expression depth
    refine low_nested fun s => ?_
    cases rank with
    | assignment => exact low_assignment hinner
    | binary least =>
      exact (low_binary hinner least).imp (fun _ _ ha => ha.whole.mono (by omega)) fun _ => id
    | unary => exact (low_unary hinner).imp (fun _ _ ha => ha.whole.mono (by omega)) fun _ => id

end Expressions

/-! ### Statements -/

/-- Parts that are read with the room `m` and are at most `n` high. -/
structure Parts.Low (inner : Parts) (m n : Nat) : Prop where
  pos : 0 < n
  typeExpr : ∀ s : State, s.room = m → Ends inner.typeExpr s
    (fun a t => a.outline.Fits n ∧ t.room = m) fun _ => True
  expression : ∀ s : State, s.room = m → Ends inner.expression s
    (fun a t => a.outline.Fits n ∧ t.room = m) fun _ => True
  statement : ∀ s : State, s.room = m → Ends inner.statement s
    (fun a t => a.outline.Fits n ∧ t.room = m) fun t => t.room = m

section Statements

variable {inner : Parts} {m n : Nat} {s : State}

theorem room_advance_of {t : State} (ht : t.room = m) : t.advance.room = m := by
  simpa using ht

theorem Parts.Low.branch (h : inner.Low m n) (hs : s.room = m) : Ends inner.statement s
    (fun a t => a.outline.Fits n ∧ t.room = m) fun _ => True :=
  (h.statement s hs).imp (fun _ _ => id) fun _ _ => trivial

theorem low_declarator (h : inner.Low m n) (kind : DeclKind) (hs : s.room = m) :
    Ends (declarator inner) s (fun a t => (a.outline kind).Fits (n + 1) ∧ t.room = m)
      fun _ => True := by
  refine Ends.ident_bind (fun _ name _ _ => ?_) trivial
  refine Ends.bind (Ends.optionalAfter h.typeExpr (fun t ht _ => room_advance_of ht)
    (room_advance_of hs)) fun type t ⟨htype, ht⟩ => ?_
  refine Ends.bind (Ends.optionalAfter h.expression (fun t ht _ => room_advance_of ht) ht)
    fun value u ⟨hvalue, hu⟩ => ?_
  refine Ends.spanFrom_bind (Ends.pure ⟨.node ?_, hu⟩)
  simpa [or_imp, forall_and] using ⟨Ident.fits_outline _ h.pos, htype, hvalue⟩

theorem low_declaration (h : inner.Low m n) (kind : DeclKind) (hs : s.room = m) :
    Ends (declaration inner kind) s (fun a t => a.outline.Fits (n + 2) ∧ t.room = m)
      fun _ => True := by
  refine Ends.currentSpan_bind (Ends.advance_bind ?_)
  refine Ends.bind (Ends.separated (fun t ht => low_declarator h kind ht)
    (fun t ht _ => room_advance_of ht) (room_advance_of hs)) fun ds t ⟨hds, ht⟩ => ?_
  exact Ends.spanFrom_bind (Ends.pure ⟨.node (by simpa using hds), ht⟩)

theorem low_parameter (h : inner.Low m n) (hs : s.room = m) :
    Ends (parameter inner) s (fun a t => a.outline.Fits (n + 1) ∧ t.room = m) fun _ => True := by
  refine Ends.ident_bind (fun _ name _ _ => ?_) trivial
  refine Ends.bind (Ends.optionalAfter h.typeExpr (fun t ht _ => room_advance_of ht)
    (room_advance_of hs)) fun type t ⟨htype, ht⟩ => ?_
  refine Ends.spanFrom_bind (Ends.pure ⟨.node ?_, ht⟩)
  simpa using ⟨Ident.fits_outline _ h.pos, htype⟩

theorem low_parameters (h : inner.Low m n) (hs : s.room = m) :
    Ends (parameters inner) s (fun as t => (∀ a ∈ as, a.outline.Fits (n + 1)) ∧ t.room = m)
      fun _ => True := by
  refine Ends.expect_bind (fun _ => Ends.peek_bind ?_) fun _ => trivial
  have hclose : ∀ (as : List Parameter) t, (∀ a ∈ as, a.outline.Fits (n + 1)) ∧ t.room = m →
      Ends (do expect .rightParen; return as) t
        (fun as t => (∀ a ∈ as, a.outline.Fits (n + 1)) ∧ t.room = m) fun _ => True :=
    fun as t ⟨has, ht⟩ => Ends.expect_bind (fun _ => Ends.pure ⟨has, room_advance_of ht⟩)
      fun _ => trivial
  split
  · exact hclose [] _ ⟨by simp, room_advance_of hs⟩
  · exact Ends.bind (Ends.separated (fun t ht => low_parameter h ht)
      (fun t ht _ => room_advance_of ht) (room_advance_of hs)) hclose

theorem low_block (h : inner.Low m n) (hs : s.room = m) :
    Ends (block inner.statement) s
      (fun a t => (∀ o ∈ Stmt.outlines a.1, o.Fits n) ∧ t.room = m) fun _ => True := by
  refine Ends.currentSpan_bind (Ends.expect_bind (fun _ => ?_) fun _ => trivial)
  refine Ends.bind (Ends.statements (I := fun t => t.room = m) (fun t ht => room_advance_of ht)
    h.statement (fun e t ht => ht) (room_advance_of hs)) fun body t ⟨hbody, ht⟩ => ?_
  refine Ends.expect_bind (fun _ => Ends.spanFrom_bind (Ends.pure ⟨?_, room_advance_of ht⟩))
    fun _ => trivial
  rw [Stmt.outlines_eq]
  simpa using hbody

theorem low_condition (h : inner.Low m n) (hs : s.room = m) :
    Ends (condition inner) s (fun a t => a.outline.Fits n ∧ t.room = m) fun _ => True := by
  refine Ends.expect_bind (fun _ => ?_) fun _ => trivial
  refine Ends.bind (h.expression _ (room_advance_of hs)) fun a t ⟨ha, ht⟩ => ?_
  exact Ends.expect_bind (fun _ => Ends.pure ⟨ha, room_advance_of ht⟩) fun _ => trivial

theorem low_expressionUnless (h : inner.Low m n) {sign : Punctuator} (hs : s.room = m) :
    Ends (expressionUnless inner sign) s
      (fun a t => (∀ x ∈ a, x.outline.Fits n) ∧ t.room = m) fun _ => True := by
  refine Ends.peek_bind ?_
  split
  · exact Ends.pure ⟨by simp, hs⟩
  · exact Ends.bind (h.expression s hs) fun a t ⟨ha, ht⟩ => Ends.pure ⟨by simpa using ha, ht⟩

theorem low_forStart (h : inner.Low m n) (hs : s.room = m) :
    Ends (forStart inner) s
      (fun a t => (∀ x ∈ a, x.outline.Fits (n + 2)) ∧ t.room = m) fun _ => True := by
  refine Ends.peek_bind ?_
  split
  · refine Ends.bind (low_declaration h _ hs) ?_
    rintro d t ⟨hd, ht⟩
    exact Ends.pure ⟨by simpa [ForStart.outline] using hd, ht⟩
  · refine Ends.bind (low_expressionUnless h hs) ?_
    rintro e t ⟨he, ht⟩
    have he' : ∀ x ∈ e, x.outline.Fits (n + 2) := fun x hx => (he x hx).mono (by omega)
    exact Ends.pure ⟨by simpa [ForStart.outline] using he', ht⟩

/-- What is left of a statement when its parts have been read: perhaps a semicolon. -/
theorem low_ending {f : Span → Stmt} {start : Nat} {Q : Stmt → Prop} (hf : ∀ span, Q (f span)) :
    Ends (do
      let _ ← eat (.punctuator .semicolon)
      return f (← spanFrom start)) s (fun a _ => Q a) fun _ => True :=
  Ends.eat_bind (fun _ => Ends.spanFrom_bind (Ends.pure (hf _)))
    fun _ => Ends.spanFrom_bind (Ends.pure (hf _))

theorem low_function (h : inner.Low m n) (hs : s.room = m) :
    Ends (function inner) s (fun a _ => a.outline.Fits (n + 3)) fun _ => True := by
  refine Ends.currentSpan_bind (Ends.advance_bind (Ends.ident_bind (fun _ name _ _ => ?_) trivial))
  refine Ends.bind (low_parameters h (room_advance_of (room_advance_of hs))) fun ps t ⟨hps, ht⟩ => ?_
  refine Ends.bind (Ends.optionalAfter h.typeExpr (fun t ht _ => room_advance_of ht) ht)
    fun type u ⟨htype, hu⟩ => ?_
  refine Ends.bind (low_block h hu) fun (body, bodySpan) v ⟨hbody, hv⟩ => ?_
  refine Ends.spanFrom_bind (Ends.pure (.node ?_))
  have hps' : ∀ p ∈ ps, p.outline.Fits (n + 2) := fun p hp => (hps p hp).mono (by omega)
  have htype' : ∀ a ∈ type, a.outline.Fits (n + 2) := fun a ha => (htype a ha).mono (by omega)
  have hblock : (Outline.node ⟨.block, bodySpan⟩ (Stmt.outlines body)).Fits (n + 2) :=
    .mono (.node hbody) (by omega)
  simpa [Signature.outlines, or_imp, forall_and] using
    ⟨Ident.fits_outline _ (Nat.succ_pos _), hps', htype', hblock⟩

theorem low_ifStatement (h : inner.Low m n) (hs : s.room = m) :
    Ends (ifStatement inner) s (fun a _ => a.outline.Fits (n + 1)) fun _ => True := by
  refine Ends.currentSpan_bind (Ends.advance_bind ?_)
  refine Ends.bind (low_condition h (room_advance_of hs)) fun c t ⟨hc, ht⟩ => ?_
  refine Ends.bind (h.branch ht) fun yes u ⟨hyes, hu⟩ => ?_
  refine Ends.eat_bind (fun _ => ?_)
    fun _ => Ends.spanFrom_bind (Ends.pure (.node (by simpa using ⟨hc, hyes⟩)))
  refine Ends.bind (h.branch (room_advance_of hu)) fun no v ⟨hno, hv⟩ => ?_
  exact Ends.spanFrom_bind (Ends.pure (.node (by simpa using ⟨hc, hyes, hno⟩)))

theorem low_whileStatement (h : inner.Low m n) (hs : s.room = m) :
    Ends (whileStatement inner) s (fun a _ => a.outline.Fits (n + 1)) fun _ => True := by
  refine Ends.currentSpan_bind (Ends.advance_bind ?_)
  refine Ends.bind (low_condition h (room_advance_of hs)) fun c t ⟨hc, ht⟩ => ?_
  refine Ends.bind (h.branch ht) fun body u ⟨hbody, hu⟩ => ?_
  exact Ends.spanFrom_bind (Ends.pure (.node (by simpa using ⟨hc, hbody⟩)))

theorem low_forStatement (h : inner.Low m n) (hs : s.room = m) :
    Ends (forStatement inner) s (fun a _ => a.outline.Fits (n + 3)) fun _ => True := by
  have hpart : ∀ {o : Outline}, o.Fits n → o.Fits (n + 2) := fun ho => ho.mono (by omega)
  refine Ends.currentSpan_bind (Ends.advance_bind (Ends.expect_bind (fun _ => ?_) fun _ => trivial))
  refine Ends.bind (low_forStart h (room_advance_of (room_advance_of hs))) fun first t ⟨hfirst, ht⟩ => ?_
  refine Ends.expect_bind (fun _ => ?_) fun _ => trivial
  refine Ends.bind (low_expressionUnless h (room_advance_of ht)) fun c u ⟨hc, hu⟩ => ?_
  refine Ends.expect_bind (fun _ => ?_) fun _ => trivial
  refine Ends.bind (low_expressionUnless h (room_advance_of hu)) fun update v ⟨hupdate, hv⟩ => ?_
  refine Ends.expect_bind (fun _ => ?_) fun _ => trivial
  refine Ends.bind (h.branch (room_advance_of hv)) fun body w ⟨hbody, hw⟩ => ?_
  refine Ends.spanFrom_bind (Ends.pure (.node ?_))
  simpa [or_imp, forall_and] using ⟨hfirst, fun x hx => hpart (hc x hx),
    fun x hx => hpart (hupdate x hx), hpart hbody⟩

theorem low_returnStatement (h : inner.Low m n) (hs : s.room = m) :
    Ends (returnStatement inner) s (fun a _ => a.outline.Fits (n + 1)) fun _ => True := by
  refine Ends.currentSpan_bind (Ends.advance_bind (Ends.peek_bind ?_))
  have hvalue : ∀ (value : Option Expr) span, (∀ x ∈ value, x.outline.Fits n) →
      (Stmt.returns value span).outline.Fits (n + 1) :=
    fun value span hvalue => .node (by simpa using hvalue)
  split
  · exact low_ending fun span => hvalue none span (by simp)
  · refine Ends.bind (P := fun value _ => ∀ x ∈ value, x.outline.Fits n) ?_
      fun value t hx => low_ending fun span => hvalue value span hx
    exact Ends.bind (h.expression _ (room_advance_of hs)) fun a t ⟨ha, _⟩ =>
      Ends.pure (by simpa using ha)

/-- A statement is at most three nodes higher than its parts. -/
theorem low_statementWith (h : inner.Low m n) (hs : s.room = m) :
    Ends (statementWith inner) s (fun a _ => a.outline.Fits (n + 3)) fun _ => True := by
  have hraise : ∀ (a : Stmt) (_ : State), a.outline.Fits (n + 1) → a.outline.Fits (n + 3) :=
    fun a _ ha => ha.mono (by omega)
  refine Ends.peek_bind ?_
  split
  · refine Ends.currentSpan_bind (Ends.bind (low_declaration h _ hs) fun d t ⟨hd, ht⟩ => ?_)
    exact low_ending fun span => .node (by simpa using hd)
  · split
    · exact low_function h hs
    · refine Ends.bind (low_block h hs) fun (body, span) t ⟨hbody, ht⟩ => Ends.pure ?_
      exact hraise _ t (.node hbody)
    · exact (low_ifStatement h hs).imp hraise fun _ => id
    · exact (low_whileStatement h hs).imp hraise fun _ => id
    · exact low_forStatement h hs
    · exact (low_returnStatement h hs).imp hraise fun _ => id
    · refine Ends.currentSpan_bind (Ends.bind (h.expression s hs) fun e t ⟨he, ht⟩ => ?_)
      exact low_ending fun span => hraise _ t (.node (by simpa using he))

end Statements

/-- **A statement is one node higher than what is read with its room.** -/
theorem low_statement : ∀ (depth : Nat) (s : State), Ends (statement depth) s
    (fun a t => a.outline.Fits (reach s.room + 1) ∧ t.room = s.room) fun t => t.room = s.room
  | 0, _ => Ends.fail rfl
  | depth + 1, s => by
    refine Ends.nested (fun hroom => ?_) rfl
    have hreach := reach_succ (s.room - 1)
    rw [Nat.sub_add_cancel (Nat.pos_of_ne_zero hroom)] at hreach
    have hinner : Parts.Low ⟨typeExpr depth, expression depth .assignment, statement depth⟩
        (s.room - 1) (reach (s.room - 1) + 1) := by
      refine ⟨Nat.succ_pos _, fun t ht => ?_, fun t ht => ?_, fun t ht => ?_⟩
      · rw [← ht]
        exact (low_typeExpr depth t).imp (fun a u ha => ⟨ha.1.mono (Nat.le_succ _), ha.2⟩) fun _ => id
      · rw [← ht]
        exact (low_expression depth .assignment t).imp
          (fun a u ha => ⟨ha.1.mono (Nat.le_succ _), ha.2⟩) fun _ => id
      · rw [← ht]
        exact low_statement depth t
    exact (low_statementWith hinner rfl).imp (fun a t ha => ⟨ha.mono (by omega), rfl⟩) fun _ _ => rfl

end Parse

/-! ### Scripts -/

namespace Script

/-- **The tree of a text is no higher than the limit allows,** however long the text is. -/
theorem fits_recover (name text : String) :
    (recover name text).1.outline.Fits (reach nestingLimit + 2) := by
  have hstatement : ∀ t : Parse.State, t.room = nestingLimit →
      Parse.Ends (Parse.statement nestingLimit) t
        (fun a u => a.outline.Fits (reach nestingLimit + 1) ∧ u.room = nestingLimit)
        fun u => u.room = nestingLimit := by
    intro t ht
    have hlow := Parse.low_statement nestingLimit t
    rwa [ht] at hlow
  have h : Parse.Ends (Parse.statements (Parse.statement nestingLimit) none) (.ofText text)
      (fun body t => (∀ a ∈ body, a.outline.Fits (reach nestingLimit + 1)) ∧
        t.room = nestingLimit) fun _ => True :=
    Parse.Ends.statements (I := fun t => t.room = nestingLimit)
      (fun t ht => Parse.room_advance_of ht) hstatement (fun e t ht => ht) rfl
  have hbody := (h.of_ok (readBody_run text)).1
  rw [recover_eq]
  refine .node ?_
  rw [Stmt.outlines_eq]
  simpa using hbody

end Script

end ScriptLint
