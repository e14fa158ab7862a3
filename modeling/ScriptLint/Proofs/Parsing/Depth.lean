import ScriptLint.Proofs.Parsing.Ends
import ScriptLint.Proofs.Syntax.Depth
import ScriptLint.Proofs.Token.Places
/-!
# How deep a script is read

The reader counts the levels it has entered and stops at `nestingLimit`. What
it has read is a tree with no more levels on a way than that limit and the
free levels of the way together. With `r` levels left, a part of an
expression that is read one level deeper has less than `triangle r` levels:
inside it a primary expression has at most `triangle (r - 1)` of them, and
each operator, call, property or element around it takes one of the `r - 1`
levels that are left. For a whole script this gives
`triangle (nestingLimit - 1)`.

A type in parentheses leaves no node, so the order of the lexemes is kept in
view, too: the type starts behind its parenthesis.

Key definitions: `State.InOrder`, `ShallowType`, `ShallowExpr`, `statementLevels`.
Key theorems: `within_typeExpr`, `within_expression`, `within_statement`,
`Script.within_recover`.
-/

namespace ScriptLint

theorem Ident.within_outline (ident : Ident) {most room : Nat} : ident.outline.Within most room :=
  .of_levels_eq_zero rfl

theorem TypeExpr.outlines_eq (ts : List TypeExpr) : TypeExpr.outlines ts = ts.map TypeExpr.outline := by
  induction ts with
  | nil => rfl
  | cons t ts ih => rw [TypeExpr.outlines, ih, List.map_cons]

theorem Expr.outlines_eq (es : List Expr) : Expr.outlines es = es.map Expr.outline := by
  induction es with
  | nil => rfl
  | cons e es ih => rw [Expr.outlines, ih, List.map_cons]

theorem Stmt.outlines_eq (ss : List Stmt) : Stmt.outlines ss = ss.map Stmt.outline := by
  induction ss with
  | nil => rfl
  | cons s ss ih => rw [Stmt.outlines, ih, List.map_cons]

namespace Parse

/-! ### The order of what is ahead -/

theorem lexemesOf_dropErrors : ∀ ahead : List Scanned, lexemesOf (dropErrors ahead) = lexemesOf ahead
  | [] => rfl
  | .ok _ :: _ => rfl
  | .error _ :: ahead => lexemesOf_dropErrors ahead

theorem placed_of_mem_lexemesOf {text : String} {w : Lexeme} (h : w ∈ lexemesOf (scan text)) :
    w.Placed text.toList := by
  obtain ⟨item, hitem, hw⟩ := List.mem_filterMap.mp h
  cases item with
  | error e => cases hw
  | ok v =>
    cases hw
    exact placed_of_mem_scan hitem

/-- The lexemes of a text follow each other, whatever errors stand between them. -/
theorem ordered_lexemesOf (text : String) :
    (lexemesOf (scan text)).Pairwise fun v w => v.span.stop ≤ w.span.start := by
  refine List.pairwise_filterMap.mpr ((scan_ordered text).imp fun {x y} hxy v hv w hw => ?_)
  cases x with
  | error e => cases hv
  | ok x =>
    cases y with
    | error e => cases hw
    | ok y =>
      cases hv
      cases hw
      exact hxy

namespace State

/-- The lexemes ahead start one behind the other, in front of the end of the text. -/
structure InOrder (s : State) : Prop where
  starts : s.lexemes.Pairwise fun v w => v.span.start < w.span.start
  start_lt : ∀ w ∈ s.lexemes, w.span.start < s.stop

namespace InOrder

variable {s : State}

theorem ofText (text : String) : (State.ofText text).InOrder := by
  constructor
  · rw [lexemes_ofText]
    refine (List.Pairwise.and_mem.mp (ordered_lexemesOf text)).imp fun {v w} ⟨hv, _, hle⟩ => ?_
    have hpos := (placed_of_mem_lexemesOf hv).length_pos
    simp only [Span.stop] at hle
    omega
  · intro w hw
    rw [lexemes_ofText] at hw
    have hplaced := placed_of_mem_lexemesOf hw
    have hpos := hplaced.length_pos
    have hstop : w.span.stop ≤ text.utf8ByteSize := by
      rw [utf8ByteSize_eq_byteLength]
      exact hplaced.stop_le
    have hend : (State.ofText text).stop = text.utf8ByteSize := rfl
    simp only [Span.stop] at hstop
    omega

theorem withRoom (h : s.InOrder) (room : Nat) : InOrder { s with room := room } :=
  ⟨h.starts, h.start_lt⟩

theorem note (h : s.InOrder) (e : SyntaxError) : (s.note e).InOrder :=
  ⟨h.starts, h.start_lt⟩

theorem advance (h : s.InOrder) : s.advance.InOrder := by
  unfold State.advance
  split
  next w rest hahead =>
    have hlexemes : s.lexemes = w :: lexemesOf rest := by rw [lexemes, hahead, lexemesOf_ok]
    have hstarts := h.starts
    have hlt := h.start_lt
    rw [hlexemes] at hstarts hlt
    constructor
    · rw [lexemes, settle, lexemesOf_dropErrors]
      exact hstarts.of_cons
    · intro v hv
      rw [lexemes, settle, lexemesOf_dropErrors] at hv
      exact hlt v (List.mem_cons_of_mem _ hv)
  next => exact h

/-- Behind a token the next one starts later. -/
theorem start_lt_advance (h : s.InOrder) {token : Token} (htoken : s.token? = some token) :
    s.span.start < s.advance.span.start := by
  obtain ⟨w, rest, hahead, -, hspan⟩ := ahead_of_token? htoken
  have hlexemes : s.lexemes = w :: lexemesOf rest := by rw [lexemes, hahead, lexemesOf_ok]
  have hadvance : s.advance = settle { s with ahead := rest, consumedTo := w.span.stop } := by
    simp only [State.advance, hahead]
  rw [hspan, hadvance, span]
  split
  next v rest' hv =>
    have hmem : v ∈ lexemesOf rest := by
      rw [← lexemesOf_dropErrors]
      have hdrop : dropErrors rest = .ok v :: rest' := hv
      simp [hdrop]
    have hstarts := h.starts
    rw [hlexemes] at hstarts
    exact List.rel_of_pairwise_cons hstarts hmem
  next => exact h.start_lt w (by simp [hlexemes])

theorem start_le_advance (h : s.InOrder) : s.span.start ≤ s.advance.span.start := by
  cases htoken : s.token? with
  | some token => exact Nat.le_of_lt (h.start_lt_advance htoken)
  | none =>
    have hadvance : s.advance = s := by
      unfold token? at htoken
      unfold State.advance
      split at htoken
      next => cases htoken
      next => rfl
    exact Nat.le_of_eq (by rw [hadvance])

end InOrder

/-- The reader is at a place where the given levels are left. -/
structure At (s : State) (room : Nat) : Prop where
  room_eq : s.room = room
  inOrder : s.InOrder

theorem At.advance {s : State} {room : Nat} (h : s.At room) : s.advance.At room :=
  ⟨by simpa using h.room_eq, h.inOrder.advance⟩

theorem At.note {s : State} {room : Nat} (h : s.At room) (e : SyntaxError) : (s.note e).At room :=
  ⟨h.room_eq, h.inOrder.note e⟩

end State

/-! ### Types -/

/-- The reader has come to `t`, which is in order and not in front of `s`. -/
structure State.After (s t : State) : Prop where
  inOrder : t.InOrder
  start_le : s.span.start ≤ t.span.start

theorem State.After.advance {s t : State} (h : s.After t) : s.After t.advance :=
  ⟨h.inOrder.advance, Nat.le_trans h.start_le h.inOrder.start_le_advance⟩

theorem State.After.trans {s t u : State} (h : s.After t) (h' : t.After u) : s.After u :=
  ⟨h'.inOrder, Nat.le_trans h.start_le h'.start_le⟩

/-- A type that is read one level deeper stays within the room around it, which is there again behind
it. The type starts where the reader is, or later. -/
def ShallowType (p : Parse TypeExpr) : Prop :=
  ∀ s : State, s.InOrder → Ends p s (fun a t => (a.outline.Nested s.room ∧ t.room = s.room) ∧
    s.span.start ≤ a.outline.root.span.start ∧ s.After t) State.InOrder

section Types

variable {inner : Parse TypeExpr}

/-- What may have been read of an array type that starts at `s`: a part that holds the levels which
went from the room, or a type in parentheses, which holds none. -/
def TypeFront (s : State) (a : TypeExpr) (t : State) : Prop :=
  s.After t ∧
    (a.outline.Chain s.room t.room ∧ s.span.start ≤ a.outline.root.span.start ∨
      a.outline.Nested s.room ∧ s.span.start < a.outline.root.span.start ∧ t.room = s.room)

theorem within_simpleType (hinner : ShallowType inner) {s : State} (hs : s.InOrder) :
    Ends (simpleType inner) s (TypeFront s) State.InOrder := by
  have hleaf : ∀ a : TypeExpr, a.outline.levels = 0 → a.outline.root.form.isLink = false →
      a.outline.root.span.start = s.span.start → TypeFront s a s.advance := by
    intro a hlevels hlink hstart
    refine ⟨⟨hs.advance, hs.start_le_advance⟩, .inl ⟨?_, Nat.le_of_eq hstart.symm⟩⟩
    rw [State.room_advance]
    exact .leaf hlink hlevels
  refine Ends.currentSpan_bind (Ends.peek_bind ?_)
  split
  · exact Ends.advance_bind (Ends.pure (hleaf _ rfl rfl rfl))
  · exact Ends.advance_bind (Ends.pure (hleaf _ rfl rfl rfl))
  next htoken =>
    refine Ends.advance_bind (Ends.bind (hinner _ hs.advance) fun a t ⟨⟨ha, hroom⟩, hstart, ht⟩ => ?_)
    refine Ends.expect_bind (fun _ => Ends.pure ?_) fun _ => ht.inOrder
    have hlt := hs.start_lt_advance htoken
    rw [State.room_advance] at ha hroom
    exact ⟨(State.After.trans ⟨hs.advance, Nat.le_of_lt hlt⟩ ht).advance,
      .inr ⟨ha, Nat.lt_of_lt_of_le hlt hstart, by simpa using hroom⟩⟩
  · split
    · exact Ends.advance_bind (Ends.pure (hleaf _ rfl rfl rfl))
    · split
      · exact Ends.advance_bind (Ends.pure (hleaf _ rfl rfl rfl))
      · exact Ends.fail hs
  · exact Ends.fail hs

/-- Each bracket pair adds a level to the tree and takes one from the room. -/
theorem within_arrayType (hinner : ShallowType inner) {s : State} (hs : s.InOrder) :
    Ends (arrayType inner) s (TypeFront s) State.InOrder := by
  refine Ends.currentSpan_bind (Ends.bind (within_simpleType hinner hs) fun a t ha => ?_)
  refine Ends.loop (fun b u hb => Ends.peek_bind ?_) ha
  obtain ⟨hu, hfront⟩ := hb
  split
  · refine Ends.descend_bind (fun hroom => Ends.advance_bind ?_) hu.inOrder
    have hv : s.After { u with room := u.room - 1 } := ⟨hu.inOrder.withRoom _, hu.start_le⟩
    refine Ends.expect_bind (fun _ => Ends.spanFrom_bind (Ends.pure ?_)) fun _ => hv.advance.inOrder
    refine ⟨hv.advance.advance, .inl ⟨?_, Nat.le_refl _⟩⟩
    simp only [Round.value_again, State.room_advance]
    -- brackets go on with a chain, or begin one behind a type in parentheses
    rcases hfront with ⟨hchain, _⟩ | ⟨hnested, hstart, hu⟩
    · rw [← Nat.sub_add_cancel (Nat.pos_of_ne_zero hroom)] at hchain
      exact .around rfl hchain (by simp)
    · rw [hu]
      exact .bracket rfl hnested (Nat.ne_of_gt hstart)
  · exact Ends.pure ⟨hu, hfront⟩

theorem TypeFront.within {s t : State} {a : TypeExpr} (h : TypeFront s a t) :
    a.outline.Within (triangle s.room + s.room) s.room ∧ t.room ≤ s.room ∧
      s.span.start ≤ a.outline.root.span.start := by
  rcases h.2 with ⟨hchain, hstart⟩ | ⟨hnested, hstart, hroom⟩
  · exact ⟨hchain.within, hchain.left_le, hstart⟩
  · exact ⟨hnested.below (Nat.le_refl _), Nat.le_of_eq hroom, Nat.le_of_lt hstart⟩

theorem within_unionType (hinner : ShallowType inner) {s : State} (hs : s.InOrder) :
    Ends (unionType inner) s (fun a t => a.outline.Within (triangle s.room + s.room) s.room ∧
      s.span.start ≤ a.outline.root.span.start ∧ s.After t) State.InOrder := by
  have hmember : ∀ t : State, t.room ≤ s.room ∧ s.After t → Ends (arrayType inner) t
      (fun a u => (a.outline.Within (triangle s.room + s.room) s.room ∧
        s.span.start ≤ a.outline.root.span.start) ∧ u.room ≤ s.room ∧ s.After u) State.InOrder := by
    intro t ⟨hroom, ht⟩
    refine (within_arrayType hinner ht.inOrder).imp (fun a u ha => ?_) fun _ => id
    obtain ⟨hwithin, hle, hstart⟩ := ha.within
    have htriangle := triangle_mono hroom
    exact ⟨⟨hwithin.mono (by omega) hroom, Nat.le_trans ht.start_le hstart⟩,
      Nat.le_trans hle hroom, ht.trans ha.1⟩
  refine Ends.currentSpan_bind (Ends.bind (Ends.separated hmember
    (fun t ⟨hroom, ht⟩ _ => ⟨by simpa using hroom, ht.advance⟩)
    ⟨Nat.le_refl _, hs, Nat.le_refl _⟩) ?_)
  intro members t ⟨hmembers, _, ht⟩
  split
  next a =>
    obtain ⟨ha, hstart⟩ := hmembers a (by simp)
    exact Ends.pure ⟨ha, hstart, ht⟩
  · refine Ends.spanFrom_bind (Ends.pure ⟨?_, Nat.le_refl _, ht⟩)
    refine .plain rfl ?_
    rw [TypeExpr.outlines_eq]
    simpa using fun a ha => (hmembers a ha).1

/-- **Types are shallow.** -/
theorem within_typeExpr : ∀ depth, ShallowType (typeExpr depth)
  | 0 => fun _ hs => Ends.fail hs
  | depth + 1 => by
    intro s hs
    refine Ends.nested (fun hroom => ?_) hs
    refine (within_unionType (within_typeExpr depth) (hs.withRoom _)).imp ?_ fun t ht => ht.withRoom _
    intro a t ⟨ha, hstart, ht⟩
    exact ⟨⟨.of_within hroom ha, rfl⟩, hstart, ht.inOrder.withRoom _, ht.start_le⟩

end Types

/-! ### Expressions -/

/-- An expression that is read one level deeper stays within the room around it, which is there again
behind it. -/
def ShallowExpr (p : Parse Expr) : Prop :=
  ∀ s : State, s.InOrder →
    Ends p s (fun a t => a.outline.Nested s.room ∧ t.At s.room) State.InOrder

section Expressions

variable {inner : Rank → Parse Expr}

/-- Expressions of a list stand side by side. -/
theorem within_listUntil (hinner : ∀ rank, ShallowExpr (inner rank)) {close : Punctuator}
    {s : State} {room : Nat} (hs : s.At room) : Ends (listUntil close (inner .assignment)) s
      (fun as t => (∀ o ∈ Expr.outlines as, o.Within (triangle room) room) ∧ t.At room)
      State.InOrder := by
  have hitem : ∀ t : State, t.At room → Ends (inner .assignment) t
      (fun a u => a.outline.Within (triangle room) room ∧ u.At room) State.InOrder := by
    intro t ht
    refine (hinner .assignment t ht.inOrder).imp (fun a u ⟨ha, hu⟩ => ?_) fun _ => id
    rw [ht.room_eq] at ha hu
    exact ⟨ha.beside, hu⟩
  refine (Ends.listUntil hitem (fun t ht _ => ht.advance) hs).imp ?_ fun _ => id
  intro as t ⟨has, ht⟩
  rw [Expr.outlines_eq]
  exact ⟨by simpa using has, ht⟩

theorem within_primary (hinner : ∀ rank, ShallowExpr (inner rank)) {s : State}
    (hs : s.InOrder) : Ends (primary inner) s
      (fun a t => a.outline.Chain s.room s.room ∧ t.At s.room) State.InOrder := by
  have hnext : s.advance.At s.room := ⟨by simp, hs.advance⟩
  refine Ends.currentSpan_bind (Ends.peek_bind ?_)
  split
  · exact Ends.advance_bind (Ends.pure ⟨.leaf rfl rfl, hnext⟩)
  · exact Ends.advance_bind (Ends.pure ⟨.leaf rfl rfl, hnext⟩)
  · exact Ends.advance_bind (Ends.pure ⟨.leaf rfl rfl, hnext⟩)
  · exact Ends.advance_bind (Ends.pure ⟨.leaf rfl rfl, hnext⟩)
  · exact Ends.advance_bind (Ends.pure ⟨.leaf rfl rfl, hnext⟩)
  · refine Ends.advance_bind (Ends.bind (hinner _ _ hnext.inOrder) fun a t ⟨ha, ht⟩ => ?_)
    rw [hnext.room_eq] at ha ht
    refine Ends.expect_bind (fun _ => Ends.spanFrom_bind (Ends.pure ⟨?_, ht.advance⟩))
      fun _ => ht.inOrder
    exact .of_within rfl ha.wrap
  · refine Ends.advance_bind (Ends.bind (within_listUntil hinner hnext) fun as t ⟨has, ht⟩ => ?_)
    refine Ends.expect_bind (fun _ => Ends.spanFrom_bind (Ends.pure ⟨?_, ht.advance⟩))
      fun _ => ht.inOrder
    exact .of_within rfl (.plain rfl has)
  · split
    · exact Ends.advance_bind (Ends.pure ⟨.leaf rfl rfl, hnext⟩)
    · exact Ends.fail hs

/-- Each call, property or element is put around the object in front of it. -/
theorem within_access (hinner : ∀ rank, ShallowExpr (inner rank)) {room start : Nat}
    {object : Expr} {t : State} (h : object.outline.Chain room t.room) (ht : t.InOrder) :
    Ends (access inner start object) t
      (fun r u => r.value.outline.Chain room u.room ∧ u.InOrder) State.InOrder := by
  have hnext : State.At { t with room := t.room - 1 } (t.room - 1) := ⟨rfl, ht.withRoom _⟩
  have hobject : t.room ≠ 0 → object.outline.Chain room (t.room - 1 + 1) := fun hroom => by
    rwa [Nat.sub_add_cancel (Nat.pos_of_ne_zero hroom)]
  refine Ends.peek_bind ?_
  split
  · refine Ends.descend_bind (fun hroom => Ends.advance_bind ?_) ht
    refine Ends.bind (within_listUntil hinner hnext.advance) fun as u ⟨has, hu⟩ => ?_
    refine Ends.expect_bind (fun _ => Ends.spanFrom_bind (Ends.pure ⟨?_, hu.advance.inOrder⟩))
      fun _ => hu.inOrder
    rw [hu.advance.room_eq]
    exact .around rfl (hobject hroom) has
  · refine Ends.descend_bind (fun hroom => Ends.advance_bind ?_) ht
    refine Ends.ident_bind (fun _ name _ _ => Ends.spanFrom_bind (Ends.pure ⟨?_, ?_⟩))
      hnext.advance.inOrder
    · rw [hnext.advance.advance.room_eq]
      refine .around rfl (hobject hroom) ?_
      simpa using Ident.within_outline _
    · exact hnext.advance.advance.inOrder
  · refine Ends.descend_bind (fun hroom => Ends.advance_bind ?_) ht
    refine Ends.bind (hinner _ _ hnext.advance.inOrder) fun index u ⟨hindex, hu⟩ => ?_
    rw [hnext.advance.room_eq] at hindex hu
    refine Ends.expect_bind (fun _ => Ends.spanFrom_bind (Ends.pure ⟨?_, hu.advance.inOrder⟩))
      fun _ => hu.inOrder
    rw [hu.advance.room_eq]
    exact .around rfl (hobject hroom) (by simpa using hindex.beside)
  · exact Ends.pure ⟨h, ht⟩

theorem within_accessChain (hinner : ∀ rank, ShallowExpr (inner rank)) {s : State}
    (hs : s.InOrder) : Ends (accessChain inner) s
      (fun a t => a.outline.Chain s.room t.room ∧ t.InOrder) State.InOrder := by
  refine Ends.currentSpan_bind (Ends.bind (within_primary hinner hs) fun a t ⟨ha, ht⟩ => ?_)
  have hchain : a.outline.Chain s.room t.room := by rwa [ht.room_eq]
  exact Ends.loop (fun b u ⟨hb, hu⟩ => within_access hinner hb hu) ⟨hchain, ht.inOrder⟩

theorem within_unary (hinner : ∀ rank, ShallowExpr (inner rank)) {s : State}
    (hs : s.InOrder) : Ends (unary inner) s
      (fun a t => a.outline.Chain s.room t.room ∧ t.InOrder) State.InOrder := by
  have hnext : s.advance.At s.room := ⟨by simp, hs.advance⟩
  have hprefixed : ∀ {f : Expr → Span → Expr} {form : Form}, form.isLink = false →
      (∀ e span, (f e span).outline = .node ⟨form, span⟩ [e.outline]) →
      Ends (do
        advance
        let operand ← inner .unary
        return f operand (← spanFrom s.span.start)) s
        (fun a t => a.outline.Chain s.room t.room ∧ t.InOrder) State.InOrder := by
    intro f form hform hf
    refine Ends.advance_bind (Ends.bind (hinner _ _ hnext.inOrder) fun a t ⟨ha, ht⟩ => ?_)
    rw [hnext.room_eq] at ha ht
    refine Ends.spanFrom_bind (Ends.pure ⟨?_, ht.inOrder⟩)
    rw [ht.room_eq, hf]
    exact .of_within hform ha.wrap
  refine Ends.currentSpan_bind (Ends.peek_bind ?_)
  split
  · exact hprefixed rfl fun e span => by rw [Expr.outline]
  · split
    · exact hprefixed rfl fun e span => by rw [Expr.outline]
    · exact within_accessChain hinner hs

/-- Each operator is put around the operand in front of it. -/
theorem within_operation (hinner : ∀ rank, ShallowExpr (inner rank)) {room least : Nat}
    {left : Expr} {t : State} (h : left.outline.Chain room t.room) (ht : t.InOrder) :
    Ends (operation inner least left) t
      (fun r u => r.value.outline.Chain room u.room ∧ u.InOrder) State.InOrder := by
  have hnext : State.At { t with room := t.room - 1 } (t.room - 1) := ⟨rfl, ht.withRoom _⟩
  refine Ends.peek_bind ?_
  split
  · split
    · exact Ends.pure ⟨h, ht⟩
    · refine Ends.descend_bind (fun hroom => Ends.advance_bind ?_) ht
      refine Ends.bind (hinner _ _ hnext.advance.inOrder) fun right u ⟨hright, hu⟩ => ?_
      rw [hnext.advance.room_eq] at hright hu
      refine Ends.pure ⟨?_, hu.inOrder⟩
      rw [hu.room_eq]
      rw [← Nat.sub_add_cancel (Nat.pos_of_ne_zero hroom)] at h
      exact .around rfl h (by simpa using hright.beside)
  · exact Ends.pure ⟨h, ht⟩

theorem within_binary (hinner : ∀ rank, ShallowExpr (inner rank)) (least : Nat) {s : State}
    (hs : s.InOrder) : Ends (binary inner least) s
      (fun a t => a.outline.Chain s.room t.room ∧ t.InOrder) State.InOrder :=
  Ends.bind (within_unary hinner hs) fun _ _ ha =>
    Ends.loop (fun _ _ ⟨hb, hu⟩ => within_operation hinner hb hu) ha

theorem within_conditional (hinner : ∀ rank, ShallowExpr (inner rank)) {s : State}
    (hs : s.InOrder) : Ends (conditional inner) s
      (fun a t => a.outline.Within (triangle s.room + s.room) s.room ∧ t.room ≤ s.room ∧ t.InOrder)
      State.InOrder := by
  refine Ends.bind (within_binary hinner 1 hs) fun a t ⟨ha, ht⟩ => ?_
  refine Ends.eat_bind (fun _ => ?_) fun _ => Ends.pure ⟨ha.within, ha.left_le, ht⟩
  refine Ends.bind (hinner _ _ ht.advance) fun yes u ⟨hyes, hu⟩ => ?_
  rw [State.room_advance] at hyes hu
  refine Ends.expect_bind (fun _ => ?_) fun _ => hu.inOrder
  refine Ends.bind (hinner _ _ hu.inOrder.advance) fun no v ⟨hno, hv⟩ => Ends.pure ?_
  rw [hu.advance.room_eq] at hno hv
  refine ⟨.plain rfl ?_, by rw [hv.room_eq]; exact ha.left_le, hv.inOrder⟩
  simpa using ⟨ha.within, hyes.below ha.left_le, hno.below ha.left_le⟩

theorem within_assignment (hinner : ∀ rank, ShallowExpr (inner rank)) {s : State}
    (hs : s.InOrder) : Ends (assignment inner) s
      (fun a t => a.outline.Within (triangle s.room + s.room) s.room ∧ t.InOrder)
      State.InOrder := by
  refine Ends.bind (within_conditional hinner hs) fun a t ⟨ha, hle, ht⟩ => Ends.peek_bind ?_
  split
  · split
    · refine Ends.advance_bind (Ends.bind (hinner _ _ ht.advance) fun value u ⟨hvalue, hu⟩ => ?_)
      rw [State.room_advance] at hvalue hu
      exact Ends.pure ⟨.plain rfl (by simpa using ⟨ha, hvalue.below hle⟩), hu.inOrder⟩
    · exact Ends.throw ht
  · exact Ends.pure ⟨ha, ht⟩

theorem within_ofRank (hinner : ∀ rank, ShallowExpr (inner rank)) (rank : Rank) {s : State}
    (hs : s.InOrder) : Ends (ofRank inner rank) s
      (fun a t => a.outline.Within (triangle s.room + s.room) s.room ∧ t.InOrder)
      State.InOrder := by
  cases rank with
  | assignment => exact within_assignment hinner hs
  | binary least =>
    exact (within_binary hinner least hs).imp (fun _ _ ⟨ha, ht⟩ => ⟨ha.within, ht⟩) fun _ => id
  | unary => exact (within_unary hinner hs).imp (fun _ _ ⟨ha, ht⟩ => ⟨ha.within, ht⟩) fun _ => id

/-- **Expressions are shallow.** -/
theorem within_expression : ∀ depth rank, ShallowExpr (expression depth rank)
  | 0, _ => fun _ hs => Ends.fail hs
  | depth + 1, rank => by
    intro s hs
    refine Ends.nested (fun hroom => ?_) hs
    refine (within_ofRank (within_expression depth) rank (hs.withRoom _)).imp ?_
      fun t ht => ht.withRoom _
    exact fun a t ⟨ha, ht⟩ => ⟨.of_within hroom ha, rfl, ht.withRoom _⟩

end Expressions

/-! ### Statements -/

/-- The most levels of a statement that is read with the given room: those of an expression in it,
or of functions in each other, each of which has two, its own and that of its body. -/
def statementLevels (room : Nat) : Nat :=
  max (triangle (room - 1)) (2 * room)

theorem statementLevels_add_two : ∀ room, statementLevels room + 2 ≤ statementLevels (room + 1)
  | 0 => by decide
  | 1 => by decide
  | room + 2 => by
    have htriangle : triangle (room + 2) = triangle (room + 1) + (room + 2) := rfl
    simp only [statementLevels, Nat.add_one_sub_one]
    omega

/-- Parts that are read with the room `m`. Statements among them have at most `n` levels, and the
others one more, because a statement may stand in the body of a function. -/
structure Parts.Within (inner : Parts) (m n : Nat) : Prop where
  typeExpr : ∀ s : State, s.At m → Ends inner.typeExpr s
    (fun a t => a.outline.Within (n + 1) m ∧ t.At m) State.InOrder
  expression : ∀ s : State, s.At m → Ends inner.expression s
    (fun a t => a.outline.Within (n + 1) m ∧ t.At m) State.InOrder
  statement : ∀ s : State, s.At m → Ends inner.statement s
    (fun a t => a.outline.Within n m ∧ t.At m) (State.At · m)

section Statements

variable {inner : Parts} {m n : Nat} {s : State}

theorem Parts.Within.branch (h : inner.Within m n) (hs : s.At m) : Ends inner.statement s
    (fun a t => a.outline.Within (n + 1) m ∧ t.At m) State.InOrder :=
  (h.statement s hs).imp (fun _ _ ⟨ha, ht⟩ => ⟨ha.mono (Nat.le_succ n) (Nat.le_refl m), ht⟩)
    fun _ ht => ht.inOrder

theorem within_declarator (h : inner.Within m n) (kind : DeclKind) (hs : s.At m) :
    Ends (declarator inner) s (fun a t => (a.outline kind).Within (n + 1) m ∧ t.At m)
      State.InOrder := by
  refine Ends.ident_bind (fun _ name _ _ => ?_) hs.inOrder
  refine Ends.bind (Ends.optionalAfter h.typeExpr (fun t ht _ => ht.advance) hs.advance)
    fun type t ⟨htype, ht⟩ => ?_
  refine Ends.bind (Ends.optionalAfter h.expression (fun t ht _ => ht.advance) ht)
    fun value u ⟨hvalue, hu⟩ => ?_
  refine Ends.spanFrom_bind (Ends.pure ⟨.plain rfl ?_, hu⟩)
  simpa [or_imp, forall_and] using ⟨Ident.within_outline _, htype, hvalue⟩

theorem within_declaration (h : inner.Within m n) (kind : DeclKind) (hs : s.At m) :
    Ends (declaration inner kind) s (fun a t => a.outline.Within (n + 1) m ∧ t.At m)
      State.InOrder := by
  refine Ends.currentSpan_bind (Ends.advance_bind ?_)
  refine Ends.bind (Ends.separated (fun t ht => within_declarator h kind ht)
    (fun t ht _ => ht.advance) hs.advance) fun ds t ⟨hds, ht⟩ => ?_
  exact Ends.spanFrom_bind (Ends.pure ⟨.plain rfl (by simpa using hds), ht⟩)

theorem within_parameter (h : inner.Within m n) (hs : s.At m) :
    Ends (parameter inner) s (fun a t => a.outline.Within (n + 1) m ∧ t.At m) State.InOrder := by
  refine Ends.ident_bind (fun _ name _ _ => ?_) hs.inOrder
  refine Ends.bind (Ends.optionalAfter h.typeExpr (fun t ht _ => ht.advance) hs.advance)
    fun type t ⟨htype, ht⟩ => ?_
  refine Ends.spanFrom_bind (Ends.pure ⟨.plain rfl ?_, ht⟩)
  simpa using ⟨Ident.within_outline _, htype⟩

theorem within_parameters (h : inner.Within m n) (hs : s.At m) :
    Ends (parameters inner) s (fun as t => (∀ a ∈ as, a.outline.Within (n + 1) m) ∧ t.At m)
      State.InOrder := by
  refine Ends.expect_bind (fun _ => ?_) fun _ => hs.inOrder
  refine Ends.peek_bind ?_
  have hclose : ∀ (as : List Parameter) t, (∀ a ∈ as, a.outline.Within (n + 1) m) ∧ t.At m →
      Ends (do expect .rightParen; return as) t
        (fun as t => (∀ a ∈ as, a.outline.Within (n + 1) m) ∧ t.At m) State.InOrder :=
    fun as t ⟨has, ht⟩ => Ends.expect_bind (fun _ => Ends.pure ⟨has, ht.advance⟩)
      fun _ => ht.inOrder
  split
  · exact hclose [] _ ⟨by simp, hs.advance⟩
  · exact Ends.bind (Ends.separated (fun t ht => within_parameter h ht)
      (fun t ht _ => ht.advance) hs.advance) hclose

theorem within_block (h : inner.Within m n) (hs : s.At m) :
    Ends (block inner.statement) s
      (fun a t => (∀ o ∈ Stmt.outlines a.1, o.Within n m) ∧ t.At m) State.InOrder := by
  refine Ends.currentSpan_bind (Ends.expect_bind (fun _ => ?_) fun _ => hs.inOrder)
  refine Ends.bind (Ends.statements (fun t ht => ht.advance) h.statement
    (fun e t ht => ht.note e) hs.advance) fun body t ⟨hbody, ht⟩ => ?_
  refine Ends.expect_bind (fun _ => Ends.spanFrom_bind (Ends.pure ⟨?_, ht.advance⟩))
    fun _ => ht.inOrder
  rw [Stmt.outlines_eq]
  simpa using hbody

theorem within_condition (h : inner.Within m n) (hs : s.At m) :
    Ends (condition inner) s (fun a t => a.outline.Within (n + 1) m ∧ t.At m) State.InOrder := by
  refine Ends.expect_bind (fun _ => ?_) fun _ => hs.inOrder
  refine Ends.bind (h.expression _ hs.advance) fun a t ⟨ha, ht⟩ => ?_
  exact Ends.expect_bind (fun _ => Ends.pure ⟨ha, ht.advance⟩) fun _ => ht.inOrder

theorem within_expressionUnless (h : inner.Within m n) {sign : Punctuator} (hs : s.At m) :
    Ends (expressionUnless inner sign) s
      (fun a t => (∀ x ∈ a, x.outline.Within (n + 1) m) ∧ t.At m) State.InOrder := by
  refine Ends.peek_bind ?_
  split
  · exact Ends.pure ⟨by simp, hs⟩
  · exact Ends.bind (h.expression s hs) fun a t ⟨ha, ht⟩ => Ends.pure ⟨by simpa using ha, ht⟩

theorem within_forStart (h : inner.Within m n) (hs : s.At m) :
    Ends (forStart inner) s
      (fun a t => (∀ x ∈ a, x.outline.Within (n + 1) m) ∧ t.At m) State.InOrder := by
  refine Ends.peek_bind ?_
  split
  · exact Ends.bind (within_declaration h _ hs) fun a t ⟨ha, ht⟩ =>
      Ends.pure ⟨by simpa [ForStart.outline] using ha, ht⟩
  · exact Ends.bind (within_expressionUnless h hs) fun a t ⟨ha, ht⟩ =>
      Ends.pure ⟨by simpa [ForStart.outline] using ha, ht⟩

/-- What is left of a statement when its parts have been read: perhaps a semicolon. -/
theorem within_ending {f : Span → Stmt} {start : Nat} {Q : Stmt → Prop} (hs : s.At m)
    (hf : ∀ span, Q (f span)) :
    Ends (do
      let _ ← eat (.punctuator .semicolon)
      return f (← spanFrom start)) s (fun a t => Q a ∧ t.InOrder) State.InOrder :=
  Ends.eat_bind (fun _ => Ends.spanFrom_bind (Ends.pure ⟨hf _, hs.advance.inOrder⟩))
    fun _ => Ends.spanFrom_bind (Ends.pure ⟨hf _, hs.inOrder⟩)

theorem within_function (h : inner.Within m n) (hs : s.At m) :
    Ends (function inner) s (fun a t => a.outline.Within (n + 2) (m + 1) ∧ t.InOrder)
      State.InOrder := by
  refine Ends.currentSpan_bind (Ends.advance_bind
    (Ends.ident_bind (fun _ name _ _ => ?_) hs.advance.inOrder))
  refine Ends.bind (within_parameters h hs.advance.advance) fun ps t ⟨hps, ht⟩ => ?_
  refine Ends.bind (Ends.optionalAfter h.typeExpr (fun t ht _ => ht.advance) ht)
    fun type u ⟨htype, hu⟩ => ?_
  refine Ends.bind (within_block h hu) fun (body, bodySpan) v ⟨hbody, hv⟩ => ?_
  refine Ends.spanFrom_bind (Ends.pure ⟨.function rfl rfl ?_ hbody, hv.inOrder⟩)
  simpa [Signature.outlines, or_imp, forall_and] using ⟨Ident.within_outline _, hps, htype⟩

theorem within_ifStatement (h : inner.Within m n) (hs : s.At m) :
    Ends (ifStatement inner) s (fun a t => a.outline.Within (n + 2) (m + 1) ∧ t.InOrder)
      State.InOrder := by
  refine Ends.currentSpan_bind (Ends.advance_bind ?_)
  refine Ends.bind (within_condition h hs.advance) fun c t ⟨hc, ht⟩ => ?_
  refine Ends.bind (h.branch ht) fun yes u ⟨hyes, hu⟩ => ?_
  refine Ends.eat_bind (fun _ => ?_)
    fun _ => Ends.spanFrom_bind (Ends.pure ⟨.succ (by simpa using ⟨hc, hyes⟩), hu.inOrder⟩)
  refine Ends.bind (h.branch hu.advance) fun no v ⟨hno, hv⟩ => ?_
  exact Ends.spanFrom_bind (Ends.pure ⟨.succ (by simpa using ⟨hc, hyes, hno⟩), hv.inOrder⟩)

theorem within_whileStatement (h : inner.Within m n) (hs : s.At m) :
    Ends (whileStatement inner) s (fun a t => a.outline.Within (n + 2) (m + 1) ∧ t.InOrder)
      State.InOrder := by
  refine Ends.currentSpan_bind (Ends.advance_bind ?_)
  refine Ends.bind (within_condition h hs.advance) fun c t ⟨hc, ht⟩ => ?_
  refine Ends.bind (h.branch ht) fun body u ⟨hbody, hu⟩ => ?_
  exact Ends.spanFrom_bind (Ends.pure ⟨.succ (by simpa using ⟨hc, hbody⟩), hu.inOrder⟩)

theorem within_forStatement (h : inner.Within m n) (hs : s.At m) :
    Ends (forStatement inner) s (fun a t => a.outline.Within (n + 2) (m + 1) ∧ t.InOrder)
      State.InOrder := by
  refine Ends.currentSpan_bind (Ends.advance_bind
    (Ends.expect_bind (fun _ => ?_) fun _ => hs.advance.inOrder))
  refine Ends.bind (within_forStart h hs.advance.advance) fun first t ⟨hfirst, ht⟩ => ?_
  refine Ends.expect_bind (fun _ => ?_) fun _ => ht.inOrder
  refine Ends.bind (within_expressionUnless h ht.advance) fun c u ⟨hc, hu⟩ => ?_
  refine Ends.expect_bind (fun _ => ?_) fun _ => hu.inOrder
  refine Ends.bind (within_expressionUnless h hu.advance) fun update v ⟨hupdate, hv⟩ => ?_
  refine Ends.expect_bind (fun _ => ?_) fun _ => hv.inOrder
  refine Ends.bind (h.branch hv.advance) fun body w ⟨hbody, hw⟩ => ?_
  refine Ends.spanFrom_bind (Ends.pure ⟨.succ ?_, hw.inOrder⟩)
  simpa [or_imp, forall_and] using ⟨hfirst, hc, hupdate, hbody⟩

theorem within_returnStatement (h : inner.Within m n) (hs : s.At m) :
    Ends (returnStatement inner) s (fun a t => a.outline.Within (n + 2) (m + 1) ∧ t.InOrder)
      State.InOrder := by
  refine Ends.currentSpan_bind (Ends.advance_bind (Ends.peek_bind ?_))
  have hvalue : ∀ (value : Option Expr) span, (∀ x ∈ value, x.outline.Within (n + 1) m) →
      (Stmt.returns value span).outline.Within (n + 2) (m + 1) :=
    fun value span hvalue => .succ (by simpa using hvalue)
  split
  · exact within_ending hs.advance fun span => hvalue none span (by simp)
  · refine Ends.bind (P := fun value t => (∀ x ∈ value, x.outline.Within (n + 1) m) ∧ t.At m) ?_
      fun value t ⟨hx, ht⟩ => within_ending ht fun span => hvalue value span hx
    exact Ends.bind (h.expression _ hs.advance) fun a t ⟨ha, ht⟩ =>
      Ends.pure ⟨by simpa using ha, ht⟩

theorem within_statementWith (h : inner.Within m n) (hs : s.At m) :
    Ends (statementWith inner) s (fun a t => a.outline.Within (n + 2) (m + 1) ∧ t.InOrder)
      State.InOrder := by
  refine Ends.peek_bind ?_
  split
  · refine Ends.currentSpan_bind (Ends.bind (within_declaration h _ hs) fun d t ⟨hd, ht⟩ => ?_)
    exact within_ending ht fun span => .succ (by simpa using hd)
  · split
    · exact within_function h hs
    · refine Ends.bind (within_block h hs) fun (body, span) t ⟨hbody, ht⟩ => ?_
      have hblock : (Stmt.block body span).outline.Within (n + 1) (m + 1) := .succ hbody
      exact Ends.pure ⟨hblock.mono (Nat.le_succ _) (Nat.le_refl _), ht.inOrder⟩
    · exact within_ifStatement h hs
    · exact within_whileStatement h hs
    · exact within_forStatement h hs
    · exact within_returnStatement h hs
    · refine Ends.currentSpan_bind (Ends.bind (h.expression s hs) fun e t ⟨he, ht⟩ => ?_)
      exact within_ending ht fun span => .succ (by simpa using he)

end Statements

/-- The parts of a statement that is read with the room `m + 1`. -/
theorem within_parts {depth m : Nat}
    (hstatement : ∀ s : State, s.InOrder → Ends (statement depth) s
      (fun a t => a.outline.Within (statementLevels s.room) s.room ∧ t.At s.room)
      (State.At · s.room)) :
    Parts.Within ⟨typeExpr depth, expression depth .assignment, statement depth⟩ m
      (statementLevels (m + 1) - 2) := by
  have htriangle : triangle m ≤ statementLevels (m + 1) := Nat.le_max_left _ _
  have hstep := statementLevels_add_two m
  have hpart : ∀ o : Outline, o.Nested m → o.Within (statementLevels (m + 1) - 2 + 1) m :=
    fun o ho => ho.within.mono (by omega) (Nat.sub_le _ _)
  refine ⟨fun s hs => ?_, fun s hs => ?_, fun s hs => ?_⟩
  · refine (within_typeExpr depth s hs.inOrder).imp (fun a t ⟨⟨ha, hroom⟩, _, ht⟩ => ?_) fun _ => id
    rw [hs.room_eq] at ha hroom
    exact ⟨hpart _ ha, hroom, ht.inOrder⟩
  · refine (within_expression depth .assignment s hs.inOrder).imp (fun a t ⟨ha, ht⟩ => ?_) fun _ => id
    rw [hs.room_eq] at ha ht
    exact ⟨hpart _ ha, ht⟩
  · have hinner := hstatement s hs.inOrder
    rw [hs.room_eq] at hinner
    exact hinner.imp (fun a t ⟨ha, ht⟩ => ⟨ha.mono (by omega) (Nat.le_refl _), ht⟩) fun _ => id

/-- **A statement stays within the room that it is read with.** -/
theorem within_statement : ∀ (depth : Nat) (s : State), s.InOrder → Ends (statement depth) s
    (fun a t => a.outline.Within (statementLevels s.room) s.room ∧ t.At s.room) (State.At · s.room)
  | 0, _, hs => Ends.fail ⟨rfl, hs⟩
  | depth + 1, s, hs => by
    refine Ends.nested (fun hroom => ?_) ⟨rfl, hs⟩
    -- the parts have one level less than the statement, which takes it for its own node
    have hlevels := statementLevels_add_two (s.room - 1)
    have hparts := within_parts (m := s.room - 1) (within_statement depth)
    rw [Nat.sub_add_cancel (Nat.pos_of_ne_zero hroom)] at hlevels hparts
    refine (within_statementWith hparts ⟨rfl, hs.withRoom _⟩).imp (fun a t ⟨ha, ht⟩ => ?_)
      fun t ht => ⟨rfl, ht.withRoom _⟩
    exact ⟨ha.mono (by omega) (by omega), rfl, ht.withRoom _⟩

end Parse

/-! ### Scripts -/

namespace Script

theorem within_readBody (text : String) : ∀ stmt ∈ (readBody text).1,
    stmt.outline.Within (Parse.statementLevels nestingLimit) nestingLimit := by
  have hstatement : ∀ t : Parse.State, t.At nestingLimit → Parse.Ends (Parse.statement nestingLimit) t
      (fun a u => a.outline.Within (Parse.statementLevels nestingLimit) nestingLimit ∧
        u.At nestingLimit) (Parse.State.At · nestingLimit) := by
    intro t ht
    have hwithin := Parse.within_statement nestingLimit t ht.inOrder
    rwa [ht.room_eq] at hwithin
  have h : Parse.Ends (Parse.statements (Parse.statement nestingLimit) none) (.ofText text)
      (fun body t => (∀ a ∈ body, a.outline.Within (Parse.statementLevels nestingLimit) nestingLimit) ∧
        t.At nestingLimit) fun _ => True :=
    Parse.Ends.statements (fun t ht => ht.advance) hstatement (fun e t ht => ht.note e)
      ⟨rfl, .ofText text⟩
  unfold readBody
  split
  next body s hread => exact (h.of_ok hread).1
  next => simp

/-- **The tree of a text stays within the limit, but for its free levels, and has at most
`triangle (nestingLimit - 1)` levels.** -/
theorem within_recover (name text : String) :
    (recover name text).1.outline.Within (triangle (nestingLimit - 1)) nestingLimit := by
  have hlimit : Parse.statementLevels nestingLimit = triangle (nestingLimit - 1) := by decide
  rw [recover_eq, ← hlimit]
  refine .plain rfl ?_
  rw [Stmt.outlines_eq]
  simpa using within_readBody text

end Script

end ScriptLint
