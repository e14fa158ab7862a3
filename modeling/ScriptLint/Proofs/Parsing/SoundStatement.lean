import ScriptLint.Proofs.Parsing.Ends
import ScriptLint.Proofs.Parsing.SoundExpression
import ScriptLint.Proofs.Token.Places
/-!
# Statements and scripts are read as they are written

A statement is derived from the lexemes it was read from, except where an
error was noted: then some lexemes were passed over. A script that is read
without errors is therefore derived from all the lexemes of its text.

Key definitions: `Grew`, `StatementAt`, `StatementsAt`.
Key theorems: `reads_statements`, `reads_statement`, `Script.parse_derives`.
-/

namespace ScriptLint.Parse

variable {s : State}

/-! ### Errors and what is passed over -/

/-- More errors have been noted at `t` than at `s`. -/
def Grew (s t : State) : Prop :=
  s.log.length < t.log.length

theorem Grew.left {t u : State} {us : List Lexeme} (h : Grew s t) (hu : Advances t us u) :
    Grew s u :=
  Nat.lt_of_lt_of_le h hu.log_suffix.length_le

theorem Grew.right {t u : State} {ws : List Lexeme} (hu : Grew t u) (h : Advances s ws t) :
    Grew s u :=
  Nat.lt_of_le_of_lt h.log_suffix.length_le hu

/-- What a statement read from `s` to `t` is. Lexemes were passed over in it only if an error was
noted. -/
def StatementAt (s : State) (stmt : Stmt) (ws : List Lexeme) (t : State) : Prop :=
  stmt.Spells (Grew s t) ws ∧ stmt.Grouped

/-- The same for the statements of a list. -/
def StatementsAt (s : State) (body : List Stmt) (ws : List Lexeme) (t : State) : Prop :=
  Stmt.SpellsAll (Grew s t) body ws ∧ Stmt.GroupedAll body

theorem reads_advance : Reads s advance fun _ ws _ => s.token? ≠ none → ws ≠ [] := by
  intro ha
  cases h : s.token? with
  | none =>
    have hahead := State.ahead_eq_nil ha.settled h
    have hadv : s.advance = s := by simp [State.advance, hahead]
    show ∃ us, Advances s us s.advance ∧ _
    rw [hadv]
    exact ⟨[], ha, fun hne => absurd rfl hne⟩
  | some token =>
    obtain ⟨w, rest, h1, -, -⟩ := State.ahead_of_token? h
    exact ⟨[w], advances_advance h1, fun _ => by simp⟩

theorem reads_synchronize : Reads s synchronize fun _ _ _ => True := by
  refine reads_loop (I := fun _ _ _ => True) (fun _ ws t _ => ?_) () trivial
  refine From.peek_bind ?_
  split
  next => exact From.pure fun _ => trivial
  next token h =>
    split
    next hsemi => exact From.advance_bind h fun _ _ _ _ _ => From.pure fun _ => trivial
    next =>
      split
      next => exact From.pure fun _ => trivial
      next => exact From.advance_bind h fun _ _ _ _ _ => From.pure fun _ => ⟨trivial, by simp⟩

/-- A statement that is given up is noted, and at least one lexeme of it is passed over. -/
theorem reads_recover (start : Nat) (e : SyntaxError) :
    Reads s (recover start e) fun _ ws t =>
      Grew s t ∧ (s.span.start = start → s.token? ≠ none → ws ≠ []) := by
  refine From.note_bind (From.currentSpan_bind ?_)
  have hgrew : Grew s (s.note e) := Nat.lt_succ_self _
  split
  next =>
    refine From.bind reads_advance fun _ us u hne hu => ?_
    refine From.last reads_synchronize fun _ vs v _ hv => ⟨(hgrew.left hu).left hv, fun _ htok => ?_⟩
    have := hne htok
    simp [this]
  next hstart =>
    refine From.last reads_synchronize fun _ vs v _ hv => ⟨hgrew.left hv, fun heq => ?_⟩
    exact absurd heq hstart

theorem reads_statements {statement : Parse Stmt} {close : Option Token}
    (hstatement : ∀ t, Reads t statement (StatementAt t)) :
    Reads s (statements statement close) fun body ws t =>
      StatementsAt s body ws t ∧ (t.token? = none ∨ t.token? = close) := by
  refine reads_loop (I := StatementsAt s) (fun body ws t hI => From.intro fun ht => ?_) []
    ⟨.nil, trivial⟩
  refine From.peek_bind ?_
  split
  next hclose => exact From.pure fun _ => ⟨hI, hclose⟩
  next hopen =>
    refine From.eat_bind (fun w u hw hu => From.pure fun _ => ⟨⟨?_, hI.2⟩, by simp⟩) fun _ => ?_
    · have hbody := hI.1.mono fun h => h.left hu
      simpa using hbody.append (.pass (.inl hw) .nil)
    refine From.currentSpan_bind ?_
    refine From.bind (reads_attempt (hstatement t)) fun r us u hr hu => ?_
    have hbody := hI.1.mono fun h => h.left hu
    split
    next stmt =>
      obtain ⟨hspells, hgrouped⟩ := hr stmt rfl
      refine From.pure fun _ => ⟨⟨?_, hI.2.append ⟨hgrouped, trivial⟩⟩, ?_⟩
      · exact hbody.append (.singleton (hspells.mono fun h => h.right ht))
      · have := List.length_pos_iff.mpr hspells.ne_nil
        simp only [List.length_append]
        omega
    next e =>
      refine From.bind (reads_recover t.span.start e) fun _ vs v hv hadv => From.pure fun _ => ?_
      have hgrew : Grew s v := (hv.1.right hu).right ht
      have hmore : us ++ vs ≠ [] := by
        -- a statement that failed at once leaves the lexeme for `recover` to pass over
        rintro h
        obtain ⟨rfl, rfl⟩ := List.append_eq_nil_iff.mp h
        have hspan : u.span = t.span := by simp [State.span, hu.ahead_eq, hu.stop_eq]
        have htok : u.token? = t.token? := by simp [State.token?, hu.ahead_eq]
        exact hv.2 (by rw [hspan]) (by rw [htok]; exact fun h => hopen (.inl h)) rfl
      refine ⟨⟨?_, hI.2⟩, ?_⟩
      · have := (hbody.mono fun h => h.left hadv).append (Stmt.SpellsAll.of_junk hgrew (us ++ vs))
        simpa using this
      · have := List.length_pos_iff.mpr hmore
        simp only [List.length_append] at this ⊢
        omega

/-! ### The kinds of statements -/

/-- The readers of the parts of a statement are sound. -/
structure SoundParts (inner : Parts) : Prop where
  typeExpr : ∀ t, Reads t inner.typeExpr fun a ws _ => a.Spells ws
  expression : ∀ t, Reads t inner.expression fun e ws _ => e.Spells ws ∧ e.Grouped
  statement : ∀ t, Reads t inner.statement (StatementAt t)

section Kinds

variable {inner : Parts}

theorem reads_block {statement : Parse Stmt} (hstatement : ∀ t, Reads t statement (StatementAt t)) :
    Reads s (block statement) fun p ws t => ∃ l us r, ws = l :: (us ++ [r]) ∧ l.IsSign .leftBrace ∧
      StatementsAt s p.1 us t ∧ r.IsSign .rightBrace ∧ p.2 = extent ws := by
  refine From.currentSpan_bind (From.expect_bind fun l t hl ht => ?_)
  refine From.bind (reads_statements hstatement) fun body us u hbody hu => ?_
  refine From.expect_bind fun r v hr hv => From.spanFrom_bind (From.pure fun hadv => ?_)
  refine ⟨l, us, r, by simp, hl, ⟨?_, hbody.1.2⟩, hr, hadv.extent_eq (by simp)⟩
  exact hbody.1.1.mono fun h => (h.right ht).left hv

theorem reads_declarator (hinner : SoundParts inner) :
    Reads s (declarator inner) fun d ws _ => d.Spells ws ∧ ∀ e ∈ d.initializer, e.Grouped := by
  refine From.ident_bind fun name w t hname hspan ht => ?_
  refine From.bind (reads_optionalAfter hinner.typeExpr) fun type ts u htype hu => ?_
  refine From.bind (reads_optionalAfter hinner.expression) fun value es v hvalue hv => ?_
  refine From.spanFrom_bind (From.pure fun hadv => ?_)
  obtain ⟨hvalue, hgrouped⟩ := hvalue.and
  have hext := hadv.extent_eq (by simp)
  rw [← hspan, ← hname.2] at hext
  rw [hext]
  exact ⟨by simpa using Declarator.Spells.mk hname htype hvalue, hgrouped⟩

theorem reads_declaration (hinner : SoundParts inner) {kind : DeclKind}
    (hkind : s.token?.bind DeclKind.ofToken? = some kind) :
    Reads s (declaration inner kind) fun d ws _ => d.Spells ws ∧ d.Grouped := by
  obtain ⟨token, htok, hkind⟩ := Option.bind_eq_some_iff.mp hkind
  refine From.currentSpan_bind (From.advance_bind htok fun w t hw _ _ => ?_)
  refine From.bind (reads_separated fun t => reads_declarator hinner) fun ds us u hds hu => ?_
  refine From.spanFrom_bind (From.pure fun hadv => ?_)
  rw [hadv.extent_eq (by simp)]
  exact ⟨.mk (by rw [hw]; exact hkind) hds.and.1, hds.and.2⟩

theorem reads_parameter (hinner : SoundParts inner) :
    Reads s (parameter inner) fun p ws _ => p.Spells ws := by
  refine From.ident_bind fun name w t hname hspan ht => ?_
  refine From.bind (reads_optionalAfter hinner.typeExpr) fun type ts u htype hu => ?_
  refine From.spanFrom_bind (From.pure fun hadv => ?_)
  have hext := hadv.extent_eq (by simp)
  rw [← hspan, ← hname.2] at hext
  rw [hext]
  exact Parameter.Spells.mk hname htype

theorem reads_parameters (hinner : SoundParts inner) :
    Reads s (parameters inner) fun ps ws _ => ∃ l us r, ws = l :: (us ++ [r]) ∧
      l.IsSign .leftParen ∧ Parameter.SpellsAll ps us ∧ r.IsSign .rightParen := by
  refine From.expect_bind fun l t hl _ => From.peek_bind ?_
  split
  next =>
    refine From.bind (Q := fun ps us _ => Parameter.SpellsAll ps us) (From.pure fun _ => .nil)
      fun ps us u hps _ => ?_
    exact From.expect_bind fun r v hr _ => From.pure fun _ => ⟨l, us, r, by simp, hl, hps, hr⟩
  next =>
    refine From.bind (reads_separated fun t => reads_parameter hinner) fun ps us u hps _ => ?_
    exact From.expect_bind fun r v hr _ =>
      From.pure fun _ => ⟨l, us, r, by simp, hl, .some hps, hr⟩

theorem reads_function (hinner : SoundParts inner)
    (htok : s.token? = some (.keyword .functionWord)) :
    Reads s (function inner) (StatementAt s) := by
  refine From.currentSpan_bind (From.advance_bind htok fun f t hf _ ht => ?_)
  refine From.ident_bind fun name w u hname _ hu => ?_
  refine From.bind (reads_parameters hinner) fun ps us v hps hv => ?_
  refine From.bind (reads_optionalAfter hinner.typeExpr) fun type ts x htype hx => ?_
  refine From.bind (reads_block hinner.statement) fun p ys y hp hy => ?_
  obtain ⟨body, bodySpan⟩ := p
  refine From.spanFrom_bind (From.pure fun hadv => ?_)
  obtain ⟨l, vs, r, rfl, hl, hps, hr⟩ := hps
  obtain ⟨lb, bs, rb, rfl, hlb, hbody, hrb, hspan⟩ := hp
  simp only at hspan
  rw [hadv.extent_eq (by simp), hspan]
  have hbefore := ((ht.trans hu).trans hv).trans hx
  have hfunction := Stmt.Spells.function (Signature.Spells.mk hf hname hl hps hr htype) hlb
    (hbody.1.mono fun h => h.right hbefore) hrb
  exact ⟨by simpa using hfunction, hbody.2⟩

theorem reads_condition (hinner : SoundParts inner) :
    Reads s (condition inner) fun e ws _ => ∃ l us r, ws = l :: (us ++ [r]) ∧
      l.IsSign .leftParen ∧ e.Spells us ∧ r.IsSign .rightParen ∧ e.Grouped := by
  refine From.expect_bind fun l t hl _ => ?_
  refine From.bind (hinner.expression t) fun e us u he _ => ?_
  exact From.expect_bind fun r v hr _ =>
    From.pure fun _ => ⟨l, us, r, by simp, hl, he.1, hr, he.2⟩

theorem reads_ifStatement (hinner : SoundParts inner) (htok : s.token? = some (.keyword .ifWord)) :
    Reads s (ifStatement inner) (StatementAt s) := by
  refine From.currentSpan_bind (From.advance_bind htok fun i t hi _ ht => ?_)
  refine From.bind (reads_condition hinner) fun c cs u hc hu => ?_
  obtain ⟨l, cs, r, rfl, hl, hc, hr, hcg⟩ := hc
  refine From.bind (hinner.statement u) fun stmt ws v hs hv => ?_
  have hthen := hs.1.mono fun h => h.right (ht.trans hu)
  refine From.eat_bind (fun e x he hx => ?_) fun _ => From.spanFrom_bind (From.pure fun hadv => ?_)
  · refine From.bind (hinner.statement x) fun stmt' us y hs' hy => ?_
    refine From.spanFrom_bind (From.pure fun hadv => ?_)
    rw [hadv.extent_eq (by simp)]
    have hx' := ((ht.trans hu).trans hv).trans hx
    have hboth := Stmt.Spells.ifElse hi hl hc hr (hthen.mono fun h => (h.left hx).left hy) he
      (hs'.1.mono fun h => h.right hx')
    exact ⟨by simpa using hboth, hcg, hs.2, hs'.2⟩
  · rw [hadv.extent_eq (by simp)]
    exact ⟨by simpa using Stmt.Spells.ifThen hi hl hc hr hthen, hcg, hs.2⟩

theorem reads_whileStatement (hinner : SoundParts inner)
    (htok : s.token? = some (.keyword .whileWord)) :
    Reads s (whileStatement inner) (StatementAt s) := by
  refine From.currentSpan_bind (From.advance_bind htok fun i t hi _ ht => ?_)
  refine From.bind (reads_condition hinner) fun c cs u hc hu => ?_
  obtain ⟨l, cs, r, rfl, hl, hc, hr, hcg⟩ := hc
  refine From.bind (hinner.statement u) fun stmt ws v hs hv => ?_
  refine From.spanFrom_bind (From.pure fun hadv => ?_)
  rw [hadv.extent_eq (by simp)]
  have hbody := hs.1.mono fun h => h.right (ht.trans hu)
  exact ⟨by simpa using Stmt.Spells.whileLoop hi hl hc hr hbody, hcg, hs.2⟩

theorem reads_expressionUnless (hinner : SoundParts inner) (sign : Punctuator) :
    Reads s (expressionUnless inner sign) fun e ws _ =>
      Perhaps Expr.Spells e ws ∧ ∀ f ∈ e, f.Grouped := by
  refine From.peek_bind ?_
  split
  next => exact From.pure fun _ => ⟨.none, by simp⟩
  next =>
    exact From.bind (hinner.expression s) fun e us u he _ =>
      From.pure fun _ => ⟨.some he.1, by simpa using he.2⟩

theorem reads_forStart (hinner : SoundParts inner) :
    Reads s (forStart inner) fun f ws _ =>
      Perhaps ForStart.Spells f ws ∧ ∀ g ∈ f, g.Grouped := by
  refine From.peek_bind ?_
  split
  next kind hkind =>
    exact From.bind (reads_declaration hinner hkind) fun d us u hd _ =>
      From.pure fun _ => ⟨.some (.declaration hd.1), by simpa [ForStart.Grouped] using hd.2⟩
  next =>
    refine From.bind (reads_expressionUnless hinner _) fun e us u he _ => From.pure fun _ => ?_
    obtain ⟨he, hgrouped⟩ := he
    cases he with
    | none => exact ⟨.none, by simp⟩
    | some he => exact ⟨.some (.expression he), by simpa [ForStart.Grouped] using hgrouped⟩

theorem reads_forStatement (hinner : SoundParts inner) (htok : s.token? = some (.keyword .forWord)) :
    Reads s (forStatement inner) (StatementAt s) := by
  refine From.currentSpan_bind (From.advance_bind htok fun i t hi _ ht => ?_)
  refine From.expect_bind fun l u hl hu => ?_
  refine From.bind (reads_forStart hinner) fun f fs v hf hv => ?_
  refine From.expect_bind fun a x ha hx => ?_
  refine From.bind (reads_expressionUnless hinner _) fun c cs y hc hy => ?_
  refine From.expect_bind fun b z hb hz => ?_
  refine From.bind (reads_expressionUnless hinner _) fun e es t' he ht' => ?_
  refine From.expect_bind fun r u' hr hu' => From.intro fun hbefore => ?_
  refine From.bind (hinner.statement u') fun stmt ws v' hs hv' => ?_
  refine From.spanFrom_bind (From.pure fun hadv => ?_)
  rw [hadv.extent_eq (by simp)]
  have hbody := hs.1.mono fun h => h.right hbefore
  have hfor := Stmt.Spells.forLoop hi hl hf.1 ha hc.1 hb he.1 hr hbody
  exact ⟨by simpa using hfor, hf.2, hc.2, he.2, hs.2⟩

/-- The semicolon that may end a statement. -/
theorem reads_ended {ws : List Lexeme} {t : State} {α : Type} {f : Bool → Parse α}
    {R : α → List Lexeme → State → Prop}
    (hf : ∀ b us u, Ended ws us → From s us u (f b) R) :
    From s ws t (eat (.punctuator .semicolon) >>= f) R :=
  From.eat_bind (fun _ u hw _ => hf true _ u (.semicolon hw)) fun _ => hf false _ t .bare

theorem reads_returnStatement (hinner : SoundParts inner)
    (htok : s.token? = some (.keyword .returnWord)) :
    Reads s (returnStatement inner) (StatementAt s) := by
  refine From.currentSpan_bind (From.advance_bind htok fun w t hw _ _ => From.peek_bind ?_)
  have hend : ∀ value ws u, Perhaps Expr.Spells value ws → (∀ e ∈ value, e.Grouped) →
      From s (w :: ws) u (do
        let _ ← eat (.punctuator .semicolon)
        return .returns value (← spanFrom s.span.start)) (StatementAt s) := by
    intro value ws u hvalue hgrouped
    refine reads_ended fun _ us v hus => From.spanFrom_bind (From.pure fun hadv => ?_)
    rw [hadv.extent_eq (hus.ne_nil (by simp))]
    exact ⟨.returns hw hvalue hus, hgrouped⟩
  split
  next => exact hend none [] t .none (by simp)
  next =>
    refine From.bind (Q := fun e ws _ => Perhaps Expr.Spells e ws ∧ ∀ f ∈ e, f.Grouped) ?_
      fun value us u hvalue _ => hend value us u hvalue.1 hvalue.2
    exact From.bind (hinner.expression t) fun e us u he _ =>
      From.pure fun _ => ⟨.some he.1, by simpa using he.2⟩

theorem reads_variableStatement (hinner : SoundParts inner) {kind : DeclKind}
    (hkind : s.token?.bind DeclKind.ofToken? = some kind) :
    Reads s (variableStatement inner kind) (StatementAt s) := by
  refine From.currentSpan_bind ?_
  refine From.bind (reads_declaration hinner hkind) fun d us t hd _ => ?_
  refine reads_ended fun _ vs u hvs => From.spanFrom_bind (From.pure fun hadv => ?_)
  rw [hadv.extent_eq (hvs.ne_nil (by cases hd.1; simp))]
  exact ⟨.variables hd.1 hvs, hd.2⟩

theorem reads_expressionStatement (hinner : SoundParts inner) :
    Reads s (expressionStatement inner) (StatementAt s) := by
  refine From.currentSpan_bind ?_
  refine From.bind (hinner.expression s) fun e us t he _ => ?_
  refine reads_ended fun _ vs u hvs => From.spanFrom_bind (From.pure fun hadv => ?_)
  rw [hadv.extent_eq (hvs.ne_nil he.1.ne_nil)]
  exact ⟨.expression he.1 hvs, he.2⟩

theorem reads_statementWith (hinner : SoundParts inner) :
    Reads s (statementWith inner) (StatementAt s) := by
  refine From.peek_bind ?_
  split
  next kind hkind => exact reads_variableStatement hinner hkind
  next =>
    split
    next htok => exact reads_function hinner htok
    next htok =>
      refine From.bind (reads_block hinner.statement) fun p ws t hp _ => ?_
      obtain ⟨body, span⟩ := p
      obtain ⟨l, us, r, rfl, hl, hbody, hr, hspan⟩ := hp
      simp only at hspan
      rw [hspan]
      exact From.pure fun _ => ⟨.block hl hbody.1 hr, hbody.2⟩
    next htok => exact reads_ifStatement hinner htok
    next htok => exact reads_whileStatement hinner htok
    next htok => exact reads_forStatement hinner htok
    next htok => exact reads_returnStatement hinner htok
    next => exact reads_expressionStatement hinner

end Kinds

/-- **A statement is derived from the lexemes it was read from,** but for those that were passed
over with an error. -/
theorem reads_statement (depth : Nat) : ∀ s, Reads s (statement depth) (StatementAt s) := by
  induction depth with
  | zero => exact fun s => From.fail
  | succ depth ih =>
    have hinner : SoundParts ⟨typeExpr depth, expression depth .assignment, statement depth⟩ :=
      ⟨reads_typeExpr depth, fun t => From.last (reads_expression depth .assignment t)
        fun _ _ _ h _ => ⟨h.spells, h.grouped⟩, ih⟩
    exact fun s => reads_nested (fun _ _ _ _ h => h) fun r => reads_statementWith hinner

end ScriptLint.Parse

namespace ScriptLint

/-! ### Scripts -/

theorem Parse.faultCount_eq_zero : ∀ {items : List Scanned}, faultCount items = 0 →
    items = (lexemesOf items).map .ok
  | [], _ => rfl
  | .ok w :: items, h => by
    rw [faultCount_ok] at h
    rw [lexemesOf_ok, List.map_cons, ← faultCount_eq_zero h]
  | .error e :: items, h => by
    rw [faultCount_error] at h
    omega

namespace Script

/-- A list of statements never fails, so what is read is what it yields. -/
theorem readBody_run (text : String) :
    Parse.statements (Parse.statement nestingLimit) none (Parse.State.ofText text)
      = .ok (readBody text).1 (readBody text).2 := by
  have hends : Parse.Ends (Parse.statements (Parse.statement nestingLimit) none)
      (Parse.State.ofText text) _ fun _ => False :=
    Parse.Ends.statements (I := fun _ => True) (R := fun _ => True) (fun _ _ => trivial)
      (fun _ _ => Parse.Ends.of_forall (fun _ _ => ⟨trivial, trivial⟩) fun _ => trivial)
      (fun _ _ _ => trivial) trivial
  unfold readBody
  cases hrun : Parse.statements (Parse.statement nestingLimit) none (Parse.State.ofText text) with
  | ok body t => rfl
  | error e t => exact (hends.of_error hrun).elim

/-- **What is read is derived from the lexemes of the text,** but for those that were passed over
with an error, and nothing of the text is left. -/
theorem derives_readBody (text : String) :
    Parse.Advances (Parse.State.ofText text) (Parse.lexemesOf (scan text)) (readBody text).2 ∧
      Parse.StatementsAt (Parse.State.ofText text) (readBody text).1
        (Parse.lexemesOf (scan text)) (readBody text).2 ∧
      (readBody text).2.ahead = [] := by
  have hstart : (Parse.State.ofText text).Settled := Parse.leadingErrors_dropErrors _
  have hreads : Parse.Reads (Parse.State.ofText text)
      (Parse.statements (Parse.statement nestingLimit) none) _ :=
    Parse.reads_statements (Parse.reads_statement nestingLimit)
  have hrun := hreads (Parse.Advances.refl hstart)
  rw [readBody_run] at hrun
  obtain ⟨ws, hadv, hbody, hend⟩ := hrun
  have hahead : (readBody text).2.ahead = [] :=
    Parse.State.ahead_eq_nil hadv.settled (hend.elim id id)
  have hws : ws = Parse.lexemesOf (scan text) := by
    have hlex := hadv.lexemes_eq
    rw [Parse.State.lexemes_ofText, Parse.State.lexemes, hahead] at hlex
    simpa using hlex.symm
  rw [hws] at hadv hbody
  exact ⟨hadv, hbody, hahead⟩

/-- What is read without an error is derived from the whole text. -/
theorem spells_readBody {text : String} (h : (readBody text).2.log = []) :
    ∃ ws, tokenize text = .ok ws ∧ Stmt.SpellsAll False (readBody text).1 ws ∧
      Stmt.GroupedAll (readBody text).1 := by
  obtain ⟨hadv, ⟨hspells, hgrouped⟩, hahead⟩ := derives_readBody text
  -- all errors would have been noted, and none was
  have hfaults : Parse.faultCount (scan text) = 0 := by
    have hle := hadv.faults_le
    rw [Parse.State.faults_ofText, h, hahead] at hle
    exact Nat.le_zero.mp hle
  refine ⟨_, tokenize_eq_ok.mpr (Parse.faultCount_eq_zero hfaults), hspells.mono ?_, hgrouped⟩
  intro hgrew
  rw [Parse.Grew, h] at hgrew
  exact absurd hgrew (Nat.not_lt_zero _)

/-- **A script that is read strictly is a derivation of its whole text.** Read in the order of the
source, the tree spells all the tokens of the text and no others, with nothing passed over but
semicolons, and its operators are grouped by their precedences. -/
theorem parse_derives {name text : String} {script : Script} (h : parse name text = .ok script) :
    script.name = name ∧ script.text = text ∧
      ∃ ws, tokenize text = .ok ws ∧ Stmt.SpellsAll False script.body ws ∧
        Stmt.GroupedAll script.body := by
  obtain ⟨rfl, hlog⟩ := parse_eq_ok.mp h
  exact ⟨rfl, rfl, spells_readBody hlog⟩

/-- The theorem at a text with every kind of lexeme that leaves no trace in the tree. -/
theorem parse_derives_array_and_call : ∃ script,
    parse "a.ts" "let x: (number)[] = [-1 + 2 * 3,];; f(x,)" = .ok script ∧
      ∃ ws, tokenize "let x: (number)[] = [-1 + 2 * 3,];; f(x,)" = .ok ws ∧
        Stmt.SpellsAll False script.body ws ∧ Stmt.GroupedAll script.body := by
  have hok : (parse "a.ts" "let x: (number)[] = [-1 + 2 * 3,];; f(x,)").toBool = true := by
    decide +kernel
  cases h : parse "a.ts" "let x: (number)[] = [-1 + 2 * 3,];; f(x,)" with
  | error errors => simp [h, Except.toBool] at hok
  | ok script => exact ⟨script, rfl, (parse_derives h).2.2⟩

end Script

end ScriptLint
