import ScriptLint.Proofs.Parsing.CompleteStatement
import ScriptLint.Proofs.Parsing.Sequel
/-!
# Statements in a text that goes on

A statement in which nothing was given up is read as it was, and takes one
of the two semicolons behind the old end at most (`Continues`). The loop
over the statements of a text therefore comes to the same statements. Then
it passes over the semicolons that are left, and goes on behind them with
the levels and the errors it had at the end of the text.

Key definitions: `Sequel.Continues`, `Sequel.ReadsOn`, `Sequel.resume`.
Key theorems: `Sequel.continues_statement`, `Sequel.loop_statements`, `Sequel.loop_resume`.
-/

namespace ScriptLint.Parse.Sequel

variable {S : Sequel} {s t : State}

/-! ### Statements without errors -/

section Noted

variable {α β γ δ : Type} {R : α → β → Prop} {Q : γ → δ → Prop} {p : Parse γ} {q : Parse δ}

/-- A reader that takes one semicolon of the sequel at most, if it notes no error. -/
abbrev ContinuesAt (S : Sequel) (R : α → β → Prop) (s t : State) (p : Parse α) (q : Parse β) :
    Prop :=
  Follows (fun u => u.log = []) S.Meets R s t p q

/-- What `p` reads up to the end of a text without an error, `q` reads in the text that goes on. -/
def Continues (S : Sequel) (R : α → β → Prop) (p : Parse α) (q : Parse β) : Prop :=
  ∀ s t, S.Extends s t → S.ContinuesAt R s t p q

/-- A reader that leaves nothing noted found nothing noted. -/
theorem log_eq_nil_of_keeps (hp : Keeps p) (hs : s.Settled) {c : γ} {u : State}
    (hrun : p s = .ok c u) (hu : u.log = []) : s.log = [] := by
  have hreads := hp s (Advances.refl hs)
  rw [hrun] at hreads
  obtain ⟨_, hadv, -⟩ := hreads
  exact List.suffix_nil.mp (hu ▸ hadv.log_suffix)

/-- At the end of a text a reader stays there. -/
theorem token?_eq_none_of_keeps (hp : Keeps p) (hs : s.Settled) (hend : s.token? = none) {c : γ}
    {u : State} (hrun : p s = .ok c u) : u.token? = none := by
  have hreads := hp s (Advances.refl hs)
  rw [hrun] at hreads
  obtain ⟨_, hadv, -⟩ := hreads
  obtain ⟨read, hahead, -⟩ := hadv.consumed
  rw [State.ahead_eq_nil hs hend] at hahead
  simp [State.token?, (List.append_eq_nil_iff.mp hahead.symm).2]

/-- What stands behind a statement is read behind the semicolon that it took. -/
theorem ContinuesAt.bind {f : γ → Parse α} {g : δ → Parse β} (hs : s.Settled)
    (hp : S.ContinuesAt Q s t p q) (hkept : Keeps p) (hkeeps : ∀ c, Keeps (f c))
    (hf : ∀ c d u v, Q c d → S.Meets u v → S.ContinuesAt R u v (f c) (g d)) :
    S.ContinuesAt R s t (p >>= f) (q >>= g) := by
  intro a u hrun hu
  rw [bind_run] at hrun
  cases hps : p s with
  | error e u' => simp [hps] at hrun
  | ok c u' =>
    rw [hps] at hrun
    have hlog := log_eq_nil_of_keeps (hkeeps c) (hkept.settled hs hps) hrun hu
    obtain ⟨d, v', hq, hcd, hmeets⟩ := hp c u' hps hlog
    rw [bind_run, hq]
    exact hf c d u' v' hcd hmeets a u hrun hu

/-- A part with a sign behind it does not reach the end of the text, for the sign would not be
found there. -/
theorem Follows.bind_expect {C : State → Prop} {M : State → State → Prop} {sign : Punctuator}
    {f : γ → Parse α} {g : δ → Parse β} (h : S.Extends s t) (hkept : Keeps p)
    (hp : ∀ token, s.token? = some token → S.CarriesAt Q s t p q)
    (hf : ∀ c d u v, Q c d → S.Extends u v → Follows C M R u v (f c) (g d)) :
    Follows C M R s t (p >>= fun c => expect sign >>= fun _ => f c)
      (q >>= fun d => expect sign >>= fun _ => g d) := by
  cases htoken : s.token? with
  | some token =>
    refine Follows.bind (hp token htoken) fun c d u v hcd huv => ?_
    exact Follows.expect_bind huv fun u v huv => hf c d u v hcd huv
  | none =>
    intro a u hrun
    rw [bind_run] at hrun
    cases hps : p s with
    | error e u' => simp [hps] at hrun
    | ok c u' =>
      have hnone := token?_eq_none_of_keeps hkept h.settled htoken hps
      simp [hps, bind_run, expect_run, hnone] at hrun

/-- The semicolon that may end a statement is the first of the sequel if the text ends here. -/
theorem ContinuesAt.ended (h : S.Extends s t) {i j : Nat} {f : Span → α} {g : Span → β}
    (hR : ∀ i j, R (f i) (g j)) :
    S.ContinuesAt R s t
      (do
        let _ ← eat (.punctuator .semicolon)
        return f (← spanFrom i))
      (do
        let _ ← eat (.punctuator .semicolon)
        return g (← spanFrom j)) := by
  have hspan : ∀ u v, S.Meets u v →
      S.ContinuesAt R u v (do return f (← spanFrom i)) (do return g (← spanFrom j)) :=
    fun _ _ hmeets => Follows.spanned hmeets hR
  intro a u hrun hu
  rw [bind_run, eat_run] at hrun ⊢
  cases htoken : s.token? with
  | none =>
    rw [if_neg (by simp [htoken])] at hrun
    rw [if_pos (h.token?_of_none htoken)]
    exact hspan _ _ (.inr (h.passes_advance htoken)) a u hrun hu
  | some token =>
    rw [h.token?_of_some htoken]
    rw [htoken] at hrun
    by_cases hsign : some token = some (Token.punctuator .semicolon)
    · rw [if_pos hsign] at hrun ⊢
      exact hspan _ _ (.inl (h.advance htoken)) a u hrun hu
    · rw [if_neg hsign] at hrun ⊢
      exact hspan _ _ (.inl h) a u hrun hu

end Noted

/-! ### Lists of statements -/

section Lists

variable {p : Parse Stmt} {close : Option Token}

theorem length_advance_lt {token : Token} (h : s.token? = some token) :
    s.advance.ahead.length < s.ahead.length := by
  obtain ⟨w, rest, hahead, -, -⟩ := State.ahead_of_token? h
  have hadv := advances_advance hahead
  exact length_ahead_lt (Advances.refl hadv.settled_start) hadv (by simp)

/-- A round at a statement. -/
theorem round_statement (body : List Stmt) (hopen : ¬(s.token? = none ∨ s.token? = close))
    (h : s.token? ≠ some (.punctuator .semicolon)) :
    statementsRound p close body s =
      match p s with
      | .ok stmt u => .ok (.again (body ++ [stmt])) u
      | .error e u => (do
          recover s.span.start e
          return .again body : Parse (Round (List Stmt))) u := by
  show (if s.token? = none ∨ s.token? = close then _ else _ : Parse _) s = _
  rw [if_neg hopen, bind_run, eat_run, if_neg h]
  show (attempt p >>= _ : Parse _) s = _
  rw [bind_run, attempt_run]
  cases p s <;> rfl

/-- A round that consumed something is followed by the next one. -/
theorem loop_again {α : Type} {round : α → Parse (Round α)} {a b : α} {u : State}
    (h : round a s = .ok (.again b) u) (hlt : u.ahead.length < s.ahead.length) :
    loop round a s = loop round b u := by
  rw [loop_run, h]
  exact if_pos hlt

/-- The loop is over where its round is. -/
theorem loop_closed (body : List Stmt) (h : s.token? = none ∨ s.token? = close) :
    loop (statementsRound p close) body s = .ok body s := by
  have hround : statementsRound p close body s = .ok (.done body) s := by
    show (if s.token? = none ∨ s.token? = close then _ else _ : Parse _) s = _
    rw [if_pos h]
    rfl
  rw [loop_run, hround]

/-- A list in which a statement was given up has an error noted at its end. -/
theorem log_ne_nil_of_error (hkept : Keeps p) {body as : List Stmt} {e : SyntaxError} {x u : State}
    (hs : s.Settled) (hopen : ¬(s.token? = none ∨ s.token? = close))
    (hsign : s.token? ≠ some (.punctuator .semicolon)) (hps : p s = .error e x)
    (hrun : loop (statementsRound p close) as s = .ok body u) : u.log ≠ [] := by
  intro hu
  obtain ⟨_, hadv⟩ : ∃ us, Advances s us x := by simpa [hps] using hkept s (Advances.refl hs)
  have hrecover := reads_recover s.span.start e (Advances.refl hadv.settled)
  have hround := round_statement (p := p) as hopen hsign
  rw [hps] at hround
  simp only [bind_run] at hround
  rw [loop_run, hround] at hrun
  cases hrec : recover s.span.start e x with
  | error e' y => simp [hrec] at hrun
  | ok _ y =>
    rw [hrec] at hrun hrecover
    obtain ⟨_, hy, hgrew, -⟩ := hrecover
    -- what follows forgets no error
    have hlog : y.log = [] := by
      change (if y.ahead.length < s.ahead.length then
        loop (statementsRound p close) as y else .ok as y) = _ at hrun
      split at hrun
      · exact log_eq_nil_of_keeps (keeps_loop (keeps_statementsRound hkept) _) hy.settled hrun hu
      · cases hrun
        exact hu
    rw [Grew, hlog] at hgrew
    exact Nat.not_lt_zero _ hgrew

/-- Semicolons between statements are passed over. -/
theorem loop_semicolon (body : List Stmt) (hopen : ¬(s.token? = none ∨ s.token? = close))
    (h : s.token? = some (.punctuator .semicolon)) :
    loop (statementsRound p close) body s = loop (statementsRound p close) body s.advance := by
  have hround : statementsRound p close body s = .ok (.again body) s.advance := by
    show (if s.token? = none ∨ s.token? = close then _ else _ : Parse _) s = _
    rw [if_neg hopen, bind_run, eat_run, if_pos h]
    rfl
  exact loop_again hround (length_advance_lt h)

/-- **A list of statements that notes no error is read as it was.** In the text that goes on the
loop comes to the same statements and the same place, or behind the first semicolon, and goes on
from there. -/
theorem loop_statements (hreads : ∀ t, Reads t p (StatementAt t))
    (hp : S.Continues (Stmt.Alike anyPlace) p p) {as bs body : List Stmt} {u : State}
    (h : S.Extends s t) (hlist : List.Forall₂ (Stmt.Alike anyPlace) as bs)
    (hrun : loop (statementsRound p close) as s = .ok body u) (hu : u.log = []) :
    ∃ body' v, List.Forall₂ (Stmt.Alike anyPlace) body body' ∧ S.Meets u v ∧
      loop (statementsRound p close) bs t = loop (statementsRound p close) body' v := by
  have hkept : Keeps p := fun t => From.last (hreads t) fun _ _ _ _ _ => trivial
  -- by induction on what is ahead, which every round makes shorter
  induction hn : s.ahead.length using Nat.strongRecOn generalizing s t as bs with
  | ind n ih =>
    by_cases hopen : s.token? = none ∨ s.token? = close
    · rw [loop_closed as hopen] at hrun
      cases hrun
      exact ⟨bs, t, hlist, .inl h, rfl⟩
    obtain ⟨token, htoken⟩ := Option.ne_none_iff_exists'.mp (not_or.mp hopen).1
    have hopen' : ¬(t.token? = none ∨ t.token? = close) := by
      rw [h.token?_of_some htoken, ← htoken]
      exact hopen
    by_cases hsign : s.token? = some (.punctuator .semicolon)
    · -- a semicolon between two statements is passed over in both texts
      rw [loop_semicolon as hopen hsign] at hrun
      rw [loop_semicolon bs hopen' (h.token?_of_some hsign)]
      exact ih _ (hn ▸ length_advance_lt hsign) (h.advance hsign) hlist hrun rfl
    · have hround := round_statement (p := p) as hopen hsign
      have hround' := round_statement (p := p) bs hopen' (by rwa [h.token?_of_some htoken, ← htoken])
      have hread := hreads s (Advances.refl h.settled)
      cases hps : p s with
      | error e x => exact absurd hu (log_ne_nil_of_error hkept h.settled hopen hsign hps hrun)
      | ok stmt x =>
        rw [hps] at hread hround
        obtain ⟨ws, hadv, hstmt⟩ := hread
        have hlt : x.ahead.length < s.ahead.length :=
          length_ahead_lt (Advances.refl h.settled) hadv (List.length_pos_iff.mpr hstmt.1.ne_nil)
        rw [loop_again hround hlt] at hrun
        have hlog : x.log = [] :=
          log_eq_nil_of_keeps (keeps_loop (keeps_statementsRound hkept) _) hadv.settled hrun hu
        obtain ⟨stmt', y, hpt, hsame, hmeets⟩ := hp s t h stmt x hps hlog
        rw [hpt] at hround'
        have hlist' := List.rel_append hlist (.cons hsame .nil)
        rcases hmeets with hext | hpass
        · rw [loop_again hround' ((h.length_lt hext).mpr hlt)]
          exact ih _ (hn ▸ hlt) hext hlist' hrun rfl
        · -- nothing is left behind a statement that took the first semicolon
          have hlt' : y.ahead.length < t.ahead.length := by
            simp only [hpass.ahead, h.ahead, items, List.length_append, List.length_cons]
            omega
          rw [loop_closed _ (.inl hpass.token?.1)] at hrun
          cases hrun
          exact ⟨_, y, hlist', .inr hpass, loop_again hround' hlt'⟩

/-- A block ends in front of the end of the text. -/
theorem continues_block (hreads : ∀ t, Reads t p (StatementAt t))
    (hp : S.Continues (Stmt.Alike anyPlace) p p) :
    S.Continues (fun x y => List.Forall₂ (Stmt.Alike anyPlace) x.1 y.1) (block p) (block p) := by
  have hkept : Keeps p := fun t => From.last (hreads t) fun _ _ _ _ _ => trivial
  intro s t h
  refine Follows.currentSpan_bind fun i j => Follows.expect_bind h fun s t h a u hrun hu => ?_
  rw [bind_run] at hrun
  cases hbody : statements p (some (.punctuator .rightBrace)) s with
  | error e x => simp [hbody] at hrun
  | ok body x =>
    rw [hbody] at hrun
    have hclosing : Keeps (do
        expect .rightBrace
        return (body, ← spanFrom i.start) : Parse (List Stmt × Span)) := fun _ =>
      From.expect_bind fun _ _ _ _ => From.spanFrom_bind (From.pure fun _ => trivial)
    have hlog : x.log = [] :=
      log_eq_nil_of_keeps hclosing ((keeps_statements hkept).settled h.settled hbody) hrun hu
    have hclose : x.token? = some (.punctuator .rightBrace) := by
      by_contra hne
      simp [bind_run, expect_run, hne] at hrun
    obtain ⟨body', v, hlist, hmeets, hloop⟩ := loop_statements hreads hp h .nil hbody hlog
    have hext := hmeets.extends_of_token hclose
    have hend : S.ContinuesAt (fun x y => List.Forall₂ (Stmt.Alike anyPlace) x.1 y.1) x v
        (do
          expect .rightBrace
          return (body, ← spanFrom i.start))
        (do
          expect .rightBrace
          return (body', ← spanFrom j.start)) :=
      Follows.expect_bind hext fun _ _ h => Follows.spanned (.inl h) fun _ _ => hlist
    rw [bind_run, statements_eq, hloop, loop_closed _ (.inr (hext.token?_of_some hclose))]
    exact hend a u hrun hu

end Lists

/-! ### The kinds of statements -/

section Kinds

/-- The readers of the parts of a statement read what they read in a text that goes on. -/
structure ReadsOn (S : Sequel) (inner : Parts) : Prop where
  typeExpr : S.Carries (TypeExpr.Alike anyPlace) inner.typeExpr inner.typeExpr
  expression : S.Carries (Expr.Alike anyPlace) inner.expression inner.expression
  statement : S.Continues (Stmt.Alike anyPlace) inner.statement inner.statement
  sound : SoundParts inner

variable {inner : Parts}

theorem ReadsOn.kept (h : S.ReadsOn inner) : Keeps inner.statement :=
  fun t => From.last (h.sound.statement t) fun _ _ _ _ _ => trivial

theorem carries_declarator (hinner : S.ReadsOn inner) :
    S.Carries (Declarator.Alike anyPlace) (declarator inner) (declarator inner) := by
  intro s t h
  refine Follows.ident_bind h fun name name' u v hname huv => ?_
  refine Follows.bind (carries_optionalAfter hinner.typeExpr huv) fun type type' u v htype huv => ?_
  refine Follows.bind (carries_optionalAfter hinner.expression huv) fun e e' u v he huv => ?_
  exact Follows.spanned huv fun _ _ => ⟨hname, htype, he, trivial⟩

theorem carries_declaration (hinner : S.ReadsOn inner) (kind : DeclKind) (h : S.Extends s t)
    {token : Token} (htoken : s.token? = some token) :
    S.CarriesAt (Declaration.Alike anyPlace) s t (declaration inner kind)
      (declaration inner kind) := by
  refine Follows.currentSpan_bind fun i j => Follows.advance_bind h htoken fun u v huv => ?_
  refine Follows.bind (carries_separated (carries_declarator hinner) huv) fun ds ds' u v hds huv => ?_
  exact Follows.spanned huv fun _ _ => ⟨rfl, hds, trivial⟩

theorem carries_parameter (hinner : S.ReadsOn inner) :
    S.Carries (Parameter.Alike anyPlace) (parameter inner) (parameter inner) := by
  intro s t h
  refine Follows.ident_bind h fun name name' u v hname huv => ?_
  refine Follows.bind (carries_optionalAfter hinner.typeExpr huv) fun type type' u v htype huv => ?_
  exact Follows.spanned huv fun _ _ => ⟨hname, htype, trivial⟩

theorem carries_parameters (hinner : S.ReadsOn inner) :
    S.Carries (List.Forall₂ (Parameter.Alike anyPlace)) (parameters inner) (parameters inner) := by
  intro s t h
  refine Follows.expect_bind h fun s t h => ?_
  have hclose : ∀ ps qs u v, List.Forall₂ (Parameter.Alike anyPlace) ps qs → S.Extends u v →
      S.CarriesAt (List.Forall₂ (Parameter.Alike anyPlace)) u v
        (do expect .rightParen; return ps) (do expect .rightParen; return qs) :=
    fun _ _ _ _ hlist huv => Follows.expect_bind huv fun _ _ hext => Follows.pure hext hlist
  have hlist : S.CarriesAt (List.Forall₂ (Parameter.Alike anyPlace)) s t
      (separated .comma (parameter inner)) (separated .comma (parameter inner)) :=
    carries_separated (carries_parameter hinner) h
  refine Follows.peek_bind h (fun token htoken => ?_) fun _ => Follows.bind hlist hclose
  split
  · exact Follows.bind (Follows.pure h .nil) hclose
  · exact Follows.bind hlist hclose

theorem continues_function (hinner : S.ReadsOn inner) (h : S.Extends s t) {token : Token}
    (htoken : s.token? = some token) :
    S.ContinuesAt (Stmt.Alike anyPlace) s t (function inner) (function inner) := by
  refine Follows.currentSpan_bind fun i j => Follows.advance_bind h htoken fun u v huv => ?_
  refine Follows.ident_bind huv fun name name' u v hname huv => ?_
  refine Follows.bind (carries_parameters hinner u v huv) fun ps ps' u v hps huv => ?_
  refine Follows.bind (carries_optionalAfter hinner.typeExpr huv) fun type type' u v htype huv => ?_
  have hblock := continues_block hinner.sound.statement hinner.statement u v huv
  refine ContinuesAt.bind huv.settled hblock (keeps_block hinner.kept) (fun _ => keeps_spanFrom _) ?_
  exact fun _ _ u v hbody hmeets =>
    Follows.spanned hmeets fun _ _ => .function ⟨hname, hps, htype⟩ hbody trivial trivial

theorem carries_condition (hinner : S.ReadsOn inner) :
    S.Carries (Expr.Alike anyPlace) (condition inner) (condition inner) := by
  intro s t h
  refine Follows.expect_bind h fun u v huv => ?_
  refine Follows.bind (hinner.expression u v huv) fun a b u v hab huv => ?_
  exact Follows.expect_bind huv fun _ _ hext => Follows.pure hext hab

theorem continues_ifStatement (hinner : S.ReadsOn inner) (h : S.Extends s t) {token : Token}
    (htoken : s.token? = some token) :
    S.ContinuesAt (Stmt.Alike anyPlace) s t (ifStatement inner) (ifStatement inner) := by
  refine Follows.currentSpan_bind fun i j => Follows.advance_bind h htoken fun u v huv => ?_
  refine Follows.bind (carries_condition hinner u v huv) fun c d u v hcd huv => ?_
  refine ContinuesAt.bind huv.settled (hinner.statement u v huv) hinner.kept
    (keeps_else hinner.kept c _) fun x y u v hxy hmeets => ?_
  -- behind the first branch no `else` is gained, and none is lost
  refine Follows.eat_bind hmeets (fun u v huv => ?_)
    (Follows.spanned hmeets fun _ _ => .ifThen hcd hxy trivial)
  refine ContinuesAt.bind huv.settled (hinner.statement u v huv) hinner.kept
    (fun _ => keeps_spanFrom _) fun z w u v hzw hmeets => ?_
  exact Follows.spanned hmeets fun _ _ => .ifElse hcd hxy hzw trivial

theorem continues_whileStatement (hinner : S.ReadsOn inner) (h : S.Extends s t) {token : Token}
    (htoken : s.token? = some token) :
    S.ContinuesAt (Stmt.Alike anyPlace) s t (whileStatement inner) (whileStatement inner) := by
  refine Follows.currentSpan_bind fun i j => Follows.advance_bind h htoken fun u v huv => ?_
  refine Follows.bind (carries_condition hinner u v huv) fun c d u v hcd huv => ?_
  refine ContinuesAt.bind huv.settled (hinner.statement u v huv) hinner.kept
    (fun _ => keeps_spanFrom _) fun x y u v hxy hmeets => ?_
  exact Follows.spanned hmeets fun _ _ => .whileLoop hcd hxy trivial

theorem carries_expressionUnless (hinner : S.ReadsOn inner) (sign : Punctuator)
    (h : S.Extends s t) {token : Token} (htoken : s.token? = some token) :
    S.CarriesAt (Option.Rel (Expr.Alike anyPlace)) s t (expressionUnless inner sign)
      (expressionUnless inner sign) := by
  refine Follows.peek_bind h (fun next _ => ?_) fun hnone => by simp [hnone] at htoken
  split
  · exact Follows.pure h .none
  · exact Follows.bind (hinner.expression s t h) fun _ _ _ _ hab huv => Follows.pure huv (.some hab)

theorem carries_forStart (hinner : S.ReadsOn inner) (h : S.Extends s t) {token : Token}
    (htoken : s.token? = some token) :
    S.CarriesAt (Option.Rel (ForStart.Alike anyPlace)) s t (forStart inner) (forStart inner) := by
  refine Follows.peek_bind h (fun next _ => ?_) fun hnone => by simp [hnone] at htoken
  split
  · refine Follows.bind (carries_declaration hinner _ h htoken) fun d d' u v hd huv => ?_
    exact Follows.pure huv (.some (.declaration hd))
  · refine Follows.bind (carries_expressionUnless hinner _ h htoken) fun a b u v hab huv => ?_
    cases hab with
    | none => exact Follows.pure huv .none
    | some hab => exact Follows.pure huv (.some (.expression hab))

theorem continues_forStatement (hinner : S.ReadsOn inner) (h : S.Extends s t) {token : Token}
    (htoken : s.token? = some token) :
    S.ContinuesAt (Stmt.Alike anyPlace) s t (forStatement inner) (forStatement inner) := by
  have hstart : Keeps (forStart inner) := fun _ =>
    From.last (reads_forStart hinner.sound) fun _ _ _ _ _ => trivial
  have hunless : ∀ sign, Keeps (expressionUnless inner sign) := fun sign _ =>
    From.last (reads_expressionUnless hinner.sound sign) fun _ _ _ _ _ => trivial
  refine Follows.currentSpan_bind fun i j => Follows.advance_bind h htoken fun u v huv => ?_
  refine Follows.expect_bind huv fun u v huv => ?_
  refine Follows.bind_expect huv hstart (fun _ => carries_forStart hinner huv)
    fun first first' u v hfirst huv => ?_
  refine Follows.bind_expect huv (hunless _) (fun _ => carries_expressionUnless hinner _ huv)
    fun a b u v hab huv => ?_
  refine Follows.bind_expect huv (hunless _) (fun _ => carries_expressionUnless hinner _ huv)
    fun c d u v hcd huv => ?_
  refine ContinuesAt.bind huv.settled (hinner.statement u v huv) hinner.kept
    (fun _ => keeps_spanFrom _) fun x y u v hxy hmeets => ?_
  exact Follows.spanned hmeets fun _ _ => .forLoop hfirst hab hcd hxy trivial

theorem continues_returnStatement (hinner : S.ReadsOn inner) (h : S.Extends s t) {token : Token}
    (htoken : s.token? = some token) :
    S.ContinuesAt (Stmt.Alike anyPlace) s t (returnStatement inner) (returnStatement inner) := by
  refine Follows.currentSpan_bind fun i j => Follows.advance_bind h htoken fun s t h => ?_
  have hnone : S.CarriesAt (Option.Rel (Expr.Alike anyPlace)) s t (pure none) (pure none) :=
    Follows.pure h .none
  have hvalue : S.CarriesAt (Option.Rel (Expr.Alike anyPlace)) s t (some <$> inner.expression)
      (some <$> inner.expression) :=
    Follows.bind (hinner.expression s t h) fun _ _ _ _ hab huv => Follows.pure huv (.some hab)
  have hend : ∀ a b u v, Option.Rel (Expr.Alike anyPlace) a b → S.Extends u v →
      S.ContinuesAt (Stmt.Alike anyPlace) u v
        (do
          let _ ← eat (.punctuator .semicolon)
          return .returns a (← spanFrom i.start))
        (do
          let _ ← eat (.punctuator .semicolon)
          return .returns b (← spanFrom j.start)) :=
    fun _ _ _ _ hab huv => ContinuesAt.ended huv fun _ _ => .returns hab trivial
  -- neither the end of the text nor a semicolon is the beginning of a value
  refine Follows.peek_bind h (fun next _ => ?_) fun _ => Follows.bind hnone hend
  split
  · exact Follows.bind hnone hend
  · exact Follows.bind hvalue hend

theorem continues_variableStatement (hinner : S.ReadsOn inner) (kind : DeclKind)
    (h : S.Extends s t) {token : Token} (htoken : s.token? = some token) :
    S.ContinuesAt (Stmt.Alike anyPlace) s t (variableStatement inner kind)
      (variableStatement inner kind) := by
  refine Follows.currentSpan_bind fun i j => ?_
  refine Follows.bind (carries_declaration hinner kind h htoken) fun d d' u v hd huv => ?_
  exact ContinuesAt.ended huv fun _ _ => .variables hd trivial

theorem continues_expressionStatement (hinner : S.ReadsOn inner) :
    S.Continues (Stmt.Alike anyPlace) (expressionStatement inner) (expressionStatement inner) := by
  intro s t h
  refine Follows.currentSpan_bind fun i j => ?_
  refine Follows.bind (hinner.expression s t h) fun a b u v hab huv => ?_
  exact ContinuesAt.ended huv fun _ _ => .expression hab trivial

theorem continues_statementWith (hinner : S.ReadsOn inner) :
    S.Continues (Stmt.Alike anyPlace) (statementWith inner) (statementWith inner) := by
  intro s t h
  have hexpression := continues_expressionStatement hinner s t h
  refine Follows.peek_bind h (fun token htoken => ?_) fun _ => hexpression
  split
  · exact continues_variableStatement hinner _ h htoken
  · split
    · exact continues_function hinner h htoken
    · have hblock := continues_block hinner.sound.statement hinner.statement s t h
      refine ContinuesAt.bind h.settled hblock (keeps_block hinner.kept)
        (fun _ _ => From.pure fun _ => trivial) fun _ _ u v hbody hmeets => ?_
      exact Follows.pure hmeets (.block hbody trivial)
    · exact continues_ifStatement hinner h htoken
    · exact continues_whileStatement hinner h htoken
    · exact continues_forStatement hinner h htoken
    · exact continues_returnStatement hinner h htoken
    · exact hexpression

/-- **A statement without errors is read as it was,** and takes one semicolon at most. -/
theorem continues_statement :
    ∀ depth, S.Continues (Stmt.Alike anyPlace) (statement depth) (statement depth)
  | 0 => fun _ _ _ => Follows.fail
  | depth + 1 => by
    have hinner : S.ReadsOn ⟨typeExpr depth, expression depth .assignment, statement depth⟩ :=
      ⟨carries_typeExpr depth, carries_expression depth _, continues_statement depth,
        ⟨reads_typeExpr depth, fun t => From.last (reads_expression depth .assignment t)
          fun _ _ _ h _ => ⟨h.spells, h.grouped⟩, reads_statement depth⟩⟩
    exact fun _ _ h => Follows.nested h (fun _ _ hu => hu) (fun _ _ r hmeets => hmeets.withRoom r)
      (continues_statementWith hinner)

end Kinds

/-! ### Behind the two semicolons -/

/-- The reader behind both semicolons. -/
def resume (S : Sequel) (s : State) : State :=
  State.settle ⟨S.rest, S.stop, S.second.span.stop, s.room, s.log⟩

theorem Passes.advance_eq (h : S.Passes s t) : t.advance = S.resume s := by
  simp only [State.advance, h.ahead, resume, h.stop, h.room, h.log]

/-- At the end of the first text the loop passes over the semicolons that are left. -/
theorem loop_resume {p : Parse Stmt} (body : List Stmt) (h : S.Meets s t) (hend : s.token? = none) :
    loop (statementsRound p none) body t = loop (statementsRound p none) body (S.resume s) := by
  have hpasses : ∀ u, S.Passes s u →
      loop (statementsRound p none) body u = loop (statementsRound p none) body (S.resume s) := by
    intro u hu
    rw [loop_semicolon body (by simp [hu.token?.2]) hu.token?.2, hu.advance_eq]
  rcases h with hext | hpass
  · have hsign := hext.token?_of_none hend
    rw [loop_semicolon body (by simp [hsign]) hsign]
    exact hpasses _ (hext.passes_advance hend)
  · exact hpasses t hpass

end ScriptLint.Parse.Sequel
