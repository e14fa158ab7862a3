import ScriptLint.Proofs.Parsing.Descent
import ScriptLint.Proofs.Parsing.Isolation
import ScriptLint.Proofs.Parsing.TokenByToken
/-!
# Reading goes on and ends

Every reader of a statement, an expression or a type consumes a lexeme where
it succeeds, and every round of a loop after which the loop goes on has
consumed one. A loop that only repeats its rounds until one is the last
therefore ends, and the comparison that `loop` makes between two rounds is
never decisive. A statement that fails may have consumed nothing; then its
recovery passes over the lexeme at which it failed.

Key definitions: `Consumes`, `Progresses`, `Repeats`, `ProductionsConsume`, `LoopsProgress`.
Key theorems: `Progresses.repeats_iff`, `Readers.Sound.productions_consume`,
`Readers.Sound.loops_progress`, `Readers.Sound.recover_progress`, `Script.reading_ends`.
-/

namespace ScriptLint

/-- A type is written with at least one lexeme. -/
theorem TypeExpr.Spells.ne_nil {t : TypeExpr} {ws : List Lexeme} (h : t.Spells ws) : ws ≠ [] := by
  cases h with
  | one h => exact h.ne_nil
  | union h _ => exact h.ne_nil fun _ _ h => h.ne_nil

namespace Parse

variable {α : Type} {s t : State}

/-! ### Loops without a bound -/

/-- Wherever the reader stops it has moved forward, and past a lexeme if it succeeds. -/
def Consumes (p : Parse α) : Prop :=
  ∀ s, Reads s p fun _ ws _ => ws ≠ []

/-- A round moves forward, and past a lexeme if the loop goes on after it. -/
def Progresses (round : α → Parse (Round α)) : Prop :=
  ∀ a s, Reads s (round a) fun r ws _ => ∀ next, r = .again next → ws ≠ []

/-- How a round ends that is repeated with the value of the one before until one is the last, or
fails. If neither ever happens it ends in no way. -/
inductive Repeats (round : α → Parse (Round α)) : α → State →
    EStateM.Result SyntaxError State α → Prop
  | failed {a : α} {s t : State} {e : SyntaxError} (hround : round a s = .error e t) :
      Repeats round a s (.error e t)
  | done {a b : α} {s t : State} (hround : round a s = .ok (.done b) t) :
      Repeats round a s (.ok b t)
  | again {a b : α} {s t : State} {r : EStateM.Result SyntaxError State α}
      (hround : round a s = .ok (.again b) t) (hnext : Repeats round b t r) : Repeats round a s r

/-- What follows from the round that comes first. -/
theorem repeats_iff_round {round : α → Parse (Round α)} {a : α}
    {r : EStateM.Result SyntaxError State α} :
    Repeats round a s r ↔
      match round a s with
      | .error e t => r = .error e t
      | .ok (.done b) t => r = .ok b t
      | .ok (.again b) t => Repeats round b t r := by
  constructor
  · intro h
    cases h with
    | failed hround => rw [hround]
    | done hround => rw [hround]
    | again hround hnext =>
      rw [hround]
      exact hnext
  · intro h
    cases hround : round a s with
    | error e t =>
      rw [hround] at h
      exact h ▸ .failed hround
    | ok next t =>
      rw [hround] at h
      cases next with
      | done b => exact h ▸ .done hround
      | again b => exact .again hround h

/-- **A loop that consumes in each round ends by itself,** and in one way. -/
theorem Progresses.repeats_iff {round : α → Parse (Round α)} (h : Progresses round) (a : α)
    (hs : s.Settled) (r : EStateM.Result SyntaxError State α) :
    Repeats round a s r ↔ r = loop round a s := by
  -- by induction on what is ahead
  induction hn : s.ahead.length using Nat.strongRecOn generalizing a s with
  | ind n ih =>
    have hr := h a s (Advances.refl hs)
    rw [repeats_iff_round, loop_run]
    cases hrun : round a s with
    | error e t => exact Iff.rfl
    | ok next t =>
      rw [hrun] at hr
      obtain ⟨ws, hadv, hne⟩ := hr
      cases next with
      | done b => exact Iff.rfl
      | again b =>
        have hlt : t.ahead.length < s.ahead.length :=
          length_ahead_lt (Advances.refl hs) hadv (List.length_pos_iff.mpr (hne b rfl))
        simp only [if_pos hlt]
        exact ih _ (hn ▸ hlt) b hadv.settled rfl

/-! ### Productions -/

/-- What the readers yield is derived from the lexemes that they consume. -/
structure Readers.Sound (x : Readers) : Prop where
  typeExpr : ∀ t, Reads t x.typeExpr fun a ws _ => a.Spells ws
  expression : ∀ rank t, Reads t (x.expression rank) (ReadsAs rank)
  statement : ∀ t, Reads t x.statement (StatementAt t)

theorem sound_readers (depth : Nat) : (readers depth).Sound :=
  ⟨reads_typeExpr depth, reads_expression depth, reads_statement depth⟩

/-- Readers without a countdown are sound like those with one. -/
theorem Readers.Recursive.sound {x : Readers} (hx : x.Recursive) : x.Sound where
  typeExpr t ha := by
    rw [hx.typeExpr_eq ha.settled (Nat.le_refl _)]
    exact reads_typeExpr _ t ha
  expression rank t ha := by
    rw [hx.expression_eq rank ha.settled (Nat.le_refl _)]
    exact reads_expression _ rank t ha
  statement t ha := by
    rw [hx.statement_eq ha.settled (Nat.le_refl _)]
    exact reads_statement _ t ha

theorem Readers.Sound.parts {x : Readers} (hx : x.Sound) : SoundParts x.parts :=
  ⟨hx.typeExpr, fun t => From.last (hx.expression .assignment t) fun _ _ _ h _ =>
    ⟨h.spells, h.grouped⟩, hx.statement⟩

theorem Consumes.of_reads {p : Parse α} {R : State → α → List Lexeme → State → Prop}
    (h : ∀ s, Reads s p (R s)) (hne : ∀ s a ws t, R s a ws t → ws ≠ []) : Consumes p :=
  fun s => From.last (h s) fun a ws t hR _ => hne s a ws t hR

/-- All that a script is made of consumes a lexeme, if the given readers are used inside. -/
structure ProductionsConsume (inner : Readers) : Prop where
  simpleType : Consumes (simpleType inner.typeExpr)
  arrayType : Consumes (arrayType inner.typeExpr)
  unionType : Consumes (unionType inner.typeExpr)
  primary : Consumes (primary inner.expression)
  accessChain : Consumes (accessChain inner.expression)
  unary : Consumes (unary inner.expression)
  binary : ∀ least, Consumes (binary inner.expression least)
  conditional : Consumes (conditional inner.expression)
  assignment : Consumes (assignment inner.expression)
  statementWith : Consumes (statementWith inner.parts)
  nestedType : Consumes inner.typeExpr
  nestedExpression : ∀ rank, Consumes (inner.expression rank)
  nestedStatement : Consumes inner.statement

/-- **Every production consumes.** -/
theorem Readers.Sound.productions_consume {x : Readers} (hx : x.Sound) : ProductionsConsume x where
  simpleType := .of_reads (fun _ => reads_simpleType hx.typeExpr) fun _ _ _ _ h => h.ne_nil
  arrayType := .of_reads (fun _ => reads_arrayType hx.typeExpr) fun _ _ _ _ h => h.ne_nil
  unionType := .of_reads (fun _ => reads_unionType hx.typeExpr) fun _ _ _ _ h => h.ne_nil
  primary := .of_reads (fun _ => reads_primary hx.expression) fun _ _ _ _ h => h.1.ne_nil
  accessChain := .of_reads (fun _ => reads_accessChain hx.expression) fun _ _ _ _ h => h.1.ne_nil
  unary := .of_reads (fun _ => reads_unary hx.expression) fun _ _ _ _ h => h.spells.ne_nil
  binary least := .of_reads (fun _ => reads_binary least hx.expression) fun _ _ _ _ h =>
    h.spells.ne_nil
  conditional := .of_reads (fun _ => reads_conditional hx.expression) fun _ _ _ _ h => h.1.ne_nil
  assignment := .of_reads (fun _ => reads_assignment hx.expression) fun _ _ _ _ h => h.spells.ne_nil
  statementWith := .of_reads (fun _ => reads_statementWith hx.parts) fun _ _ _ _ h => h.1.ne_nil
  nestedType := .of_reads hx.typeExpr fun _ _ _ _ h => h.ne_nil
  nestedExpression rank := .of_reads (hx.expression rank) fun _ _ _ _ h => h.spells.ne_nil
  nestedStatement := .of_reads hx.statement fun _ _ _ _ h => h.1.ne_nil

/-! ### Rounds -/

/-- A round of `synchronize`. -/
def synchronizeRound (_ : Unit) : Parse (Round Unit) := do
  match ← peek with
  | none => return .done ()
  | some token =>
    if token = .punctuator .semicolon then
      advance
      return .done ()
    else if startsStatement token then return .done ()
    else
      advance
      return .again ()

theorem progresses_synchronize : Progresses synchronizeRound := by
  refine fun _ s => From.peek_bind ?_
  split
  next => exact From.pure fun _ next h => nomatch h
  next token h =>
    split
    next => exact From.advance_bind h fun _ _ _ _ _ => From.pure fun _ next h => nomatch h
    next =>
      split
      next => exact From.pure fun _ next h => nomatch h
      next => exact From.advance_bind h fun _ _ _ _ _ => From.pure fun _ _ _ => by simp

section Rounds

variable {inner : Rank → Parse Expr} {item : Parse α}

theorem progresses_operation (hinner : ∀ rank, Consumes (inner rank)) (least : Nat) :
    Progresses (operation inner least) := by
  refine fun left s => From.peek_bind ?_
  split
  next op hop =>
    obtain ⟨token, htok, -⟩ := Option.bind_eq_some_iff.mp hop
    split
    next => exact From.pure fun _ next h => nomatch h
    next =>
      refine From.descend_bind fun _ => From.advance_bind htok fun w t _ _ _ => ?_
      exact From.bind (hinner _ t) fun _ _ _ _ _ => From.pure fun _ _ _ => by simp
  next => exact From.pure fun _ next h => nomatch h

theorem progresses_access (hinner : ∀ rank, Consumes (inner rank)) (start : Nat) :
    Progresses (access inner start) := by
  have hitem : ∀ t, Reads t (inner .assignment) fun _ _ _ => True := fun t =>
    From.last (hinner .assignment t) fun _ _ _ _ _ => trivial
  refine fun object s => From.peek_bind ?_
  split
  next htok =>
    refine From.descend_bind fun _ => From.advance_bind htok fun w t _ _ _ => ?_
    refine From.bind (reads_listUntil (P := fun _ _ => True) hitem) fun _ _ u _ _ => ?_
    exact From.expect_bind fun _ _ _ _ => From.spanFrom_bind (From.pure fun _ _ _ => by simp)
  next htok =>
    refine From.descend_bind fun _ => From.advance_bind htok fun w t _ _ _ => ?_
    exact From.ident_bind fun _ _ _ _ _ _ => From.spanFrom_bind (From.pure fun _ _ _ => by simp)
  next htok =>
    refine From.descend_bind fun _ => From.advance_bind htok fun w t _ _ _ => ?_
    refine From.bind (hinner _ t) fun _ _ u _ _ => ?_
    exact From.expect_bind fun _ _ _ _ => From.spanFrom_bind (From.pure fun _ _ _ => by simp)
  next => exact From.pure fun _ next h => nomatch h

theorem progresses_bracketRound (start : Nat) : Progresses (bracketRound start) := by
  refine fun element s => From.peek_bind ?_
  split
  next htok =>
    refine From.descend_bind fun _ => From.advance_bind htok fun w t _ _ _ => ?_
    exact From.expect_bind fun _ _ _ _ => From.spanFrom_bind (From.pure fun _ _ _ => by simp)
  next => exact From.pure fun _ next h => nomatch h

theorem progresses_listRound (hitem : Consumes item) (close : Punctuator) :
    Progresses (listRound close item) := by
  refine fun items s => From.peek_bind ?_
  split
  · exact From.pure fun _ next h => nomatch h
  · refine From.bind (hitem s) fun _ ws t hne _ => ?_
    exact From.eat_bind (fun w u _ _ => From.pure fun _ _ _ => by simp)
      fun _ => From.pure fun _ next h => nomatch h

theorem progresses_separatedRound (hitem : Consumes item) (sign : Punctuator) :
    Progresses (separatedRound sign item) := by
  refine fun items s => From.eat_bind (fun w t _ _ => ?_) fun _ => From.pure fun _ next h => nomatch h
  exact From.bind (hitem t) fun _ _ _ _ _ => From.pure fun _ _ _ => by simp

end Rounds

/-- All loops of the grammar repeat rounds that progress, if the given readers are used inside. -/
structure LoopsProgress (inner : Readers) : Prop where
  statements : ∀ close,
    Parse.statements inner.statement close = loop (statementsRound inner.statement close) [] ∧
      Progresses (statementsRound inner.statement close)
  skipped : synchronize = loop synchronizeRound () ∧ Progresses synchronizeRound
  operators : ∀ least,
    binary inner.expression least =
      unary inner.expression >>= loop (operation inner.expression least) ∧
      Progresses (operation inner.expression least)
  accesses :
    (accessChain inner.expression = currentSpan >>= fun span =>
      primary inner.expression >>= loop (access inner.expression span.start)) ∧
      ∀ start, Progresses (access inner.expression start)
  expressions : ∀ close,
    listUntil close (inner.expression .assignment) =
      loop (listRound close (inner.expression .assignment)) [] ∧
      Progresses (listRound close (inner.expression .assignment))
  brackets :
    (arrayType inner.typeExpr = currentSpan >>= fun span =>
      simpleType inner.typeExpr >>= loop (bracketRound span.start)) ∧
      ∀ start, Progresses (bracketRound start)
  separated : ∀ (α : Type) sign (item : Parse α), Parse.separated sign item =
    item >>= fun first => loop (separatedRound sign item) [first]
  declarators : Progresses (separatedRound .comma (declarator inner.parts))
  parameters : Progresses (separatedRound .comma (parameter inner.parts))
  members : Progresses (separatedRound .bar (arrayType inner.typeExpr))

/-- **Every loop progresses.** -/
theorem Readers.Sound.loops_progress {x : Readers} (hx : x.Sound) : LoopsProgress x := by
  have h := hx.productions_consume
  have hdeclarator : Consumes (declarator x.parts) :=
    .of_reads (fun _ => reads_declarator hx.parts) fun _ _ _ _ hd => by cases hd.1; simp
  have hparameter : Consumes (parameter x.parts) :=
    .of_reads (fun _ => reads_parameter hx.parts) fun _ _ _ _ hp => by cases hp; simp
  exact {
    statements := fun close => ⟨statements_eq _ close,
      fun body _ => Seam.reads_statementsRound hx.statement close body⟩
    skipped := ⟨rfl, progresses_synchronize⟩
    operators := fun least => ⟨rfl, progresses_operation h.nestedExpression least⟩
    accesses := ⟨rfl, progresses_access h.nestedExpression⟩
    expressions := fun close => ⟨rfl, progresses_listRound (h.nestedExpression .assignment) close⟩
    brackets := ⟨rfl, progresses_bracketRound⟩
    separated := fun _ _ _ => rfl
    declarators := progresses_separatedRound hdeclarator .comma
    parameters := progresses_separatedRound hparameter .comma
    members := progresses_separatedRound h.arrayType .bar }

/-! ### Statements that fail -/

/-- **A statement that is given up is left behind.** Its recovery does not fail, and together they
have consumed a lexeme unless the text is at its end. -/
theorem Readers.Sound.recover_progress {x : Readers} (hx : x.Sound) {e : SyntaxError}
    (hs : s.Settled) (hfail : x.statement s = .error e t) :
    ∃ ws u, recover s.span.start e t = .ok () u ∧ Advances s ws u ∧ (ws ≠ [] ∨ u.ahead = []) := by
  have hstatement := hx.statement s (Advances.refl hs)
  rw [hfail] at hstatement
  obtain ⟨ws, hadv⟩ := hstatement
  have hrecover := reads_recover s.span.start e (Advances.refl hadv.settled)
  have hends : Ends (recover s.span.start e) t (fun _ _ => True) fun _ => False :=
    Ends.recover (I := fun _ => True) (fun _ _ => trivial) (fun _ _ _ => trivial) trivial
  cases hrun : recover s.span.start e t with
  | error e' u => exact (hends.of_error hrun).elim
  | ok r u =>
    rw [hrun] at hrecover
    obtain ⟨us, hadv', -, hpast⟩ := hrecover
    refine ⟨ws ++ us, u, rfl, hadv.trans hadv', ?_⟩
    by_cases hws : ws = []
    · subst hws
      -- the statement failed where it began, so its recovery begins there too
      have hspan : t.span = s.span := by simp [State.span, hadv.ahead_eq, hadv.stop_eq]
      by_cases htok : t.token? = none
      · obtain ⟨read, hread, -⟩ := hadv'.consumed
        rw [State.ahead_eq_nil hadv.settled htok] at hread
        exact .inr (List.append_eq_nil_iff.mp hread.symm).2
      · exact .inl (hpast (by rw [hspan]) htok)
    · exact .inl (by simp [hws])

end Parse

namespace Script

open Parse

/-- **Reading goes on and ends.** Whatever is met next in a text takes a character of it, so that
moving on ends behind any run of lexical errors. Every production that succeeds and every round of a
loop that goes on consume a lexeme, and a statement that fails is passed over with at least one, or to
the end of the text. So the loops end by themselves, readers that are written in terms of themselves
read the whole text without anything being counted down, and it plays no part what would be done at
the end of a countdown. -/
theorem reading_ends (text : String) :
    (∀ offset cs, (∀ r, NextItem offset cs r ↔ r = none) ∧ scanFrom offset cs = [] ∨
      ∃ met, (∀ r, NextItem offset cs r ↔ r = some met) ∧ met.Takes offset cs ∧
        scanFrom offset cs = met.item :: scanFrom met.stop met.rest) ∧
    (∀ offset cs, ∃ errors next,
      (∀ errors' r, NextLexeme offset cs errors' r ↔ errors' = errors ∧ r = next) ∧
        ∀ met ∈ next, met.Takes offset cs) ∧
    (∃ errors next, NextLexeme 0 text.toList errors next ∧ (State.ofText text).HasMet next ∧
      (State.ofText text).log = (errors.map SyntaxError.ofLexical).reverse) ∧
    (∀ (s : State) met, s.HasMet (some met) → ∃ errors next,
      NextLexeme met.stop met.rest errors next ∧ s.advance.HasMet next ∧
        s.advance.log = (errors.map SyntaxError.ofLexical).reverse ++ s.log) ∧
    (∀ x : Readers, x.Recursive ∨ (∃ depth, x = readers depth) →
      ProductionsConsume x ∧ LoopsProgress x ∧
        ∀ s e t, s.Settled → x.statement s = .error e t → ∃ ws u,
          Parse.recover s.span.start e t = .ok () u ∧ Advances s ws u ∧ (ws ≠ [] ∨ u.ahead = [])) ∧
    (∀ (α : Type) (round : α → Parse (Round α)), Progresses round →
      ∀ a s, s.Settled → ∀ r, Repeats round a s r ↔ r = loop round a s) ∧
    (∃ x : Readers, x.Recursive) ∧
    (∀ x : Readers, x.Recursive → ∀ r, Repeats (statementsRound x.statement none) []
      (State.ofText text) r ↔ r = .ok (readBody text).1 (readBody text).2) ∧
    (∀ (x : Readers) (n : Nat), nestingLimit < n ∨ (lexemesOf (scan text)).length + 1 < n →
      statements (x.levels n).statement none (State.ofText text) =
        .ok (readBody text).1 (readBody text).2) ∧
    (readBody text).2.ahead = [] := by
  have hstart : (State.ofText text).Settled := leadingErrors_dropErrors _
  refine ⟨fun offset cs => nextItem_cases cs offset, fun offset cs => ?_,
    State.hasMet_ofText text, fun s met h => h.advance, fun x hx => ?_,
    fun α round h a s hs => h.repeats_iff a hs, ⟨_, recursive_unbounded⟩, fun x hx => ?_,
    fun x n hn => readBody_levels x text hn, (derives_readBody text).2.2⟩
  · obtain ⟨next, hnext, -, htakes⟩ := nextLexeme_iff offset cs
    exact ⟨_, next, hnext, htakes⟩
  · have hsound : x.Sound := by
      rcases hx with hx | ⟨depth, rfl⟩
      · exact hx.sound
      · exact sound_readers depth
    exact ⟨hsound.productions_consume, hsound.loops_progress,
      fun s e t hs hfail => hsound.recover_progress hs hfail⟩
  · have hround := (hx.sound.loops_progress.statements none).2
    rw [← readBody_recursive hx, statements_eq]
    exact hround.repeats_iff [] hstart

end Script

end ScriptLint
