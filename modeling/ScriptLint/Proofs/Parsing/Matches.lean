import ScriptLint.Proofs.Parsing.Ends
import ScriptLint.Proofs.Parsing.Reads
/-!
# Readers with others inside

The readers of types, expressions and statements are built around readers
for what is nested in them. Two readers that are built alike around different
ones do the same as long as those inside do, where they are asked; and they
are asked only further on. A reader that began in front of some lexemes asks
the ones inside when it has consumed one of them, except for a statement that
is an expression from its start.

`Matches` compares two such readers. There is one rule for each way to build
a reader; the grammar is gone through once.

Key definitions: `State.Within`, `Matches`, `MatchingParts`.
Key theorems: `Matches.bind`, `Matches.loop`, `matches_unionType`, `matches_ofRank`,
`matches_statementWith`.
-/

namespace ScriptLint.Parse

/-! ### Where a reader is -/

/-- At most `room` levels may still be entered, and fewer than `bound` lexemes are ahead. -/
structure State.Within (room bound : Nat) (s : State) : Prop where
  settled : s.Settled
  room_le : s.room ≤ room
  lexemes_lt : s.lexemes.length < bound

namespace State.Within

variable {room bound : Nat} {s t : State}

theorem mono {bound' : Nat} (h : s.Within room bound) (hle : bound ≤ bound') :
    s.Within room bound' :=
  ⟨h.settled, h.room_le, Nat.lt_of_lt_of_le h.lexemes_lt hle⟩

/-- Where the reader gets by moving forward. -/
theorem forward {ws : List Lexeme} (h : s.Within room bound) (hadv : Advances s ws t)
    (hroom : t.room ≤ s.room) : t.Within room bound := by
  refine ⟨hadv.settled, Nat.le_trans hroom h.room_le, ?_⟩
  have hlen := congrArg List.length hadv.lexemes_eq
  rw [List.length_append] at hlen
  have := h.lexemes_lt
  omega

/-- A consumed lexeme is not ahead any more. -/
theorem past {ws : List Lexeme} (h : s.Within room (bound + 1)) (hadv : Advances s ws t)
    (hws : ws ≠ []) (hroom : t.room ≤ s.room) : t.Within room bound := by
  refine ⟨hadv.settled, Nat.le_trans hroom h.room_le, ?_⟩
  have hlen := congrArg List.length hadv.lexemes_eq
  rw [List.length_append] at hlen
  have := List.length_pos_iff.mpr hws
  have := h.lexemes_lt
  omega

theorem advance (h : s.Within room bound) : s.advance.Within room bound := by
  cases htok : s.token? with
  | none =>
    have hstay : s.advance = s := by simp [State.advance, State.ahead_eq_nil h.settled htok]
    rwa [hstay]
  | some token =>
    obtain ⟨w, rest, hahead, -, -⟩ := State.ahead_of_token? htok
    exact h.forward (advances_advance hahead) (by simp)

theorem advance_past (h : s.Within room (bound + 1)) (htok : s.token? ≠ none) :
    s.advance.Within room bound := by
  obtain ⟨token, htok⟩ := Option.ne_none_iff_exists'.mp htok
  obtain ⟨w, rest, hahead, -, -⟩ := State.ahead_of_token? htok
  exact h.past (advances_advance hahead) (by simp) (by simp)

theorem descend (h : s.Within room bound) :
    State.Within room bound { s with room := s.room - 1 } :=
  ⟨h.settled, Nat.le_trans (Nat.sub_le _ _) h.room_le, h.lexemes_lt⟩

theorem note (h : s.Within room bound) (e : SyntaxError) : (s.note e).Within room bound :=
  ⟨h.settled, h.room_le, h.lexemes_lt⟩

end State.Within

/-! ### Readers that are built alike -/

/-- At `s` the reader `q` does what `p` does, and `I` holds where they succeed. -/
structure Matches {α : Type} (p q : Parse α) (s : State) (I : State → Prop) : Prop where
  same : q s = p s
  ends : Ends p s (fun _ t => I t) fun _ => True

namespace Matches

variable {α β : Type} {p q : Parse α} {f g : α → Parse β} {s : State} {I I' : State → Prop}

theorem pure {a : α} (h : I s) : Matches (Pure.pure a) (Pure.pure a) s I :=
  ⟨rfl, Ends.pure h⟩

theorem fail {problem : SyntaxProblem} :
    Matches (Parse.fail problem : Parse α) (Parse.fail problem) s I :=
  ⟨rfl, Ends.fail trivial⟩

theorem throw {e : SyntaxError} : Matches (throw e : Parse α) (throw e) s I :=
  ⟨rfl, Ends.throw trivial⟩

/-- One reader after the other, where the first one is the same on both sides or does the same. -/
theorem bind_run (hsame : q s = p s) (hf : ∀ a t, p s = .ok a t → Matches (f a) (g a) t I) :
    Matches (p >>= f) (q >>= g) s I := by
  have hends : Ends p s (fun a t => p s = .ok a t) fun _ => True := by
    unfold Ends
    cases p s <;> trivial
  refine ⟨?_, hends.bind fun a t hrun => (hf a t hrun).ends⟩
  rw [Parse.bind_run, Parse.bind_run, hsame]
  cases hrun : p s with
  | ok a t => exact (hf a t hrun).same
  | error e t => rfl

theorem bind (hp : Matches p q s I) (hf : ∀ a t, I t → Matches (f a) (g a) t I') :
    Matches (p >>= f) (q >>= g) s I' :=
  bind_run hp.same fun a t hrun => hf a t (hp.ends.of_ok hrun)

theorem peek_bind {f g : Option Token → Parse β}
    (h : ∀ next, s.token? = next → Matches (f next) (g next) s I) :
    Matches (peek >>= f) (peek >>= g) s I :=
  bind_run rfl fun _ _ hrun => by cases hrun; exact h _ rfl

theorem currentSpan_bind {f g : Span → Parse β} (h : ∀ span, Matches (f span) (g span) s I) :
    Matches (currentSpan >>= f) (currentSpan >>= g) s I :=
  bind_run rfl fun _ _ hrun => by cases hrun; exact h _

theorem spanFrom_bind {start : Nat} {f g : Span → Parse β}
    (h : ∀ span, Matches (f span) (g span) s I) :
    Matches (spanFrom start >>= f) (spanFrom start >>= g) s I :=
  bind_run rfl fun _ _ hrun => by cases hrun; exact h _

theorem advance_bind {f g : Unit → Parse β} (h : Matches (f ()) (g ()) s.advance I) :
    Matches (Parse.advance >>= f) (Parse.advance >>= g) s I :=
  bind_run rfl fun _ _ hrun => by cases hrun; exact h

theorem descend_bind {f g : Unit → Parse β}
    (h : Matches (f ()) (g ()) { s with room := s.room - 1 } I) :
    Matches (descend >>= f) (descend >>= g) s I :=
  bind_run rfl fun _ _ hrun => by
    rw [descend_run] at hrun
    split at hrun <;> cases hrun
    exact h

theorem eat_bind {token : Token} {f g : Bool → Parse β}
    (hyes : s.token? ≠ none → Matches (f true) (g true) s.advance I)
    (hno : Matches (f false) (g false) s I) : Matches (eat token >>= f) (eat token >>= g) s I :=
  bind_run rfl fun _ _ hrun => by
    rw [eat_run] at hrun
    split at hrun <;> cases hrun
    · exact hyes (by simp_all)
    · exact hno

theorem expect_bind {sign : Punctuator} {f g : Unit → Parse β}
    (h : s.token? ≠ none → Matches (f ()) (g ()) s.advance I) :
    Matches (expect sign >>= f) (expect sign >>= g) s I :=
  bind_run rfl fun _ _ hrun => by
    rw [expect_run] at hrun
    split at hrun <;> cases hrun
    exact h (by simp_all)

theorem ident_bind {f g : Ident → Parse β}
    (h : ∀ name, s.token? ≠ none → Matches (f name) (g name) s.advance I) :
    Matches (ident >>= f) (ident >>= g) s I :=
  bind_run rfl fun _ _ hrun => by
    rw [ident_run] at hrun
    split at hrun
    next hname =>
      cases hrun
      refine h _ fun hnone => ?_
      simp [hnone] at hname
    next => cases hrun

/-- An attempt goes on also where the reader failed. -/
theorem attempt_bind {f g : Except SyntaxError α → Parse β} {E : State → Prop} (hsame : q s = p s)
    (hp : Ends p s (fun _ t => I t) E) (hok : ∀ a t, I t → Matches (f (.ok a)) (g (.ok a)) t I')
    (herror : ∀ e t, E t → Matches (f (.error e)) (g (.error e)) t I') :
    Matches (attempt p >>= f) (attempt q >>= g) s I' := by
  refine bind_run (by rw [attempt_run, attempt_run, hsame]) fun r t hrun => ?_
  rw [attempt_run] at hrun
  split at hrun <;> cases hrun
  next a h => exact hok a t (hp.of_ok h)
  next e h => exact herror e t (hp.of_error h)

/-- **Loops whose rounds are alike are alike.** -/
theorem loop {round round' : α → Parse (Round α)}
    (hround : ∀ a t, I t → Matches (round a) (round' a) t I) (a : α) (hs : I s) :
    Matches (Parse.loop round a) (Parse.loop round' a) s I := by
  refine ⟨?_, Ends.loop (I := fun _ => I) (fun a t ht => (hround a t ht).ends) hs⟩
  -- by induction on what is ahead, which every round that goes on makes shorter
  induction hn : s.ahead.length using Nat.strongRecOn generalizing a s with
  | ind n ih =>
    have hr := hround a s hs
    rw [loop_run, loop_run, hr.same]
    cases hrun : round a s with
    | error e t => rfl
    | ok r t =>
      cases r with
      | done b => rfl
      | again b =>
        by_cases hlt : t.ahead.length < s.ahead.length
        · simp only [if_pos hlt]
          exact ih _ (hn ▸ hlt) b (hr.ends.of_ok hrun) rfl
        · simp only [if_neg hlt]

section Lists

variable {item item' : Parse α} {sign : Punctuator}

/-- The items are asked for where the list begins, and behind each sign. -/
theorem separated (hsub : ∀ t, I t → I' t) (hadvance : ∀ t, I t → I t.advance)
    (hitem : ∀ t, I' t → Matches item item' t I) (hs : I' s) :
    Matches (Parse.separated sign item) (Parse.separated sign item') s I := by
  refine bind (hitem s hs) fun a t ht => loop (fun as u hu => ?_) [a] ht
  refine eat_bind (fun _ => ?_) (pure hu)
  exact bind (hitem _ (hsub _ (hadvance u hu))) fun b v hv => pure hv

theorem listUntil (hadvance : ∀ t, I t → I t.advance)
    (hitem : ∀ t, I t → Matches item item' t I) (hs : I s) :
    Matches (Parse.listUntil sign item) (Parse.listUntil sign item') s I := by
  refine loop (fun as t ht => peek_bind fun next _ => ?_) [] hs
  split
  · exact pure ht
  · refine bind (hitem t ht) fun a u hu => ?_
    exact eat_bind (fun _ => pure (hadvance u hu)) (pure hu)

theorem optionalAfter (hadvance : ∀ t, I t → I t.advance)
    (hitem : ∀ t, I t → Matches item item' t I) (hs : I s) :
    Matches (Parse.optionalAfter sign item) (Parse.optionalAfter sign item') s I :=
  eat_bind (fun _ => bind (hitem _ (hadvance s hs)) fun _ _ ht => pure ht) (pure hs)

end Lists

end Matches

/-! ### The grammar

The readers of each kind begin where at most `bound` lexemes are ahead. They ask the inner readers,
with one exception, only when they have consumed one, and have consumed one where they succeed. -/

section Grammar

variable {room bound : Nat} {s : State}

section Types

variable {inner inner' : Parse TypeExpr}
  (hinner : ∀ t, t.Within room bound → Matches inner inner' t (State.Within room bound))
include hinner

theorem matches_simpleType (hs : s.Within room (bound + 1)) :
    Matches (simpleType inner) (simpleType inner') s (State.Within room bound) := by
  refine Matches.currentSpan_bind fun span => Matches.peek_bind fun next hnext => ?_
  have hpast : next ≠ none → s.advance.Within room bound := fun h => hs.advance_past (hnext ▸ h)
  split
  · exact Matches.advance_bind (Matches.pure (hpast (by simp)))
  · exact Matches.advance_bind (Matches.pure (hpast (by simp)))
  · refine Matches.advance_bind (Matches.bind (hinner _ (hpast (by simp))) fun a t ht => ?_)
    exact Matches.expect_bind fun _ => Matches.pure ht.advance
  · split
    · exact Matches.advance_bind (Matches.pure (hpast (by simp)))
    · split
      · exact Matches.advance_bind (Matches.pure (hpast (by simp)))
      · exact Matches.fail
  · exact Matches.fail

theorem matches_arrayType (hs : s.Within room (bound + 1)) :
    Matches (arrayType inner) (arrayType inner') s (State.Within room bound) := by
  refine Matches.currentSpan_bind fun span => ?_
  refine Matches.bind (matches_simpleType hinner hs) fun a t ht => ?_
  refine Matches.loop (fun b u hu => ?_) a ht
  refine Matches.peek_bind fun next _ => ?_
  split
  · refine Matches.descend_bind (Matches.advance_bind (Matches.expect_bind fun _ => ?_))
    exact Matches.spanFrom_bind fun _ => Matches.pure hu.descend.advance.advance
  · exact Matches.pure hu

theorem matches_unionType (hs : s.Within room (bound + 1)) :
    Matches (unionType inner) (unionType inner') s (State.Within room bound) := by
  refine Matches.currentSpan_bind fun span => ?_
  refine Matches.bind (Matches.separated (fun t ht => ht.mono (Nat.le_succ _))
    (fun t ht => ht.advance) (fun t ht => matches_arrayType hinner ht) hs) fun as t ht => ?_
  split
  · exact Matches.pure ht
  · exact Matches.spanFrom_bind fun _ => Matches.pure ht

end Types

section Expressions

variable {inner inner' : Rank → Parse Expr}
  (hinner : ∀ rank t, t.Within room bound →
    Matches (inner rank) (inner' rank) t (State.Within room bound))
include hinner

theorem matches_primary (hs : s.Within room (bound + 1)) :
    Matches (primary inner) (primary inner') s (State.Within room bound) := by
  refine Matches.currentSpan_bind fun span => Matches.peek_bind fun next hnext => ?_
  have hpast : next ≠ none → s.advance.Within room bound := fun h => hs.advance_past (hnext ▸ h)
  split
  · exact Matches.advance_bind (Matches.pure (hpast (by simp)))
  · exact Matches.advance_bind (Matches.pure (hpast (by simp)))
  · exact Matches.advance_bind (Matches.pure (hpast (by simp)))
  · exact Matches.advance_bind (Matches.pure (hpast (by simp)))
  · exact Matches.advance_bind (Matches.pure (hpast (by simp)))
  · refine Matches.advance_bind (Matches.bind (hinner _ _ (hpast (by simp))) fun a t ht => ?_)
    exact Matches.expect_bind fun _ => Matches.spanFrom_bind fun _ => Matches.pure ht.advance
  · refine Matches.advance_bind (Matches.bind (Matches.listUntil (fun t ht => ht.advance)
      (hinner _) (hpast (by simp))) fun as t ht => ?_)
    exact Matches.expect_bind fun _ => Matches.spanFrom_bind fun _ => Matches.pure ht.advance
  · split
    next hname =>
      refine Matches.advance_bind (Matches.pure (hpast ?_))
      rintro rfl
      simp at hname
    next => exact Matches.fail

theorem matches_access (start : Nat) (object : Expr) (hs : s.Within room bound) :
    Matches (access inner start object) (access inner' start object) s (State.Within room bound) := by
  refine Matches.peek_bind fun next _ => ?_
  have hdeeper := hs.descend.advance
  split
  · refine Matches.descend_bind (Matches.advance_bind ?_)
    refine Matches.bind (Matches.listUntil (fun t ht => ht.advance) (hinner _) hdeeper)
      fun as t ht => ?_
    exact Matches.expect_bind fun _ => Matches.spanFrom_bind fun _ => Matches.pure ht.advance
  · refine Matches.descend_bind (Matches.advance_bind (Matches.ident_bind fun name _ => ?_))
    exact Matches.spanFrom_bind fun _ => Matches.pure hdeeper.advance
  · refine Matches.descend_bind (Matches.advance_bind ?_)
    refine Matches.bind (hinner _ _ hdeeper) fun a t ht => Matches.expect_bind fun _ => ?_
    exact Matches.spanFrom_bind fun _ => Matches.pure ht.advance
  · exact Matches.pure hs

theorem matches_unary (hs : s.Within room (bound + 1)) :
    Matches (unary inner) (unary inner') s (State.Within room bound) := by
  refine Matches.currentSpan_bind fun span => Matches.peek_bind fun next hnext => ?_
  have hoperand : ∀ {f : Expr → Span → Expr}, next ≠ none →
      Matches (do advance; let operand ← inner .unary; return f operand (← spanFrom span.start))
        (do advance; let operand ← inner' .unary; return f operand (← spanFrom span.start)) s
        (State.Within room bound) := by
    intro f h
    refine Matches.advance_bind ?_
    refine Matches.bind (hinner _ _ (hs.advance_past (hnext ▸ h))) fun a t ht => ?_
    exact Matches.spanFrom_bind fun _ => Matches.pure ht
  split
  next op hop => exact hoperand (by rintro rfl; simp at hop)
  next =>
    split
    next htypeof => exact hoperand (by simp [htypeof])
    next =>
      refine Matches.currentSpan_bind fun span => ?_
      refine Matches.bind (matches_primary hinner hs) fun a t ht => ?_
      exact Matches.loop (fun b u hu => matches_access hinner _ b hu) a ht

theorem matches_operation (least : Nat) (left : Expr) (hs : s.Within room bound) :
    Matches (operation inner least left) (operation inner' least left) s
      (State.Within room bound) := by
  refine Matches.peek_bind fun next _ => ?_
  split
  · split
    · exact Matches.pure hs
    · refine Matches.descend_bind (Matches.advance_bind ?_)
      exact Matches.bind (hinner _ _ hs.descend.advance) fun a t ht => Matches.pure ht
  · exact Matches.pure hs

theorem matches_binary (least : Nat) (hs : s.Within room (bound + 1)) :
    Matches (binary inner least) (binary inner' least) s (State.Within room bound) :=
  Matches.bind (matches_unary hinner hs) fun a _ ht =>
    Matches.loop (fun b _ hu => matches_operation hinner least b hu) a ht

theorem matches_conditional (hs : s.Within room (bound + 1)) :
    Matches (conditional inner) (conditional inner') s (State.Within room bound) := by
  refine Matches.bind (matches_binary hinner 1 hs) fun a t ht => ?_
  refine Matches.eat_bind (fun _ => ?_) (Matches.pure ht)
  refine Matches.bind (hinner _ _ ht.advance) fun b u hu => Matches.expect_bind fun _ => ?_
  exact Matches.bind (hinner _ _ hu.advance) fun c v hv => Matches.pure hv

theorem matches_assignment (hs : s.Within room (bound + 1)) :
    Matches (assignment inner) (assignment inner') s (State.Within room bound) := by
  refine Matches.bind (matches_conditional hinner hs) fun a t ht => Matches.peek_bind fun next _ => ?_
  split
  · split
    · refine Matches.advance_bind (Matches.bind (hinner _ _ ht.advance) fun b u hu => ?_)
      exact Matches.pure hu
    · exact Matches.throw
  · exact Matches.pure ht

theorem matches_ofRank (hs : s.Within room (bound + 1)) :
    ∀ rank, Matches (ofRank inner rank) (ofRank inner' rank) s (State.Within room bound)
  | .assignment => matches_assignment hinner hs
  | .binary least => matches_binary hinner least hs
  | .unary => matches_unary hinner hs

end Expressions

/-! ### Statements -/

/-- The readers of a part are alike where they are asked. An expression may be asked for before
anything has been consumed. -/
structure MatchingParts (room bound : Nat) (inner inner' : Parts) : Prop where
  typeExpr : ∀ t, t.Within room bound →
    Matches inner.typeExpr inner'.typeExpr t (State.Within room bound)
  expression : ∀ t, t.Within room (bound + 1) →
    Matches inner.expression inner'.expression t (State.Within room bound)
  statement : ∀ t, t.Within room bound → inner'.statement t = inner.statement t ∧
    Ends inner.statement t (fun _ u => u.Within room bound) fun u => u.Within room bound

theorem matches_statements {statement statement' : Parse Stmt} {close : Option Token}
    (hstatement : ∀ t, t.Within room bound → statement' t = statement t ∧
      Ends statement t (fun _ u => u.Within room bound) fun u => u.Within room bound)
    (hs : s.Within room bound) :
    Matches (statements statement close) (statements statement' close) s
      (State.Within room bound) := by
  refine Matches.loop (fun body t ht => Matches.peek_bind fun next _ => ?_) [] hs
  split
  · exact Matches.pure ht
  · refine Matches.eat_bind (fun _ => Matches.pure ht.advance) ?_
    refine Matches.currentSpan_bind fun span => ?_
    obtain ⟨hsame, hends⟩ := hstatement t ht
    refine Matches.attempt_bind hsame hends (fun a u hu => Matches.pure hu) fun e u hu => ?_
    -- what is passed over asks for no inner reader
    have hrecover : Ends (recover span.start e) u (fun _ v => v.Within room bound) fun _ => True :=
      Ends.recover (fun v hv => hv.advance) (fun e v hv => hv.note e) hu
    exact Matches.bind ⟨rfl, hrecover⟩ fun _ v hv => Matches.pure hv

/-- The semicolon that may end a statement, and its span. -/
theorem matches_ended {α : Type} {f : Span → α} {start : Nat} (hs : s.Within room bound) :
    Matches (do let _ ← eat (.punctuator .semicolon); return f (← spanFrom start))
      (do let _ ← eat (.punctuator .semicolon); return f (← spanFrom start)) s
      (State.Within room bound) :=
  Matches.eat_bind (fun _ => Matches.spanFrom_bind fun _ => Matches.pure hs.advance)
    (Matches.spanFrom_bind fun _ => Matches.pure hs)

section Statements

variable {inner inner' : Parts} (hinner : MatchingParts room bound inner inner')
include hinner

theorem matches_block (hs : s.Within room (bound + 1)) :
    Matches (block inner.statement) (block inner'.statement) s (State.Within room bound) := by
  refine Matches.currentSpan_bind fun span => Matches.expect_bind fun htok => ?_
  refine Matches.bind (matches_statements hinner.statement (hs.advance_past htok)) fun body t ht => ?_
  exact Matches.expect_bind fun _ => Matches.spanFrom_bind fun _ => Matches.pure ht.advance

theorem matches_writtenType {sign : Punctuator} (hs : s.Within room bound) :
    Matches (optionalAfter sign inner.typeExpr) (optionalAfter sign inner'.typeExpr) s
      (State.Within room bound) :=
  Matches.optionalAfter (fun _ ht => ht.advance) hinner.typeExpr hs

theorem matches_value {t : State} (ht : t.Within room bound) :
    Matches inner.expression inner'.expression t (State.Within room bound) :=
  hinner.expression t (ht.mono (Nat.le_succ _))

theorem matches_declarator (hs : s.Within room bound) :
    Matches (declarator inner) (declarator inner') s (State.Within room bound) := by
  refine Matches.ident_bind fun name _ => ?_
  refine Matches.bind (matches_writtenType hinner hs.advance) fun type t ht => ?_
  refine Matches.bind (Matches.optionalAfter (fun _ ht => ht.advance)
    (fun _ => matches_value hinner) ht) fun value u hu => ?_
  exact Matches.spanFrom_bind fun _ => Matches.pure hu

theorem matches_declaration {kind : DeclKind} (hs : s.Within room (bound + 1))
    (htok : s.token? ≠ none) :
    Matches (declaration inner kind) (declaration inner' kind) s (State.Within room bound) := by
  refine Matches.currentSpan_bind fun span => Matches.advance_bind ?_
  refine Matches.bind (Matches.separated (fun _ => id) (fun _ ht => ht.advance)
    (fun _ => matches_declarator hinner) (hs.advance_past htok)) fun ds t ht => ?_
  exact Matches.spanFrom_bind fun _ => Matches.pure ht

theorem matches_parameter (hs : s.Within room bound) :
    Matches (parameter inner) (parameter inner') s (State.Within room bound) := by
  refine Matches.ident_bind fun name _ => ?_
  refine Matches.bind (matches_writtenType hinner hs.advance) fun type t ht => ?_
  exact Matches.spanFrom_bind fun _ => Matches.pure ht

theorem matches_parameters (hs : s.Within room bound) :
    Matches (parameters inner) (parameters inner') s (State.Within room bound) := by
  refine Matches.expect_bind fun _ => Matches.peek_bind fun next _ => ?_
  split
  · refine Matches.bind (Matches.pure hs.advance) fun ps t ht => ?_
    exact Matches.expect_bind fun _ => Matches.pure ht.advance
  · refine Matches.bind (Matches.separated (fun _ => id) (fun _ ht => ht.advance)
      (fun _ => matches_parameter hinner) hs.advance) fun ps t ht => ?_
    exact Matches.expect_bind fun _ => Matches.pure ht.advance

theorem matches_function (hs : s.Within room (bound + 1)) (htok : s.token? ≠ none) :
    Matches (function inner) (function inner') s (State.Within room bound) := by
  refine Matches.currentSpan_bind fun span => Matches.advance_bind ?_
  refine Matches.ident_bind fun name _ => ?_
  refine Matches.bind (matches_parameters hinner (hs.advance_past htok).advance) fun ps t ht => ?_
  refine Matches.bind (matches_writtenType hinner ht) fun type u hu => ?_
  refine Matches.bind (matches_block hinner (hu.mono (Nat.le_succ _))) fun body v hv => ?_
  exact Matches.spanFrom_bind fun _ => Matches.pure hv

theorem matches_condition (hs : s.Within room bound) :
    Matches (condition inner) (condition inner') s (State.Within room bound) := by
  refine Matches.expect_bind fun _ => ?_
  refine Matches.bind (matches_value hinner hs.advance) fun e t ht => ?_
  exact Matches.expect_bind fun _ => Matches.pure ht.advance

theorem matches_branch {t : State} (ht : t.Within room bound) :
    Matches inner.statement inner'.statement t (State.Within room bound) :=
  ⟨(hinner.statement t ht).1, (hinner.statement t ht).2.imp (fun _ _ => id) fun _ _ => trivial⟩

theorem matches_ifStatement (hs : s.Within room (bound + 1)) (htok : s.token? ≠ none) :
    Matches (ifStatement inner) (ifStatement inner') s (State.Within room bound) := by
  refine Matches.currentSpan_bind fun span => Matches.advance_bind ?_
  refine Matches.bind (matches_condition hinner (hs.advance_past htok)) fun e t ht => ?_
  refine Matches.bind (matches_branch hinner ht) fun stmt u hu => Matches.eat_bind (fun _ => ?_) ?_
  · refine Matches.bind (matches_branch hinner hu.advance) fun stmt' v hv => ?_
    exact Matches.spanFrom_bind fun _ => Matches.pure hv
  · exact Matches.spanFrom_bind fun _ => Matches.pure hu

theorem matches_whileStatement (hs : s.Within room (bound + 1)) (htok : s.token? ≠ none) :
    Matches (whileStatement inner) (whileStatement inner') s (State.Within room bound) := by
  refine Matches.currentSpan_bind fun span => Matches.advance_bind ?_
  refine Matches.bind (matches_condition hinner (hs.advance_past htok)) fun e t ht => ?_
  refine Matches.bind (matches_branch hinner ht) fun stmt u hu => ?_
  exact Matches.spanFrom_bind fun _ => Matches.pure hu

theorem matches_expressionUnless {sign : Punctuator} (hs : s.Within room bound) :
    Matches (expressionUnless inner sign) (expressionUnless inner' sign) s
      (State.Within room bound) := by
  refine Matches.peek_bind fun next _ => ?_
  split
  · exact Matches.pure hs
  · exact Matches.bind (matches_value hinner hs) fun e t ht => Matches.pure ht

theorem matches_forStart (hs : s.Within room bound) :
    Matches (forStart inner) (forStart inner') s (State.Within room bound) := by
  refine Matches.peek_bind fun next hnext => ?_
  split
  next kind hkind =>
    have htok : s.token? ≠ none := by
      rw [hnext]
      rintro rfl
      simp at hkind
    refine Matches.bind (matches_declaration hinner (hs.mono (Nat.le_succ _)) htok) fun d t ht => ?_
    exact Matches.pure ht
  next => exact Matches.bind (matches_expressionUnless hinner hs) fun e t ht => Matches.pure ht

theorem matches_forStatement (hs : s.Within room (bound + 1)) (htok : s.token? ≠ none) :
    Matches (forStatement inner) (forStatement inner') s (State.Within room bound) := by
  have hpast := hs.advance_past htok
  refine Matches.currentSpan_bind fun span => Matches.advance_bind (Matches.expect_bind fun _ => ?_)
  refine Matches.bind (matches_forStart hinner hpast.advance) fun first t ht => ?_
  refine Matches.expect_bind fun _ => ?_
  refine Matches.bind (matches_expressionUnless hinner ht.advance) fun e u hu => ?_
  refine Matches.expect_bind fun _ => ?_
  refine Matches.bind (matches_expressionUnless hinner hu.advance) fun e' v hv => ?_
  refine Matches.expect_bind fun _ => ?_
  refine Matches.bind (matches_branch hinner hv.advance) fun stmt x hx => ?_
  exact Matches.spanFrom_bind fun _ => Matches.pure hx

theorem matches_returnStatement (hs : s.Within room (bound + 1)) (htok : s.token? ≠ none) :
    Matches (returnStatement inner) (returnStatement inner') s (State.Within room bound) := by
  have hpast := hs.advance_past htok
  refine Matches.currentSpan_bind fun span => Matches.advance_bind ?_
  refine Matches.peek_bind fun next _ => ?_
  split
  · exact Matches.bind (Matches.pure hpast) fun value t ht => matches_ended ht
  · refine Matches.bind (I := State.Within room bound) ?_ fun value t ht => matches_ended ht
    exact Matches.bind (matches_value hinner hpast) fun e t ht => Matches.pure ht

theorem matches_variableStatement {kind : DeclKind} (hs : s.Within room (bound + 1))
    (htok : s.token? ≠ none) :
    Matches (variableStatement inner kind) (variableStatement inner' kind) s
      (State.Within room bound) := by
  refine Matches.currentSpan_bind fun span => ?_
  exact Matches.bind (matches_declaration hinner hs htok) fun d t ht => matches_ended ht

theorem matches_expressionStatement (hs : s.Within room (bound + 1)) :
    Matches (expressionStatement inner) (expressionStatement inner') s
      (State.Within room bound) := by
  refine Matches.currentSpan_bind fun span => ?_
  exact Matches.bind (hinner.expression s hs) fun e t ht => matches_ended ht

theorem matches_statementWith (hs : s.Within room (bound + 1)) :
    Matches (statementWith inner) (statementWith inner') s (State.Within room bound) := by
  refine Matches.peek_bind fun next hnext => ?_
  have htok : next ≠ none → s.token? ≠ none := fun h => hnext ▸ h
  split
  next kind hkind =>
    refine matches_variableStatement hinner hs (htok ?_)
    rintro rfl
    simp at hkind
  next =>
    split
    · exact matches_function hinner hs (htok (by simp))
    · exact Matches.bind (matches_block hinner hs) fun _ _ ht => Matches.pure ht
    · exact matches_ifStatement hinner hs (htok (by simp))
    · exact matches_whileStatement hinner hs (htok (by simp))
    · exact matches_forStatement hinner hs (htok (by simp))
    · exact matches_returnStatement hinner hs (htok (by simp))
    · exact matches_expressionStatement hinner hs

end Statements

end Grammar

end ScriptLint.Parse
