import ScriptLint.Proofs.Layout.Alignment
import ScriptLint.Proofs.Parsing.Run
import ScriptLint.Proofs.Syntax.Alike
/-!
# Reading aligned texts

Two readers agree when on aligned texts both succeed, with related values,
or both fail, with one problem at corresponding places, and leave the texts
aligned. There is one rule for each way to build a reader. The places in a
text decide about nothing but one another: which of two starts comes first,
and whether they are the same.

Key definitions: `State.Alike`, `Agree`.
Key theorems: `Agree.bind`, `agree_loop`.
-/

namespace ScriptLint

/-- One syntax error at two places. -/
structure SyntaxError.Alike (ρ : Span → Span → Prop) (e e' : SyntaxError) : Prop where
  problem : e.problem = e'.problem
  span : ρ e.span e'.span

/-- One token or one lexical error at two places. -/
inductive Scanned.Alike (ρ : Span → Span → Prop) : Scanned → Scanned → Prop where
  | ok {w w' : Lexeme} : w.token = w'.token → ρ w.span w'.span → Alike ρ (.ok w) (.ok w')
  | error {e e' : LexicalError} :
    e.fault = e'.fault → ρ e.span e'.span → Alike ρ (.error e) (.error e')

namespace Parse

variable {A : Alignment}

/-- A reader at corresponding places of two texts. -/
structure State.Alike (A : Alignment) (s t : State) : Prop where
  ahead : List.Forall₂ (Scanned.Alike A.Spans) s.ahead t.ahead
  stop : A.starts s.stop t.stop
  consumedTo : A.stops s.consumedTo t.consumedTo
  room : s.room = t.room
  noted : ∃ recent, t.log = recent ++ A.earlier ∧
    List.Forall₂ (SyntaxError.Alike A.Spans) s.log recent

namespace State.Alike

variable {s t : State}

/-- If nothing was noted before, all errors correspond. -/
theorem log (h : s.Alike A t) (hA : A.earlier = [] := by rfl) :
    List.Forall₂ (SyntaxError.Alike A.Spans) s.log t.log := by
  obtain ⟨recent, hlog, hrecent⟩ := h.noted
  rw [hlog, hA, List.append_nil]
  exact hrecent

theorem token? (h : s.Alike A t) : s.token? = t.token? := by
  have hahead := h.ahead
  unfold State.token?
  generalize s.ahead = xs at hahead ⊢
  generalize t.ahead = ys at hahead ⊢
  cases hahead with
  | nil => rfl
  | cons hitem _ =>
    cases hitem with
    | ok htoken _ => exact congrArg some htoken
    | error _ _ => rfl

theorem span (h : s.Alike A t) : A.Spans s.span t.span := by
  have hahead := h.ahead
  have hstop := Alignment.spans_emptyAt h.stop
  unfold State.span
  generalize s.ahead = xs at hahead ⊢
  generalize t.ahead = ys at hahead ⊢
  cases hahead with
  | nil => exact hstop
  | cons hitem _ =>
    cases hitem with
    | ok _ hspan => exact hspan
    | error _ _ => exact hstop

theorem withRoom (h : s.Alike A t) (r : Nat) :
    State.Alike A { s with room := r } { t with room := r } :=
  ⟨h.ahead, h.stop, h.consumedTo, rfl, h.noted⟩

theorem note (h : s.Alike A t) {e e' : SyntaxError} (he : e.Alike A.Spans e') :
    State.Alike A (s.note e) (t.note e') := by
  obtain ⟨recent, hlog, hrecent⟩ := h.noted
  refine ⟨h.ahead, h.stop, h.consumedTo, h.room, e' :: recent, ?_, .cons he hrecent⟩
  rw [List.cons_append, ← hlog]
  rfl

/-- Lexical errors at corresponding places are passed over together. -/
theorem settle (h : s.Alike A t) : State.Alike A s.settle t.settle := by
  have hahead : ∀ {xs ys}, List.Forall₂ (Scanned.Alike A.Spans) xs ys →
      List.Forall₂ (Scanned.Alike A.Spans) (dropErrors xs) (dropErrors ys) ∧
      List.Forall₂ (SyntaxError.Alike A.Spans)
        ((leadingErrors xs).map .ofLexical) ((leadingErrors ys).map .ofLexical) := by
    intro xs ys hxy
    induction hxy with
    | nil => exact ⟨.nil, .nil⟩
    | cons hitem hrest ih =>
      cases hitem with
      | ok htoken hspan => exact ⟨.cons (.ok htoken hspan) hrest, .nil⟩
      | error hfault hspan =>
        exact ⟨ih.1, .cons ⟨congrArg SyntaxProblem.lexical hfault, hspan⟩ ih.2⟩
  obtain ⟨hdrop, hlead⟩ := hahead h.ahead
  obtain ⟨recent, hlog, hrecent⟩ := h.noted
  refine ⟨hdrop, h.stop, h.consumedTo, h.room,
    ((leadingErrors t.ahead).map .ofLexical).reverse ++ recent, ?_, ?_⟩
  · rw [List.append_assoc, ← hlog]
    rfl
  · exact List.rel_append (List.forall₂_reverse_iff.mpr hlead) hrecent

theorem advance (h : s.Alike A t) : State.Alike A s.advance t.advance := by
  have hahead := h.ahead
  unfold State.advance
  generalize s.ahead = xs at hahead ⊢
  generalize t.ahead = ys at hahead ⊢
  cases hahead with
  | nil => exact h
  | cons hitem hrest =>
    cases hitem with
    | ok _ hspan => exact settle ⟨hrest, h.stop, hspan.stop, h.room, h.noted⟩
    | error _ _ => exact h

end State.Alike

/-! ### Readers that agree -/

section Rules

variable {α β γ δ : Type} {R : α → β → Prop} {Q : γ → δ → Prop}

/-- Two readers ended alike. -/
inductive Ended.Alike (A : Alignment) (R : α → β → Prop) :
    EStateM.Result SyntaxError State α → EStateM.Result SyntaxError State β → Prop where
  | ok {a : α} {b : β} {s t : State} : R a b → s.Alike A t → Alike A R (.ok a s) (.ok b t)
  | error {e e' : SyntaxError} {s t : State} :
    e.Alike A.Spans e' → s.Alike A t → Alike A R (.error e s) (.error e' t)

/-- On aligned texts the two readers end alike, with values related by `R`. -/
def Agree (A : Alignment) (R : α → β → Prop) (p : Parse α) (q : Parse β) : Prop :=
  ∀ s t : State, s.Alike A t → Ended.Alike A R (p s) (q t)

namespace Agree

theorem pure {a : α} {b : β} (h : R a b) : Agree A R (Pure.pure a) (Pure.pure b) :=
  fun _ _ hst => .ok h hst

theorem throw {e e' : SyntaxError} (h : e.Alike A.Spans e') :
    Agree A R (throw e) (MonadExceptOf.throw e') :=
  fun _ _ hst => .error h hst

theorem fail (problem : SyntaxProblem) : Agree A R (Parse.fail problem) (Parse.fail problem) :=
  fun _ _ hst => .error ⟨rfl, hst.span⟩ hst

/-- One reader after the other. -/
theorem bind {p : Parse γ} {q : Parse δ} {f : γ → Parse α} {g : δ → Parse β} (hpq : Agree A Q p q)
    (hfg : ∀ c d, Q c d → Agree A R (f c) (g d)) : Agree A R (p >>= f) (q >>= g) := by
  intro s t hst
  have h := hpq s t hst
  rw [bind_run, bind_run]
  generalize p s = r at h ⊢
  generalize q t = r' at h ⊢
  cases h with
  | ok hcd hst' => exact hfg _ _ hcd _ _ hst'
  | error he hst' => exact .error he hst'

/-- The next token is the same in both texts. -/
theorem peek_bind {f : Option Token → Parse α} {g : Option Token → Parse β}
    (h : ∀ token, Agree A R (f token) (g token)) : Agree A R (peek >>= f) (peek >>= g) := by
  intro s t hst
  have hf := h s.token? s t hst
  show Ended.Alike A R (f s.token? s) (g t.token? t)
  rw [← hst.token?]
  exact hf

end Agree

theorem agree_currentSpan : Agree A A.Spans currentSpan currentSpan :=
  fun _ _ hst => .ok hst.span hst

theorem agree_advance : Agree A (fun _ _ => True) advance advance :=
  fun _ _ hst => .ok trivial hst.advance

theorem agree_note {e e' : SyntaxError} (h : e.Alike A.Spans e') :
    Agree A (fun _ _ => True) (modify (State.note e)) (modify (State.note e')) :=
  fun _ _ hst => .ok trivial (hst.note h)

theorem agree_spanFrom {a b : Nat} (h : A.starts a b) :
    Agree A A.Spans (spanFrom a) (spanFrom b) :=
  fun _ _ hst => .ok (Alignment.spans_upTo h hst.consumedTo) hst

theorem agree_eat (token : Token) : Agree A (· = ·) (eat token) (eat token) := by
  refine Agree.peek_bind fun next => ?_
  split
  · exact Agree.bind agree_advance fun _ _ _ => Agree.pure rfl
  · exact Agree.pure rfl

theorem agree_expect (sign : Punctuator) :
    Agree A (fun _ _ => True) (expect sign) (expect sign) := by
  refine Agree.bind (agree_eat _) fun found _ hfound => ?_
  subst hfound
  cases found
  · exact Agree.fail _
  · exact Agree.pure trivial

theorem agree_ident : Agree A (Ident.Alike A.Spans) ident ident := by
  refine Agree.bind agree_currentSpan fun span span' hspan => Agree.peek_bind fun token => ?_
  split
  · exact Agree.bind agree_advance fun _ _ _ => Agree.pure ⟨rfl, hspan⟩
  · exact Agree.fail _

theorem agree_descend : Agree A (fun _ _ => True) descend descend := by
  intro s t hst
  rw [descend_run, descend_run, ← hst.room]
  by_cases h : s.room = 0
  · rw [if_pos h, if_pos h]
    exact .error ⟨rfl, hst.span⟩ hst
  · rw [if_neg h, if_neg h]
    exact .ok trivial (hst.withRoom _)

theorem agree_nested {p : Parse α} {q : Parse β} (h : Agree A R p q) :
    Agree A R (nested p) (nested q) := by
  intro s t hst
  rw [nested_run, nested_run, ← hst.room]
  by_cases hr : s.room = 0
  · rw [if_pos hr, if_pos hr]
    exact .error ⟨rfl, hst.span⟩ hst
  · rw [if_neg hr, if_neg hr]
    have hpq := h _ _ (hst.withRoom (s.room - 1))
    generalize p { s with room := s.room - 1 } = r at hpq ⊢
    generalize q { t with room := s.room - 1 } = r' at hpq ⊢
    cases hpq with
    | ok hab hst' => exact .ok hab (hst'.withRoom _)
    | error he hst' => exact .error he (hst'.withRoom _)

/-- Two attempts with related values, or with one error. -/
inductive Tried.Alike (A : Alignment) (R : α → β → Prop) :
    Except SyntaxError α → Except SyntaxError β → Prop where
  | ok {a : α} {b : β} : R a b → Alike A R (.ok a) (.ok b)
  | error {e e' : SyntaxError} : e.Alike A.Spans e' → Alike A R (.error e) (.error e')

theorem agree_attempt {p : Parse α} {q : Parse β} (h : Agree A R p q) :
    Agree A (Tried.Alike A R) (attempt p) (attempt q) := by
  intro s t hst
  rw [attempt_run, attempt_run]
  have hpq := h s t hst
  generalize p s = r at hpq ⊢
  generalize q t = r' at hpq ⊢
  cases hpq with
  | ok hab hst' => exact .ok (.ok hab) hst'
  | error he hst' => exact .ok (.error he) hst'

theorem agree_optionalAfter {p : Parse α} {q : Parse β} (sign : Punctuator) (h : Agree A R p q) :
    Agree A (Option.Rel R) (optionalAfter sign p) (optionalAfter sign q) := by
  refine Agree.bind (agree_eat _) fun found _ hfound => ?_
  subst hfound
  cases found
  · exact Agree.pure .none
  · exact Agree.bind h fun _ _ hab => Agree.pure (.some hab)

/-! ### Loops and lists -/

/-- Two rounds of a loop end alike. -/
inductive Round.Alike (R : α → β → Prop) : Round α → Round β → Prop where
  | again {a : α} {b : β} : R a b → Alike R (.again a) (.again b)
  | done {a : α} {b : β} : R a b → Alike R (.done a) (.done b)

/-- **Loops agree if their rounds do.** Both go on equally often, since the same number of tokens
is ahead of both. -/
theorem agree_loop {round : α → Parse (Round α)} {round' : β → Parse (Round β)}
    (hround : ∀ a b, R a b → Agree A (Round.Alike R) (round a) (round' b)) {a : α} {b : β}
    (h : R a b) : Agree A R (loop round a) (loop round' b) := by
  intro s t hst
  induction hn : s.ahead.length using Nat.strongRecOn generalizing a b s t with
  | ind n ih =>
    have hr := hround a b h s t hst
    rw [loop_run, loop_run]
    generalize round a s = r at hr ⊢
    generalize round' b t = r' at hr ⊢
    cases hr with
    | error he hst' => exact .error he hst'
    | ok hcd hst' =>
      cases hcd with
      | done hcd => exact .ok hcd hst'
      | again hcd =>
        simp only [← hst'.ahead.length_eq, ← hst.ahead.length_eq]
        split
        next hlt => exact ih _ (hn ▸ hlt) hcd _ _ hst' rfl
        next => exact .ok hcd hst'

theorem agree_separated {p : Parse α} {q : Parse β} (sign : Punctuator) (h : Agree A R p q) :
    Agree A (List.Forall₂ R) (separated sign p) (separated sign q) := by
  refine Agree.bind h fun a b hab => agree_loop (fun as bs hlist => ?_) (.cons hab .nil)
  refine Agree.bind (agree_eat _) fun found _ hfound => ?_
  subst hfound
  cases found
  · exact Agree.pure (.done hlist)
  · exact Agree.bind h fun c d hcd =>
      Agree.pure (.again (List.rel_append hlist (.cons hcd .nil)))

theorem agree_listUntil {p : Parse α} {q : Parse β} (close : Punctuator) (h : Agree A R p q) :
    Agree A (List.Forall₂ R) (listUntil close p) (listUntil close q) := by
  refine agree_loop (fun as bs hlist => Agree.peek_bind fun token => ?_) .nil
  split
  · exact Agree.pure (.done hlist)
  · refine Agree.bind h fun c d hcd => Agree.bind (agree_eat _) fun found _ hfound => ?_
    have hlist' := List.rel_append hlist (.cons hcd .nil)
    subst hfound
    cases found
    · exact Agree.pure (.done hlist')
    · exact Agree.pure (.again hlist')

end Rules

end Parse

end ScriptLint
