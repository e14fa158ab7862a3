import ScriptLint.Proofs.Parsing.Run
/-!
# How a reader ends

`Ends p s Q E` says how the reader `p` ends when it starts at `s`: with a
value and a state of which `Q` holds if it succeeds, and in a state of which
`E` holds if it fails. There is one rule for each way to build a reader, so
that a property of states is carried through the grammar by looking only at
the places where a token is consumed or a level is taken. A loop ends as its
rounds do (`Ends.loop`).

Key definitions: `Ends`.
Key theorems: `Ends.bind`, `Ends.nested`, `Ends.loop`, `Ends.separated`, `Ends.listUntil`,
`Ends.statements`.
-/

namespace ScriptLint.Parse

variable {α β : Type}

@[simp] theorem State.room_settle (s : State) : s.settle.room = s.room := rfl

@[simp] theorem State.room_advance (s : State) : s.advance.room = s.room := by
  unfold State.advance
  split <;> rfl

@[simp] theorem State.room_note (s : State) (e : SyntaxError) : (s.note e).room = s.room := rfl

/-- The reader ends with `Q` if it succeeds, and with `E` if it fails. -/
def Ends (p : Parse α) (s : State) (Q : α → State → Prop) (E : State → Prop) : Prop :=
  match p s with
  | .ok a t => Q a t
  | .error _ t => E t

/-- The value that a round of a loop leaves to what comes next. -/
def Round.value : Round α → α
  | .again a => a
  | .done a => a

@[simp] theorem Round.value_again (a : α) : (Round.again a).value = a := rfl

@[simp] theorem Round.value_done (a : α) : (Round.done a).value = a := rfl

namespace Ends

variable {s : State} {p : Parse α} {f : α → Parse β} {P : α → State → Prop}
  {Q : β → State → Prop} {E E' : State → Prop}

theorem of_ok {a : α} {t : State} (h : Ends p s P E) (hp : p s = .ok a t) : P a t := by
  rwa [Ends, hp] at h

theorem of_error {e : SyntaxError} {t : State} (h : Ends p s P E) (hp : p s = .error e t) : E t := by
  rwa [Ends, hp] at h

theorem of_forall (hP : ∀ a t, P a t) (hE : ∀ t, E t) : Ends p s P E := by
  unfold Ends
  cases p s with
  | ok a t => exact hP a t
  | error e t => exact hE t

/-- Less may be said about the end. -/
theorem imp {P' : α → State → Prop} (h : Ends p s P E) (hP : ∀ a t, P a t → P' a t)
    (hE : ∀ t, E t → E' t) : Ends p s P' E' := by
  unfold Ends at h ⊢
  cases hp : p s with
  | ok a t =>
    rw [hp] at h
    exact hP a t h
  | error e t =>
    rw [hp] at h
    exact hE t h

theorem pure {b : β} (h : Q b s) : Ends (Pure.pure b) s Q E := h

theorem throw {e : SyntaxError} (h : E s) : Ends (throw e) s Q E := h

theorem fail {problem : SyntaxProblem} (h : E s) : Ends (Parse.fail problem) s Q E := h

/-- One reader after the other. -/
theorem bind (hp : Ends p s P E) (hf : ∀ a t, P a t → Ends (f a) t Q E) :
    Ends (p >>= f) s Q E := by
  unfold Ends at hp ⊢
  rw [bind_run]
  cases h : p s with
  | ok a t =>
    rw [h] at hp
    exact hf a t hp
  | error e t =>
    rw [h] at hp
    exact hp

theorem peek_bind {f : Option Token → Parse β} (h : Ends (f s.token?) s Q E) :
    Ends (peek >>= f) s Q E := h

theorem currentSpan_bind {f : Span → Parse β} (h : Ends (f s.span) s Q E) :
    Ends (currentSpan >>= f) s Q E := h

theorem spanFrom_bind {start : Nat} {f : Span → Parse β}
    (h : Ends (f (Span.upTo start s.consumedTo)) s Q E) : Ends (spanFrom start >>= f) s Q E := h

theorem advance_bind {f : Unit → Parse β} (h : Ends (f ()) s.advance Q E) :
    Ends (Parse.advance >>= f) s Q E := h

theorem note_bind {f : Unit → Parse β} {e : SyntaxError} (h : Ends (f ()) (s.note e) Q E) :
    Ends (modify (State.note e) >>= f) s Q E := h

theorem eat_bind {f : Bool → Parse β} {token : Token}
    (hyes : s.token? = some token → Ends (f true) s.advance Q E)
    (hno : s.token? ≠ some token → Ends (f false) s Q E) : Ends (eat token >>= f) s Q E := by
  unfold Ends
  rw [bind_run, eat_run]
  by_cases h : s.token? = some token
  · rw [if_pos h]
    exact hyes h
  · rw [if_neg h]
    exact hno h

theorem expect_bind {f : Unit → Parse β} {sign : Punctuator}
    (hyes : s.token? = some (.punctuator sign) → Ends (f ()) s.advance Q E)
    (hno : s.token? ≠ some (.punctuator sign) → E s) : Ends (expect sign >>= f) s Q E := by
  unfold Ends
  rw [bind_run, expect_run]
  by_cases h : s.token? = some (.punctuator sign)
  · rw [if_pos h]
    exact hyes h
  · rw [if_neg h]
    exact hno h

theorem ident_bind {f : Ident → Parse β}
    (hyes : ∀ token name, s.token? = some token → token.name? = some name →
      Ends (f ⟨name, s.span⟩) s.advance Q E)
    (hno : E s) : Ends (ident >>= f) s Q E := by
  unfold Ends
  rw [bind_run, ident_run]
  cases h : s.token?.bind Token.name? with
  | none => exact hno
  | some name =>
    obtain ⟨token, htoken, hname⟩ := Option.bind_eq_some_iff.mp h
    exact hyes token name htoken hname

theorem descend_bind {f : Unit → Parse β}
    (hyes : s.room ≠ 0 → Ends (f ()) { s with room := s.room - 1 } Q E) (hno : E s) :
    Ends (descend >>= f) s Q E := by
  unfold Ends
  rw [bind_run, descend_run]
  by_cases h : s.room = 0
  · rw [if_pos h]
    exact hno
  · rw [if_neg h]
    exact hyes h

/-- A nested reader has one level less, and gives all levels back at the end. -/
theorem nested (hyes : s.room ≠ 0 → Ends p { s with room := s.room - 1 }
      (fun a t => P a { t with room := s.room }) (fun t => E { t with room := s.room }))
    (hno : E s) : Ends (Parse.nested p) s P E := by
  unfold Ends at hyes ⊢
  rw [nested_run]
  by_cases h : s.room = 0
  · rw [if_pos h]
    exact hno
  · rw [if_neg h]
    have hp := hyes h
    cases hr : p { s with room := s.room - 1 } with
    | ok a t =>
      rw [hr] at hp
      exact hp
    | error e t =>
      rw [hr] at hp
      exact hp

theorem room_nested (p : Parse α) (s : State) :
    Ends (Parse.nested p) s (fun _ t => t.room = s.room) fun t => t.room = s.room :=
  nested (fun _ => of_forall (fun _ _ => rfl) fun _ => rfl) rfl

/-- An attempt does not fail. -/
theorem attempt_bind {f : Except SyntaxError α → Parse β} (hp : Ends p s P E')
    (hok : ∀ a t, P a t → Ends (f (.ok a)) t Q E) (herror : ∀ e t, E' t → Ends (f (.error e)) t Q E) :
    Ends (attempt p >>= f) s Q E := by
  unfold Ends at hp ⊢
  rw [bind_run, attempt_run]
  cases h : p s with
  | ok a t =>
    rw [h] at hp
    exact hok a t hp
  | error e t =>
    rw [h] at hp
    exact herror e t hp

/-! ### Loops and lists -/

/-- **What every round keeps, the loop keeps.** -/
theorem loop {round : α → Parse (Round α)} {I : α → State → Prop}
    (hround : ∀ a t, I a t → Ends (round a) t (fun r u => I r.value u) E) {a : α} (h : I a s) :
    Ends (Parse.loop round a) s I E := by
  -- by induction on what is ahead, which every round that goes on makes shorter
  induction hn : s.ahead.length using Nat.strongRecOn generalizing a s with
  | ind n ih =>
    have hr := hround a s h
    unfold Ends at hr ⊢
    rw [loop_run]
    cases hrun : round a s with
    | error e t =>
      rw [hrun] at hr
      exact hr
    | ok r t =>
      rw [hrun] at hr
      cases r with
      | done b => exact hr
      | again b =>
        by_cases hlt : t.ahead.length < s.ahead.length
        · have hrest := ih _ (hn ▸ hlt) hr rfl
          simp only [if_pos hlt]
          exact hrest
        · simp only [if_neg hlt]
          exact hr

variable {item : Parse α} {I : State → Prop} {R : α → Prop}

/-- One or more items, each of which has `R`, while `I` is kept. -/
theorem separated {sign : Punctuator}
    (hitem : ∀ t, I t → Ends item t (fun a u => R a ∧ I u) E)
    (hsign : ∀ t, I t → t.token? = some (.punctuator sign) → I t.advance) (hs : I s) :
    Ends (Parse.separated sign item) s (fun as t => (∀ a ∈ as, R a) ∧ I t) E := by
  refine bind (hitem s hs) fun a t ⟨ha, ht⟩ => ?_
  have hfirst : ∀ x ∈ [a], R x := by simpa using ha
  refine loop (I := fun as u => (∀ x ∈ as, R x) ∧ I u) (fun as u ⟨has, hu⟩ => ?_) ⟨hfirst, ht⟩
  refine eat_bind (fun htoken => ?_) fun _ => pure ⟨has, hu⟩
  refine bind (hitem _ (hsign u hu htoken)) fun b v ⟨hb, hv⟩ => pure ⟨?_, hv⟩
  simpa [or_imp, forall_and] using ⟨has, hb⟩

/-- Items up to a sign, each of which has `R`, while `I` is kept. -/
theorem listUntil {close : Punctuator}
    (hitem : ∀ t, I t → Ends item t (fun a u => R a ∧ I u) E)
    (hcomma : ∀ t, I t → t.token? = some (.punctuator .comma) → I t.advance) (hs : I s) :
    Ends (Parse.listUntil close item) s (fun as t => (∀ a ∈ as, R a) ∧ I t) E := by
  refine loop (I := fun as u => (∀ a ∈ as, R a) ∧ I u) (fun as u ⟨has, hu⟩ => ?_) ⟨by simp, hs⟩
  refine peek_bind ?_
  split
  · exact pure ⟨has, hu⟩
  · refine bind (hitem u hu) fun a v ⟨ha, hv⟩ => ?_
    have hboth : ∀ x ∈ as ++ [a], R x := by simpa [or_imp, forall_and] using ⟨has, ha⟩
    exact eat_bind (fun htoken => pure ⟨hboth, hcomma v hv htoken⟩) fun _ => pure ⟨hboth, hv⟩

/-- A part that may be missing has `R` if it is there, while `I` is kept. -/
theorem optionalAfter {sign : Punctuator}
    (hitem : ∀ t, I t → Ends item t (fun a u => R a ∧ I u) E)
    (hsign : ∀ t, I t → t.token? = some (.punctuator sign) → I t.advance) (hs : I s) :
    Ends (Parse.optionalAfter sign item) s (fun a t => (∀ x ∈ a, R x) ∧ I t) E := by
  refine eat_bind (fun htoken => ?_) fun _ => pure ⟨by simp, hs⟩
  exact bind (hitem _ (hsign s hs htoken)) fun a t ⟨ha, ht⟩ => pure ⟨by simpa using ha, ht⟩

/-! ### Statements -/

section Statements

variable (hadvance : ∀ t, I t → I t.advance)
include hadvance

theorem synchronize (hs : I s) : Ends Parse.synchronize s (fun _ t => I t) E := by
  refine loop (fun _ t ht => peek_bind ?_) hs
  split
  · exact pure ht
  · split
    · exact advance_bind (pure (hadvance t ht))
    · split
      · exact pure ht
      · exact advance_bind (pure (hadvance t ht))

theorem recover {start : Nat} {e : SyntaxError} (hnote : ∀ e t, I t → I (t.note e)) (hs : I s) :
    Ends (Parse.recover start e) s (fun _ t => I t) E := by
  refine note_bind (currentSpan_bind ?_)
  split
  · exact advance_bind (synchronize hadvance (hadvance _ (hnote e s hs)))
  · exact synchronize hadvance (hnote e s hs)

/-- Statements, each of which has `R`, while `I` is kept, also by those that are given up. -/
theorem statements {statement : Parse Stmt} {R : Stmt → Prop} {close : Option Token}
    (hstatement : ∀ t, I t → Ends statement t (fun a u => R a ∧ I u) I)
    (hnote : ∀ e t, I t → I (t.note e)) (hs : I s) :
    Ends (Parse.statements statement close) s (fun as t => (∀ a ∈ as, R a) ∧ I t) E := by
  refine loop (I := fun (as : List Stmt) u => (∀ a ∈ as, R a) ∧ I u) ?_ ⟨by simp, hs⟩
  intro as u ⟨has, hu⟩
  refine peek_bind ?_
  split
  · exact pure ⟨has, hu⟩
  · refine eat_bind (fun _ => pure ⟨has, hadvance u hu⟩) fun _ => currentSpan_bind ?_
    refine attempt_bind (hstatement u hu) (fun a t ⟨ha, ht⟩ => pure ⟨?_, ht⟩) fun e t ht => ?_
    · simpa [or_imp, forall_and] using ⟨has, ha⟩
    · exact bind (recover hadvance hnote ht) fun _ v hv => pure ⟨has, hv⟩

end Statements

end Ends

end ScriptLint.Parse
