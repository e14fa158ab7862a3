import ScriptLint.Proofs.Parsing.Run
import ScriptLint.Proofs.Syntax.Derivation
/-!
# What a reader consumes

Whatever a reader does, and whether it succeeds or fails, it only moves
forward: it consumes a row of lexemes and leaves the rest, notes the lexical
errors it passes, and forgets no error that was noted before (`Advances`).
`Reads` says in addition what a successful reader has made of the lexemes it
consumed. The two are proved together, one rule for each way to build a
reader; the rule for `loop` turns what one round does into what the whole
loop does.

Key definitions: `Advances`, `Reads`, `From`.
Key theorems: `From.bind`, `reads_loop`.
-/

namespace ScriptLint.Parse

/-! ### Moving forward -/

/-- From `s` the reader came to `t` and consumed `ws` on its way. -/
structure Advances (s : State) (ws : List Lexeme) (t : State) : Prop where
  consumed : ∃ read, s.ahead = read ++ t.ahead ∧ lexemesOf read = ws
  settled_start : s.Settled
  settled : t.Settled
  stop_eq : t.stop = s.stop
  consumedTo_eq : t.consumedTo = endOf s.consumedTo ws
  log_suffix : s.log <:+ t.log
  faults_le : s.log.length + faultCount s.ahead ≤ t.log.length + faultCount t.ahead

namespace Advances

variable {s t u : State} {ws us : List Lexeme}

theorem refl (hs : s.Settled) : Advances s [] s :=
  ⟨⟨[], rfl, rfl⟩, hs, hs, rfl, rfl, List.suffix_refl _, Nat.le_refl _⟩

theorem trans (h : Advances s ws t) (h' : Advances t us u) : Advances s (ws ++ us) u := by
  obtain ⟨xs, hx, hxs⟩ := h.consumed
  obtain ⟨ys, hy, hys⟩ := h'.consumed
  refine ⟨⟨xs ++ ys, ?_, ?_⟩, h.settled_start, h'.settled, h'.stop_eq.trans h.stop_eq, ?_, ?_, ?_⟩
  · rw [hx, hy, List.append_assoc]
  · rw [lexemesOf_append, hxs, hys]
  · rw [h'.consumedTo_eq, h.consumedTo_eq, endOf_append]
  · exact h.log_suffix.trans h'.log_suffix
  · exact Nat.le_trans h.faults_le h'.faults_le

theorem lexemes_eq (h : Advances s ws t) : s.lexemes = ws ++ t.lexemes := by
  obtain ⟨read, hr, hw⟩ := h.consumed
  rw [State.lexemes, hr, lexemesOf_append, hw, State.lexemes]

/-- A reader that consumed no lexeme is where it was. -/
theorem ahead_eq (h : Advances s [] t) : t.ahead = s.ahead := by
  obtain ⟨read, hr, hw⟩ := h.consumed
  have hs := h.settled_start
  cases read with
  | nil => exact hr.symm
  | cons item read =>
    cases item with
    | ok w => simp at hw
    | error e => simp [State.Settled, hr, leadingErrors] at hs

/-- The levels that are left play no part. -/
theorem withRoom (h : Advances s ws t) (r : Nat) : Advances s ws { t with room := r } :=
  ⟨h.consumed, h.settled_start, h.settled, h.stop_eq, h.consumedTo_eq, h.log_suffix, h.faults_le⟩

theorem ofRoom {r : Nat} (h : Advances { s with room := r } ws t) : Advances s ws t :=
  ⟨h.consumed, h.settled_start, h.settled, h.stop_eq, h.consumedTo_eq, h.log_suffix, h.faults_le⟩

/-- A noted error is one error more. -/
theorem note (h : Advances s ws t) (e : SyntaxError) : Advances s ws (t.note e) := by
  refine ⟨h.consumed, h.settled_start, h.settled, h.stop_eq, h.consumedTo_eq, ?_, ?_⟩
  · exact h.log_suffix.trans (List.suffix_cons _ _)
  · have := h.faults_le
    simp only [State.note, List.length_cons]
    omega

/-- What was consumed reaches from where the next token stood to the end of the last one. -/
theorem extent_eq (h : Advances s ws t) (hw : ws ≠ []) :
    Span.upTo s.span.start t.consumedTo = extent ws := by
  obtain ⟨read, hr, rfl⟩ := h.consumed
  rw [h.consumedTo_eq]
  cases read with
  | nil => exact absurd rfl hw
  | cons item read =>
    cases item with
    | error e =>
      have hs := h.settled_start
      simp [State.Settled, hr, leadingErrors] at hs
    | ok w =>
      have hspan : s.span = w.span := by simp [State.span, hr]
      rw [hspan, lexemesOf_ok]
      rfl

end Advances

/-- Reading one token on. -/
theorem advances_advance {s : State} {w : Lexeme} {rest : List Scanned}
    (h : s.ahead = .ok w :: rest) : Advances s [w] s.advance := by
  obtain ⟨passed, h1, h2, h3⟩ := dropErrors_split rest
  have hadv : s.advance = State.settle { s with ahead := rest, consumedTo := w.span.stop } := by
    simp only [State.advance, h]
  rw [hadv]
  refine ⟨⟨.ok w :: passed, ?_, ?_⟩, by simp [State.Settled, h, leadingErrors],
    leadingErrors_dropErrors rest, rfl, rfl, ?_, ?_⟩
  · rw [h, List.cons_append]
    exact congrArg _ h1
  · rw [lexemesOf_ok, h2]
  · exact List.suffix_append _ _
  · rw [h, faultCount_ok, h3]
    simp only [State.settle, List.length_append, List.length_reverse, List.length_map]
    omega

/-! ### Readers

`From s ws t p R` is about a reader `p` that goes on at `t`, when `ws` have been consumed since
`s`: wherever it stops it has moved forward, and if it succeeds then `R` holds of its value, of
all that was consumed since `s`, and of the state behind it. -/

section Rules

variable {α β : Type} {s t u : State} {ws us : List Lexeme}

/-- A reader that goes on at `t`, when `ws` have been consumed since `s`. -/
def From (s : State) (ws : List Lexeme) (t : State) (p : Parse α)
    (R : α → List Lexeme → State → Prop) : Prop :=
  Advances s ws t →
    match p t with
    | .ok a u => ∃ us, Advances s us u ∧ R a us u
    | .error _ u => ∃ us, Advances s us u

/-- A reader that starts at `s`. -/
def Reads (s : State) (p : Parse α) (R : α → List Lexeme → State → Prop) : Prop :=
  From s [] s p R

namespace From

variable {p : Parse α} {f : α → Parse β} {Q : α → List Lexeme → State → Prop}
  {R : β → List Lexeme → State → Prop}

/-- How the reader came here may be used. -/
theorem intro {p : Parse α} (h : Advances s ws t → From s ws t p Q) : From s ws t p Q :=
  fun ha => h ha ha

theorem pure {b : β} (h : Advances s ws t → R b ws t) : From s ws t (Pure.pure b) R :=
  fun ha => ⟨ws, ha, h ha⟩

theorem throw {e : SyntaxError} : From s ws t (throw e) R :=
  fun ha => ⟨ws, ha⟩

theorem fail {problem : SyntaxProblem} : From s ws t (Parse.fail problem) R :=
  fun ha => ⟨ws, ha⟩

/-- One reader after the other. -/
theorem bind (hp : Reads t p Q)
    (hf : ∀ a us u, Q a us u → Advances t us u → From s (ws ++ us) u (f a) R) :
    From s ws t (p >>= f) R := by
  intro ha
  have hp' := hp (Advances.refl ha.settled)
  rw [bind_run]
  cases h : p t with
  | ok a u =>
    rw [h] at hp'
    obtain ⟨us, hu, hq⟩ := hp'
    exact hf a us u hq hu (ha.trans hu)
  | error e u =>
    rw [h] at hp'
    obtain ⟨us, hu⟩ := hp'
    exact ⟨ws ++ us, ha.trans hu⟩

theorem peek_bind {f : Option Token → Parse β} (h : From s ws t (f t.token?) R) :
    From s ws t (peek >>= f) R := h

theorem currentSpan_bind {f : Span → Parse β} (h : From s ws t (f t.span) R) :
    From s ws t (currentSpan >>= f) R := h

theorem spanFrom_bind {start : Nat} {f : Span → Parse β}
    (h : From s ws t (f (Span.upTo start t.consumedTo)) R) :
    From s ws t (spanFrom start >>= f) R := h

theorem advance_bind {f : Unit → Parse β} {token : Token} (htok : t.token? = some token)
    (hf : ∀ w u, w.token = token → w.span = t.span → Advances t [w] u →
      From s (ws ++ [w]) u (f ()) R) :
    From s ws t (Parse.advance >>= f) R := by
  intro ha
  obtain ⟨w, rest, h1, h2, h3⟩ := State.ahead_of_token? htok
  have hadv := advances_advance h1
  exact hf w t.advance h2 h3.symm hadv (ha.trans hadv)

theorem note_bind {f : Unit → Parse β} {e : SyntaxError} (h : From s ws (t.note e) (f ()) R) :
    From s ws t (modify (State.note e) >>= f) R :=
  fun ha => h (ha.note e)

theorem descend_bind {f : Unit → Parse β}
    (hf : ∀ r, From s ws { t with room := r } (f ()) R) : From s ws t (descend >>= f) R := by
  intro ha
  rw [bind_run, descend_run]
  by_cases hr : t.room = 0
  · rw [if_pos hr]
    exact ⟨ws, ha⟩
  · rw [if_neg hr]
    exact hf _ (ha.withRoom _)

/-- The last reader of several. -/
theorem last {p : Parse β} {Q : β → List Lexeme → State → Prop} (hp : Reads t p Q)
    (h : ∀ b us u, Q b us u → Advances t us u → R b (ws ++ us) u) : From s ws t p R := by
  intro ha
  have hp' := hp (Advances.refl ha.settled)
  cases hr : p t with
  | ok b u =>
    rw [hr] at hp'
    obtain ⟨us, hu, hq⟩ := hp'
    exact ⟨ws ++ us, ha.trans hu, h b us u hq hu⟩
  | error e u =>
    rw [hr] at hp'
    obtain ⟨us, hu⟩ := hp'
    exact ⟨ws ++ us, ha.trans hu⟩

theorem eat_bind {f : Bool → Parse β} {token : Token}
    (hyes : ∀ w u, w.token = token → Advances t [w] u → From s (ws ++ [w]) u (f true) R)
    (hno : t.token? ≠ some token → From s ws t (f false) R) : From s ws t (eat token >>= f) R := by
  intro ha
  rw [bind_run, eat_run]
  by_cases h : t.token? = some token
  · rw [if_pos h]
    obtain ⟨w, rest, h1, h2, -⟩ := State.ahead_of_token? h
    have hadv := advances_advance h1
    exact hyes w _ h2 hadv (ha.trans hadv)
  · rw [if_neg h]
    exact hno h ha

theorem expect_bind {f : Unit → Parse β} {sign : Punctuator}
    (hf : ∀ w u, w.IsSign sign → Advances t [w] u → From s (ws ++ [w]) u (f ()) R) :
    From s ws t (expect sign >>= f) R := by
  intro ha
  rw [bind_run, expect_run]
  by_cases h : t.token? = some (.punctuator sign)
  · rw [if_pos h]
    obtain ⟨w, rest, h1, h2, -⟩ := State.ahead_of_token? h
    have hadv := advances_advance h1
    exact hf w _ h2 hadv (ha.trans hadv)
  · rw [if_neg h]
    exact ⟨ws, ha⟩

theorem ident_bind {f : Ident → Parse β}
    (hf : ∀ name w u, name.SpelledBy w → w.span = t.span → Advances t [w] u →
      From s (ws ++ [w]) u (f name) R) :
    From s ws t (ident >>= f) R := by
  intro ha
  rw [bind_run, ident_run]
  cases h : t.token?.bind Token.name? with
  | none => exact ⟨ws, ha⟩
  | some name =>
    obtain ⟨token, htok, hname⟩ := Option.bind_eq_some_iff.mp h
    obtain ⟨w, rest, h1, h2, h3⟩ := State.ahead_of_token? htok
    have hadv := advances_advance h1
    exact hf ⟨name, t.span⟩ w _ ⟨by rw [h2]; exact hname, h3⟩ h3.symm hadv (ha.trans hadv)

end From

/-! ### Loops and lists -/

/-- How a round of a loop ends: it goes on with `I` kept and something consumed, or stops
with `R`. -/
def Goes (I R : α → List Lexeme → State → Prop) (ws : List Lexeme) :
    Round α → List Lexeme → State → Prop
  | .again a, us, u => I a us u ∧ ws.length < us.length
  | .done a, us, u => R a us u

/-- Of two places in a text, the one with more consumed has less ahead. -/
theorem length_ahead_lt (h : Advances s ws t) (h' : Advances s us u) (hlt : ws.length < us.length) :
    u.ahead.length < t.ahead.length := by
  obtain ⟨xs, hx, rfl⟩ := h.consumed
  obtain ⟨ys, hy, rfl⟩ := h'.consumed
  refine Nat.lt_of_not_le fun hge => ?_
  have hlen : ys.length ≤ xs.length := by
    have := congrArg List.length (hx.symm.trans hy)
    simp only [List.length_append] at this
    omega
  obtain ⟨zs, hz⟩ : ys <+: xs :=
    List.prefix_of_prefix_length_le (hy ▸ List.prefix_append ys u.ahead)
      (hx ▸ List.prefix_append xs t.ahead) hlen
  rw [← hz, lexemesOf_append, List.length_append] at hlt
  omega

/-- **What a round keeps, the loop keeps.** -/
theorem reads_loop {round : α → Parse (Round α)} {I R : α → List Lexeme → State → Prop}
    (hround : ∀ a ws t, I a ws t → From s ws t (round a) (Goes I R ws)) (a : α)
    (hI : I a ws t) : From s ws t (loop round a) R := by
  -- by induction on what is ahead, which every round that goes on makes shorter
  induction hn : t.ahead.length using Nat.strongRecOn generalizing a ws t with
  | ind n ih =>
    intro ha
    have hr := hround a ws t hI ha
    rw [loop_run]
    cases h : round a t with
    | error e u =>
      rw [h] at hr
      exact hr
    | ok r u =>
      rw [h] at hr
      obtain ⟨us, hu, hgo⟩ := hr
      cases r with
      | done b => exact ⟨us, hu, hgo⟩
      | again b =>
        have hlt := length_ahead_lt ha hu hgo.2
        show match (if u.ahead.length < t.ahead.length then loop round b u else .ok b u) with
          | .ok b u => ∃ us, Advances s us u ∧ R b us u
          | .error _ u => ∃ us, Advances s us u
        rw [if_pos hlt]
        exact ih _ (hn ▸ hlt) b hgo.1 rfl hu

section Lists

variable {item : Parse α} {P : α → List Lexeme → Prop}

theorem reads_separated {sign : Punctuator}
    (hitem : ∀ t, Reads t item fun a ws _ => P a ws) :
    Reads s (separated sign item) fun as ws _ => Separated sign P as ws := by
  refine From.bind (hitem s) fun a us u ha _ => ?_
  refine reads_loop (I := fun as ws _ => Separated sign P as ws) (fun as ws t hI => ?_) [a] (.one ha)
  refine From.eat_bind (fun w u hw _ => ?_) fun _ => From.pure fun _ => hI
  refine From.bind (hitem u) fun b vs v hb _ => From.pure fun _ => ⟨?_, by simp⟩
  simpa using hI.snoc hw hb

theorem reads_listUntil {close : Punctuator}
    (hitem : ∀ t, Reads t item fun a ws _ => P a ws) :
    Reads s (listUntil close item) fun as ws _ => Listed P as ws := by
  -- the items read so far stand before a comma, whatever follows
  refine reads_loop (I := fun as ws _ => ∀ bs us, Listed P bs us → Listed P (as ++ bs) (ws ++ us))
    (fun as ws t hI => ?_) [] fun _ _ h => h
  refine From.peek_bind ?_
  split
  · exact From.pure fun _ => by simpa [Goes] using hI [] [] .nil
  · refine From.bind (hitem t) fun a us u ha _ => ?_
    refine From.eat_bind (fun w v hw _ => ?_) fun _ => From.pure fun _ => hI [a] us (.last ha)
    refine From.pure fun _ => ⟨fun bs vs hb => ?_, ?_⟩
    · simpa using hI (a :: bs) (us ++ w :: vs) (.more ha hw hb)
    · simp only [List.length_append, List.length_singleton]
      omega

theorem reads_optionalAfter {sign : Punctuator} (hitem : ∀ t, Reads t item fun a ws _ => P a ws) :
    Reads s (optionalAfter sign item) fun a ws _ => Behind sign P a ws := by
  refine From.eat_bind (fun w u hw _ => ?_) fun _ => From.pure fun _ => .none
  exact From.bind (hitem u) fun a us v ha _ => From.pure fun _ => .some hw ha

end Lists

/-- The levels given back by a nested reader play no part in what it reads. -/
theorem reads_nested {p : Parse α} {R : α → List Lexeme → State → Prop}
    (hR : ∀ a ws u r, R a ws u → R a ws { u with room := r })
    (hp : ∀ r, Reads { s with room := r } p R) : Reads s (nested p) R := by
  intro ha
  rw [nested_run]
  by_cases hr : s.room = 0
  · rw [if_pos hr]
    exact ⟨[], ha⟩
  · rw [if_neg hr]
    have hp' := hp (s.room - 1) (Advances.refl ha.settled)
    cases h : p { s with room := s.room - 1 } with
    | ok a u =>
      rw [h] at hp'
      obtain ⟨us, hu, hR'⟩ := hp'
      exact ⟨us, hu.ofRoom.withRoom _, hR a us u _ hR'⟩
    | error e u =>
      rw [h] at hp'
      obtain ⟨us, hu⟩ := hp'
      exact ⟨us, hu.ofRoom.withRoom _⟩

/-- A reader that is tried out has moved forward even if it failed. -/
theorem reads_attempt {p : Parse α} {R : α → List Lexeme → State → Prop} (hp : Reads s p R) :
    Reads s (attempt p) fun r ws u => ∀ a, r = .ok a → R a ws u := by
  intro ha
  have hp' := hp ha
  rw [attempt_run]
  cases h : p s with
  | ok a u =>
    rw [h] at hp'
    obtain ⟨us, hu, hR⟩ := hp'
    exact ⟨us, hu, fun b hb => by cases hb; exact hR⟩
  | error e u =>
    rw [h] at hp'
    obtain ⟨us, hu⟩ := hp'
    exact ⟨us, hu, fun b hb => by cases hb⟩

end Rules

end ScriptLint.Parse
