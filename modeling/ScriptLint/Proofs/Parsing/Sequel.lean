import ScriptLint.Proofs.Layout.Reading
/-!
# A text that goes on

Let a text go on where it ended before, with two semicolons first. What was
read up to the old end is read again: no reader that succeeded takes another
decision because a semicolon stands where nothing stood. There is one
exception. A statement that may end with a semicolon takes the first of the
two, and this is why there are two of them.

`Follows` compares a reader in the one text with a reader in the other, up
to the places of what they read. There is one rule for each way to build a
reader. Types and expressions take no semicolon, so both stay ahead
(`Carries`).

Key definitions: `Sequel`, `Sequel.Extends`, `Sequel.Passes`, `Sequel.Follows`.
Key theorems: `Sequel.Follows.bind`, `Sequel.carries_loop`, `Sequel.carries_typeExpr`,
`Sequel.carries_expression`.
-/

namespace ScriptLint.Parse

/-- What stands behind the end of a text: two semicolons and more, up to `stop`. -/
structure Sequel where
  first : Lexeme
  second : Lexeme
  rest : List Scanned
  stop : Nat
  first_token : first.token = .punctuator .semicolon
  second_token : second.token = .punctuator .semicolon

namespace Sequel

/-- All that was scanned behind the end. -/
def items (S : Sequel) : List Scanned :=
  .ok S.first :: .ok S.second :: S.rest

/-- At `t` the reader is where it is at `s`, in the text that goes on. -/
structure Extends (S : Sequel) (s t : State) : Prop where
  ahead : t.ahead = s.ahead ++ S.items
  stop : t.stop = S.stop
  room : t.room = s.room
  log : t.log = s.log
  settled : s.Settled

/-- At `s` the text is read, and at `t` the first semicolon behind it too. -/
structure Passes (S : Sequel) (s t : State) : Prop where
  ended : s.ahead = []
  ahead : t.ahead = .ok S.second :: S.rest
  stop : t.stop = S.stop
  room : t.room = s.room
  log : t.log = s.log

/-- The reader is where it was, or behind the first semicolon if nothing else was left. -/
def Meets (S : Sequel) (s t : State) : Prop :=
  S.Extends s t ∨ S.Passes s t

variable {S : Sequel} {s t : State}

/-! ### Places -/

theorem dropErrors_append_items (S : Sequel) :
    ∀ items : List Scanned, dropErrors (items ++ S.items) = dropErrors items ++ S.items
  | [] => rfl
  | .ok _ :: _ => rfl
  | .error _ :: items => dropErrors_append_items S items

theorem leadingErrors_append_items (S : Sequel) :
    ∀ items : List Scanned, leadingErrors (items ++ S.items) = leadingErrors items
  | [] => rfl
  | .ok _ :: _ => rfl
  | .error e :: items => congrArg (e :: ·) (leadingErrors_append_items S items)

namespace Extends

theorem withRoom (h : S.Extends s t) (r : Nat) :
    S.Extends { s with room := r } { t with room := r } :=
  ⟨h.ahead, h.stop, rfl, h.log, h.settled⟩

/-- A token that is ahead is ahead in both texts. -/
theorem token?_of_some (h : S.Extends s t) {token : Token} (htoken : s.token? = some token) :
    t.token? = some token := by
  obtain ⟨w, rest, hahead, rfl, -⟩ := State.ahead_of_token? htoken
  simp [State.token?, h.ahead, hahead]

/-- Where the one text ends, a semicolon is ahead in the other. -/
theorem token?_of_none (h : S.Extends s t) (htoken : s.token? = none) :
    t.token? = some (.punctuator .semicolon) := by
  rw [State.token?, h.ahead, State.ahead_eq_nil h.settled htoken, ← S.first_token]
  rfl

theorem advance (h : S.Extends s t) {token : Token} (htoken : s.token? = some token) :
    S.Extends s.advance t.advance := by
  obtain ⟨w, rest, hahead, -, -⟩ := State.ahead_of_token? htoken
  have hs : s.advance = State.settle { s with ahead := rest, consumedTo := w.span.stop } := by
    simp only [State.advance, hahead]
  have ht : t.advance =
      State.settle { t with ahead := rest ++ S.items, consumedTo := w.span.stop } := by
    simp only [State.advance, h.ahead, hahead, List.cons_append]
  rw [hs, ht]
  refine ⟨dropErrors_append_items S rest, h.stop, h.room, ?_, leadingErrors_dropErrors rest⟩
  simp only [State.settle, leadingErrors_append_items, h.log]

/-- At the end of the text the first semicolon is passed. -/
theorem passes_advance (h : S.Extends s t) (hend : s.token? = none) :
    S.Passes s t.advance := by
  have hahead := State.ahead_eq_nil h.settled hend
  have hadv : t.advance = { t with
      ahead := .ok S.second :: S.rest, consumedTo := S.first.span.stop } := by
    simp only [State.advance, h.ahead, hahead, items, List.nil_append]
    rfl
  rw [hadv]
  exact ⟨hahead, rfl, h.stop, h.room, h.log⟩

theorem length_lt (h : S.Extends s t) {u v : State} (h' : S.Extends u v) :
    v.ahead.length < t.ahead.length ↔ u.ahead.length < s.ahead.length := by
  rw [h.ahead, h'.ahead, List.length_append, List.length_append]
  omega

end Extends

theorem Passes.token? (h : S.Passes s t) : s.token? = none ∧
    t.token? = some (.punctuator .semicolon) := by
  simp [State.token?, h.ended, h.ahead, S.second_token]

namespace Meets

theorem withRoom (h : S.Meets s t) (r : Nat) :
    S.Meets { s with room := r } { t with room := r } :=
  h.imp (·.withRoom r) fun hp => ⟨hp.ended, hp.ahead, hp.stop, rfl, hp.log⟩

/-- If something else is left, no semicolon was taken. -/
theorem extends_of_token (h : S.Meets s t) {token : Token} (htoken : s.token? = some token) :
    S.Extends s t :=
  h.resolve_right fun hp => by simp [hp.token?.1] at htoken

/-- Where the one text ends, a semicolon is ahead in the other. -/
theorem token?_of_none (h : S.Meets s t) (htoken : s.token? = none) :
    t.token? = some (.punctuator .semicolon) :=
  h.elim (·.token?_of_none htoken) (·.token?.2)

/-- No other token is ahead in one of the texts alone. -/
theorem token?_eq_iff (h : S.Meets s t) {token : Token} (hne : token ≠ .punctuator .semicolon) :
    s.token? = some token ↔ t.token? = some token := by
  refine ⟨fun hs => (h.extends_of_token hs).token?_of_some hs, fun ht => ?_⟩
  cases hs : s.token? with
  | none =>
    rw [h.token?_of_none hs] at ht
    exact absurd (Option.some.inj ht).symm hne
  | some next => rw [← (h.extends_of_token hs).token?_of_some hs, ht]

end Meets

/-! ### Readers in a text that goes on -/

section Rules

variable {α β γ δ : Type} {C : State → Prop} {M : State → State → Prop} {R : α → β → Prop}
  {Q : γ → δ → Prop}

/-- What `p` reads at `s`, coming to where `C` holds, `q` reads at `t`, coming to the place that
`M` relates to it. -/
def Follows (C : State → Prop) (M : State → State → Prop) (R : α → β → Prop) (s t : State)
    (p : Parse α) (q : Parse β) : Prop :=
  ∀ a u, p s = .ok a u → C u → ∃ b v, q t = .ok b v ∧ R a b ∧ M u v

/-- A reader that takes no semicolon of the sequel. -/
abbrev CarriesAt (S : Sequel) (R : α → β → Prop) (s t : State) (p : Parse α) (q : Parse β) : Prop :=
  Follows (fun _ => True) S.Extends R s t p q

/-- What `p` reads up to the end of a text, `q` reads in the text that goes on. -/
def Carries (S : Sequel) (R : α → β → Prop) (p : Parse α) (q : Parse β) : Prop :=
  ∀ s t, S.Extends s t → S.CarriesAt R s t p q

namespace Follows

theorem pure (h : M s t) {a : α} {b : β} (hab : R a b) :
    Follows C M R s t (Pure.pure a) (Pure.pure b) := by
  rintro _ _ ⟨⟩ -
  exact ⟨b, t, rfl, hab, h⟩

theorem throw {e : SyntaxError} {q : Parse β} : Follows C M R s t (throw e) q := by
  rintro _ _ ⟨⟩

theorem fail {problem : SyntaxProblem} {q : Parse β} :
    Follows C M R s t (Parse.fail problem) q := by
  rintro _ _ ⟨⟩

/-- One reader after the other. -/
theorem bind {p : Parse γ} {q : Parse δ} {f : γ → Parse α} {g : δ → Parse β}
    (hp : S.CarriesAt Q s t p q)
    (hf : ∀ c d u v, Q c d → S.Extends u v → Follows C M R u v (f c) (g d)) :
    Follows C M R s t (p >>= f) (q >>= g) := by
  intro a u hrun
  rw [bind_run] at hrun
  cases hps : p s with
  | error e u' => simp [hps] at hrun
  | ok c u' =>
    rw [hps] at hrun
    obtain ⟨d, v', hq, hcd, hext⟩ := hp c u' hps trivial
    rw [bind_run, hq]
    exact hf c d u' v' hcd hext a u hrun

theorem peek_bind {f : Option Token → Parse α} {g : Option Token → Parse β} (h : S.Extends s t)
    (hsome : ∀ token, s.token? = some token → Follows C M R s t (f (some token)) (g (some token)))
    (hnone : s.token? = none → Follows C M R s t (f none) (g (some (.punctuator .semicolon)))) :
    Follows C M R s t (peek >>= f) (peek >>= g) := by
  show Follows C M R s t (f s.token?) (g t.token?)
  cases htoken : s.token? with
  | none =>
    rw [h.token?_of_none htoken]
    exact hnone htoken
  | some token =>
    rw [h.token?_of_some htoken]
    exact hsome token htoken

theorem currentSpan_bind {f : Span → Parse α} {g : Span → Parse β}
    (h : ∀ i j, Follows C M R s t (f i) (g j)) :
    Follows C M R s t (currentSpan >>= f) (currentSpan >>= g) :=
  h s.span t.span

theorem spanFrom_bind {i j : Nat} {f : Span → Parse α} {g : Span → Parse β}
    (h : ∀ i j, Follows C M R s t (f i) (g j)) :
    Follows C M R s t (spanFrom i >>= f) (spanFrom j >>= g) :=
  h _ _

theorem advance_bind {f : Unit → Parse α} {g : Unit → Parse β} (h : S.Extends s t)
    {token : Token} (htoken : s.token? = some token)
    (hf : ∀ u v, S.Extends u v → Follows C M R u v (f ()) (g ())) :
    Follows C M R s t (Parse.advance >>= f) (Parse.advance >>= g) :=
  hf s.advance t.advance (h.advance htoken)

theorem eat_bind {f : Bool → Parse α} {g : Bool → Parse β} {token : Token} (h : S.Meets s t)
    (hyes : ∀ u v, S.Extends u v → Follows C M R u v (f true) (g true))
    (hno : Follows C M R s t (f false) (g false))
    (hne : token ≠ .punctuator .semicolon := by decide) :
    Follows C M R s t (eat token >>= f) (eat token >>= g) := by
  intro a u hrun
  rw [bind_run, eat_run] at hrun ⊢
  have hiff := h.token?_eq_iff hne
  by_cases hs : s.token? = some token
  · rw [if_pos hs] at hrun
    rw [if_pos (hiff.mp hs)]
    exact hyes _ _ ((h.extends_of_token hs).advance hs) a u hrun
  · rw [if_neg hs] at hrun
    rw [if_neg (mt hiff.mpr hs)]
    exact hno a u hrun

/-- A sign that is asked for stands in front of the end, even if it is a semicolon. -/
theorem expect_bind {f : Unit → Parse α} {g : Unit → Parse β} {sign : Punctuator}
    (h : S.Extends s t) (hf : ∀ u v, S.Extends u v → Follows C M R u v (f ()) (g ())) :
    Follows C M R s t (expect sign >>= f) (expect sign >>= g) := by
  intro a u hrun
  rw [bind_run, expect_run] at hrun ⊢
  by_cases hs : s.token? = some (.punctuator sign)
  · rw [if_pos hs] at hrun
    rw [if_pos (h.token?_of_some hs)]
    exact hf _ _ (h.advance hs) a u hrun
  · simp [if_neg hs] at hrun

theorem ident_bind {f : Ident → Parse α} {g : Ident → Parse β} (h : S.Extends s t)
    (hf : ∀ v w u u', v.Alike anyPlace w → S.Extends u u' → Follows C M R u u' (f v) (g w)) :
    Follows C M R s t (ident >>= f) (ident >>= g) := by
  intro a u hrun
  rw [bind_run, ident_run] at hrun ⊢
  cases htoken : s.token? with
  | none => simp [htoken] at hrun
  | some token =>
    rw [htoken] at hrun
    rw [h.token?_of_some htoken]
    cases hname : (some token).bind Token.name? with
    | none => simp [hname] at hrun
    | some name =>
      rw [hname] at hrun
      exact hf ⟨name, s.span⟩ ⟨name, t.span⟩ _ _ ⟨rfl, trivial⟩ (h.advance htoken) a u hrun

/-- Each operator, access or pair of brackets is a level, entered before its token is consumed. -/
theorem level_bind {f : Unit → Parse α} {g : Unit → Parse β} (h : S.Extends s t) {token : Token}
    (htoken : s.token? = some token)
    (hf : ∀ u v, S.Extends u v → Follows C M R u v (f ()) (g ())) :
    Follows C M R s t (descend >>= fun _ => Parse.advance >>= f)
      (descend >>= fun _ => Parse.advance >>= g) := by
  intro a u hrun
  rw [bind_run, descend_run] at hrun ⊢
  rw [h.room]
  by_cases hr : s.room = 0
  · simp [if_pos hr] at hrun
  · rw [if_neg hr] at hrun ⊢
    exact advance_bind (h.withRoom (s.room - 1)) htoken hf a u hrun

/-- The levels that are given back play no part in where the reader came to. -/
theorem nested {p : Parse α} {q : Parse β} (h : S.Extends s t)
    (hC : ∀ u r, C { u with room := r } → C u)
    (hM : ∀ u v r, M u v → M { u with room := r } { v with room := r })
    (hp : ∀ u v, S.Extends u v → Follows C M R u v p q) :
    Follows C M R s t (nested p) (nested q) := by
  intro a u hrun hu
  rw [nested_run] at hrun ⊢
  rw [h.room]
  by_cases hr : s.room = 0
  · simp [if_pos hr] at hrun
  · rw [if_neg hr] at hrun ⊢
    cases hps : p { s with room := s.room - 1 } with
    | error e u' => simp [hps] at hrun
    | ok a' u' =>
      rw [hps] at hrun
      cases hrun
      obtain ⟨b, v, hq, hab, hM'⟩ := hp _ _ (h.withRoom (s.room - 1)) _ _ hps (hC _ _ hu)
      rw [hq]
      exact ⟨b, _, rfl, hab, hM _ _ _ hM'⟩

/-- A token and what is made of it. -/
theorem leaf (h : S.Extends s t) {token : Token} (htoken : s.token? = some token) {a : α}
    {b : β} (hab : R a b) :
    S.CarriesAt R s t (do Parse.advance; return a) (do Parse.advance; return b) :=
  advance_bind h htoken fun _ _ hext => pure hext hab

/-- The span from a start to the last token consumed, at the end of a reader. -/
theorem spanned (h : M s t) {i j : Nat} {f : Span → α} {g : Span → β}
    (hR : ∀ i j, R (f i) (g j)) :
    Follows C M R s t (do return f (← spanFrom i)) (do return g (← spanFrom j)) :=
  spanFrom_bind fun _ _ => pure h (hR _ _)

end Follows

theorem carries_nested {p : Parse α} {q : Parse β} (hp : S.Carries R p q) :
    S.Carries R (nested p) (nested q) := fun _ _ h =>
  Follows.nested h (fun _ _ _ => trivial) (fun _ _ r hext => hext.withRoom r) hp

/-! ### Loops and lists -/

/-- **What a round carries, the loop carries.** Both loops go on equally often, since all that is
ahead of the second is longer by the same. -/
theorem carries_loop {round : α → Parse (Round α)} {round' : β → Parse (Round β)}
    (hround : ∀ a b, R a b → S.Carries (Round.Alike R) (round a) (round' b)) {a : α} {b : β}
    (hab : R a b) : S.Carries R (loop round a) (loop round' b) := by
  intro s t h
  induction hn : s.ahead.length using Nat.strongRecOn generalizing a b s t with
  | ind n ih =>
    intro c u hrun _
    rw [loop_run] at hrun ⊢
    cases hr : round a s with
    | error e u' => simp [hr] at hrun
    | ok r u' =>
      rw [hr] at hrun
      obtain ⟨r', v', hr', halike, hext⟩ := hround a b hab s t h r u' hr trivial
      rw [hr']
      cases halike with
      | done hcd =>
        cases hrun
        exact ⟨_, v', rfl, hcd, hext⟩
      | again hcd =>
        simp only [h.length_lt hext] at hrun ⊢
        split at hrun
        next hlt =>
          rw [if_pos hlt]
          exact ih _ (hn ▸ hlt) hcd _ _ hext rfl c u hrun trivial
        next hge =>
          rw [if_neg hge]
          cases hrun
          exact ⟨_, v', rfl, hcd, hext⟩

theorem carries_separated {p : Parse α} {q : Parse β} {sign : Punctuator} (hp : S.Carries R p q)
    (h : S.Extends s t) (hne : sign ≠ .semicolon := by decide) :
    S.CarriesAt (List.Forall₂ R) s t (separated sign p) (separated sign q) := by
  refine Follows.bind (hp s t h) fun a b u v hab huv => ?_
  refine carries_loop (fun as bs hlist s t h => ?_) (.cons hab .nil) u v huv
  refine Follows.eat_bind (.inl h) (fun u v huv => ?_) (Follows.pure h (.done hlist)) (by simpa using hne)
  refine Follows.bind (hp u v huv) fun c d _ _ hcd hext => ?_
  exact Follows.pure hext (.again (List.rel_append hlist (.cons hcd .nil)))

theorem carries_listUntil {p : Parse α} {q : Parse β} {close : Punctuator} (hp : S.Carries R p q)
    (h : S.Extends s t) (hne : close ≠ .semicolon := by decide) :
    S.CarriesAt (List.Forall₂ R) s t (listUntil close p) (listUntil close q) := by
  refine carries_loop (fun as bs hlist s t h => ?_) .nil s t h
  have hitem : S.CarriesAt (Round.Alike (List.Forall₂ R)) s t
      (do
        let items := as ++ [← p]
        if ← eat (.punctuator .comma) then return .again items else return .done items)
      (do
        let items := bs ++ [← q]
        if ← eat (.punctuator .comma) then return .again items else return .done items) := by
    refine Follows.bind (hp s t h) fun c d u v hcd huv => ?_
    have hlist' := List.rel_append hlist (.cons hcd .nil)
    exact Follows.eat_bind (.inl huv) (fun _ _ hext => Follows.pure hext (.again hlist'))
      (Follows.pure huv (.done hlist'))
  refine Follows.peek_bind h (fun token _ => ?_) fun _ => ?_
  · split
    · exact Follows.pure h (.done hlist)
    · exact hitem
  · rw [if_neg (by simp), if_neg (by simpa using Ne.symm hne)]
    exact hitem

theorem carries_optionalAfter {p : Parse α} {q : Parse β} {sign : Punctuator}
    (hp : S.Carries R p q) (h : S.Extends s t) (hne : sign ≠ .semicolon := by decide) :
    S.CarriesAt (Option.Rel R) s t (optionalAfter sign p) (optionalAfter sign q) := by
  refine Follows.eat_bind (.inl h) (fun u v huv => ?_) (Follows.pure h .none) (by simpa using hne)
  exact Follows.bind (hp u v huv) fun _ _ _ _ hab hext => Follows.pure hext (.some hab)

end Rules

/-! ### Types -/

section Types

variable {inner : Parse TypeExpr}

theorem carries_simpleType (hinner : S.Carries (TypeExpr.Alike anyPlace) inner inner) :
    S.Carries (TypeExpr.Alike anyPlace) (simpleType inner) (simpleType inner) := by
  intro s t h
  refine Follows.currentSpan_bind fun i j => Follows.peek_bind h (fun token htoken => ?_)
    fun _ => Follows.fail
  split
  next => exact Follows.leaf h htoken (.literal trivial)
  next => exact Follows.leaf h htoken (.literal trivial)
  next =>
    refine Follows.advance_bind h htoken fun u v huv => ?_
    refine Follows.bind (hinner u v huv) fun a b u v hab huv => ?_
    exact Follows.expect_bind huv fun _ _ hext => Follows.pure hext hab
  next token _ _ _ heq =>
    cases heq
    split
    · exact Follows.leaf h htoken (.keyword trivial)
    · split
      · exact Follows.leaf h htoken (.reference ⟨rfl, trivial⟩)
      · exact Follows.fail
  next heq => cases heq

theorem carries_arrayType (hinner : S.Carries (TypeExpr.Alike anyPlace) inner inner) :
    S.Carries (TypeExpr.Alike anyPlace) (arrayType inner) (arrayType inner) := by
  intro s t h
  refine Follows.currentSpan_bind fun i j => ?_
  refine Follows.bind (carries_simpleType hinner s t h) fun a b u v hab huv => ?_
  refine carries_loop (fun c d hcd s t h => ?_) hab u v huv
  refine Follows.peek_bind h (fun token htoken => ?_) fun _ => Follows.pure h (.done hcd)
  split
  · refine Follows.level_bind h htoken fun u v huv => Follows.expect_bind huv fun _ _ hext => ?_
    exact Follows.spanned hext fun _ _ => .again (.array hcd trivial)
  · exact Follows.pure h (.done hcd)

theorem carries_unionType (hinner : S.Carries (TypeExpr.Alike anyPlace) inner inner) :
    S.Carries (TypeExpr.Alike anyPlace) (unionType inner) (unionType inner) := by
  intro s t h
  refine Follows.currentSpan_bind fun i j => ?_
  refine Follows.bind (carries_separated (carries_arrayType hinner) h) fun as bs u v hlist huv => ?_
  rcases hlist with _ | ⟨hab, _ | ⟨hcd, hrest⟩⟩
  · exact Follows.spanned huv fun _ _ => .union .nil trivial
  · exact Follows.pure huv hab
  · exact Follows.spanned huv fun _ _ => .union (.cons hab (.cons hcd hrest)) trivial

theorem carries_typeExpr :
    ∀ depth, S.Carries (TypeExpr.Alike anyPlace) (typeExpr depth) (typeExpr depth)
  | 0 => fun _ _ _ => Follows.fail
  | depth + 1 => carries_nested (carries_unionType (carries_typeExpr depth))

end Types

/-! ### Expressions -/

section Expressions

variable {inner : Rank → Parse Expr}

theorem carries_primary
    (hinner : ∀ rank, S.Carries (Expr.Alike anyPlace) (inner rank) (inner rank)) :
    S.Carries (Expr.Alike anyPlace) (primary inner) (primary inner) := by
  intro s t h
  refine Follows.currentSpan_bind fun i j => Follows.peek_bind h (fun token htoken => ?_)
    fun _ => Follows.fail
  split
  next => exact Follows.leaf h htoken (.number trivial)
  next => exact Follows.leaf h htoken (.string trivial)
  next => exact Follows.leaf h htoken (.boolean trivial)
  next => exact Follows.leaf h htoken (.boolean trivial)
  next => exact Follows.leaf h htoken (.null trivial)
  next =>
    refine Follows.advance_bind h htoken fun u v huv => ?_
    refine Follows.bind (hinner _ u v huv) fun a b u v hab huv => ?_
    refine Follows.expect_bind huv fun _ _ hext => ?_
    exact Follows.spanned hext fun _ _ => .parenthesized hab trivial
  next =>
    refine Follows.advance_bind h htoken fun u v huv => ?_
    refine Follows.bind (carries_listUntil (hinner _) huv) fun as bs u v hlist huv => ?_
    refine Follows.expect_bind huv fun _ _ hext => ?_
    exact Follows.spanned hext fun _ _ => .array hlist trivial
  next =>
    split
    · exact Follows.leaf h htoken (.identifier ⟨rfl, trivial⟩)
    · exact Follows.fail

theorem carries_access
    (hinner : ∀ rank, S.Carries (Expr.Alike anyPlace) (inner rank) (inner rank)) (i j : Nat)
    {a b : Expr} (hab : a.Alike anyPlace b) :
    S.Carries (Round.Alike (Expr.Alike anyPlace)) (access inner i a) (access inner j b) := by
  intro s t h
  refine Follows.peek_bind h (fun token htoken => ?_) fun _ => Follows.pure h (.done hab)
  split
  · refine Follows.level_bind h htoken fun u v huv => ?_
    refine Follows.bind (carries_listUntil (hinner _) huv) fun as bs u v hlist huv => ?_
    refine Follows.expect_bind huv fun _ _ hext => ?_
    exact Follows.spanned hext fun _ _ => .again (.call hab hlist trivial)
  · refine Follows.level_bind h htoken fun u v huv => ?_
    refine Follows.ident_bind huv fun name name' u v hname huv => ?_
    exact Follows.spanned huv fun _ _ => .again (.property hab hname trivial)
  · refine Follows.level_bind h htoken fun u v huv => ?_
    refine Follows.bind (hinner _ u v huv) fun c d u v hcd huv => ?_
    refine Follows.expect_bind huv fun _ _ hext => ?_
    exact Follows.spanned hext fun _ _ => .again (.element hab hcd trivial)
  · exact Follows.pure h (.done hab)

theorem carries_unary
    (hinner : ∀ rank, S.Carries (Expr.Alike anyPlace) (inner rank) (inner rank)) :
    S.Carries (Expr.Alike anyPlace) (unary inner) (unary inner) := by
  intro s t h
  have hchain : S.CarriesAt (Expr.Alike anyPlace) s t (accessChain inner) (accessChain inner) := by
    refine Follows.currentSpan_bind fun i j => ?_
    refine Follows.bind (carries_primary hinner s t h) fun a b u v hab huv => ?_
    exact carries_loop (fun _ _ hcd => carries_access hinner i.start j.start hcd) hab u v huv
  refine Follows.currentSpan_bind fun i j => ?_
  refine Follows.peek_bind h (fun token htoken => ?_) fun _ => hchain
  split
  · refine Follows.advance_bind h htoken fun u v huv => ?_
    refine Follows.bind (hinner _ u v huv) fun a b u v hab huv => ?_
    exact Follows.spanned huv fun _ _ => .unary hab trivial
  · split
    · refine Follows.advance_bind h htoken fun u v huv => ?_
      refine Follows.bind (hinner _ u v huv) fun a b u v hab huv => ?_
      exact Follows.spanned huv fun _ _ => .typeOf hab trivial
    · exact hchain

theorem carries_operation
    (hinner : ∀ rank, S.Carries (Expr.Alike anyPlace) (inner rank) (inner rank)) (least : Nat)
    {a b : Expr} (hab : a.Alike anyPlace b) :
    S.Carries (Round.Alike (Expr.Alike anyPlace)) (operation inner least a)
      (operation inner least b) := by
  intro s t h
  refine Follows.peek_bind h (fun token htoken => ?_) fun _ => Follows.pure h (.done hab)
  split
  · split
    · exact Follows.pure h (.done hab)
    · refine Follows.level_bind h htoken fun u v huv => ?_
      refine Follows.bind (hinner _ u v huv) fun c d u v hcd huv => ?_
      exact Follows.pure huv (.again (.binary hab hcd trivial))
  · exact Follows.pure h (.done hab)

theorem carries_binary
    (hinner : ∀ rank, S.Carries (Expr.Alike anyPlace) (inner rank) (inner rank)) (least : Nat) :
    S.Carries (Expr.Alike anyPlace) (binary inner least) (binary inner least) := fun s t h =>
  Follows.bind (carries_unary hinner s t h) fun _ _ u v hab huv =>
    carries_loop (fun _ _ hcd => carries_operation hinner least hcd) hab u v huv

theorem carries_conditional
    (hinner : ∀ rank, S.Carries (Expr.Alike anyPlace) (inner rank) (inner rank)) :
    S.Carries (Expr.Alike anyPlace) (conditional inner) (conditional inner) := by
  intro s t h
  refine Follows.bind (carries_binary hinner 1 s t h) fun a b u v hab huv => ?_
  refine Follows.eat_bind (.inl huv) (fun u v huv => ?_) (Follows.pure huv hab)
  refine Follows.bind (hinner _ u v huv) fun c d u v hcd huv => ?_
  refine Follows.expect_bind huv fun u v huv => ?_
  refine Follows.bind (hinner _ u v huv) fun e f u v hef huv => ?_
  exact Follows.pure huv (.conditional hab hcd hef trivial)

theorem carries_assignment
    (hinner : ∀ rank, S.Carries (Expr.Alike anyPlace) (inner rank) (inner rank)) :
    S.Carries (Expr.Alike anyPlace) (assignment inner) (assignment inner) := by
  intro s t h
  refine Follows.bind (carries_conditional hinner s t h) fun a b u v hab huv => ?_
  refine Follows.peek_bind huv (fun token htoken => ?_) fun _ => Follows.pure huv hab
  split
  · rw [hab.isAssignable]
    split
    · refine Follows.advance_bind huv htoken fun u v huv => ?_
      refine Follows.bind (hinner _ u v huv) fun c d u v hcd huv => ?_
      exact Follows.pure huv (.assignment hab hcd trivial)
    · exact Follows.throw
  · exact Follows.pure huv hab

/-- **An expression is read as it was,** though the text goes on behind it. -/
theorem carries_expression :
    ∀ depth rank, S.Carries (Expr.Alike anyPlace) (expression depth rank) (expression depth rank)
  | 0, _ => fun _ _ _ => Follows.fail
  | depth + 1, rank => by
    have hinner := carries_expression depth
    refine carries_nested ?_
    cases rank with
    | assignment => exact carries_assignment hinner
    | binary least => exact carries_binary hinner least
    | unary => exact carries_unary hinner

end Expressions

end Sequel

end ScriptLint.Parse
