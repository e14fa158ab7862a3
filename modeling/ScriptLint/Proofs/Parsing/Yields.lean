import ScriptLint.Proofs.Parsing.Reads
import ScriptLint.Proofs.Syntax.Alike
import ScriptLint.Proofs.Syntax.Levels
/-!
# Readers that find what they ask for

A reader that faces the right tokens can fail for one reason only: the
levels run out. `Yields` says this exactly. If the toll of what is read can
be paid, the reader succeeds with the expected value, leaves the tokens that
follow, and holds what the toll says; if it cannot be paid, the nesting is
the error. There is one rule for each way to build a reader, and the tolls
add up along the way.

Types and expressions fail with that error (`Delivers`). A statement may
also have given up one of the statements inside it and gone on, with the
error noted (`Completes`); what follows then has to be shown only not to
forget it (`Keeps`).

The rules for loops are in two parts, for a round that goes on and for the
last one.

Key definitions: `State.Faces`, `Arrives`, `Yields`, `Keeps`.
Key theorems: `Yields.bind`, `Yields.nested`, `delivers_listUntil`, `delivers_separated`.
-/

namespace ScriptLint.Parse

/-- The tokens ahead are the given ones, with no lexical error between them, and at most `limit`
levels are left. -/
structure State.Faces (limit : Nat) (s : State) (ts : List Token) : Prop where
  ahead : ∃ ws : List Lexeme, s.ahead = ws.map .ok ∧ ws.map Lexeme.token = ts
  room_le : s.room ≤ limit

namespace State.Faces

variable {limit : Nat} {s : State} {ts : List Token} {token : Token}

theorem token? (h : s.Faces limit ts) : s.token? = ts.head? := by
  obtain ⟨ws, hws, rfl⟩ := h.ahead
  unfold State.token?
  rw [hws]
  cases ws <;> rfl

theorem settled (h : s.Faces limit ts) : s.Settled := by
  obtain ⟨ws, hws, -⟩ := h.ahead
  unfold State.Settled
  rw [hws, leadingErrors_map_ok]

theorem length_ahead (h : s.Faces limit ts) : s.ahead.length = ts.length := by
  obtain ⟨ws, hws, rfl⟩ := h.ahead
  rw [hws, List.length_map, List.length_map]

/-- A reader that consumes the next token changes nothing else. -/
theorem advance (h : s.Faces limit (token :: ts)) :
    s.advance.Faces limit ts ∧ s.advance.room = s.room ∧ s.advance.log = s.log := by
  obtain ⟨ws, hws, htokens⟩ := h.ahead
  cases ws with
  | nil => simp at htokens
  | cons w ws =>
    have hadv : s.advance = State.settle { s with ahead := ws.map .ok, consumedTo := w.span.stop } := by
      simp only [State.advance, hws, List.map_cons]
    rw [hadv]
    refine ⟨⟨⟨ws, dropErrors_map_ok ws, (List.cons.inj htokens).2⟩, h.room_le⟩, rfl, ?_⟩
    simp [State.settle, leadingErrors_map_ok]

theorem withRoom {limit' r : Nat} (h : s.Faces limit ts) (hr : r ≤ limit') :
    State.Faces limit' { s with room := r } ts :=
  ⟨h.ahead, hr⟩

end State.Faces

/-- From `s` a reader came to `t`, noted no error, faces `rest` and holds `held` levels. -/
structure Arrives (limit : Nat) (s : State) (rest : List Token) (held : Nat) (t : State) :
    Prop where
  faces : t.Faces limit rest
  room : t.room + held = s.room
  log : t.log = s.log

/-- How a reader may fail when the levels run out: always with the error, or also with the error
noted before. -/
inductive Manner where
  | throws
  | notes

/-- The nesting is among the errors noted. -/
def State.NotesDepth (s : State) : Prop :=
  ∃ e ∈ s.log, e.problem = .nestedTooDeeply

/-- The levels ran out. -/
def RanOut {α : Type} (m : Manner) : EStateM.Result SyntaxError State α → Prop
  | .ok _ t => m = .notes ∧ t.NotesDepth
  | .error e t => e.problem = .nestedTooDeeply ∨ (m = .notes ∧ t.NotesDepth)

theorem RanOut.thrown {α : Type} {r : EStateM.Result SyntaxError State α} (h : RanOut .throws r) :
    ∃ e t, r = .error e t ∧ e.problem = .nestedTooDeeply := by
  cases r with
  | ok a t => cases h.1
  | error e t => exact ⟨e, t, rfl, h.resolve_right fun hnotes => by cases hnotes.1⟩

/-- The reader yields what `R` says, if the toll can be paid; otherwise the levels run out. -/
inductive Yields {α : Type} (m : Manner) (limit : Nat) (s : State) (p : Parse α) (R : α → Prop)
    (rest : List Token) (toll : Toll) : Prop where
  | fits {a : α} {t : State} (need_le : toll.need ≤ s.room) (run : p s = .ok a t) (value : R a)
    (arrives : Arrives limit s rest toll.held t)
  | tooDeep (lt_need : s.room < toll.need) (ranOut : RanOut m (p s))

/-- What types, expressions and declarations do: they cannot be read at all when they nest too
deeply. -/
abbrev Delivers {α : Type} := @Yields α .throws

/-- What statements do: those inside of them are given up one by one. -/
abbrev Completes {α : Type} := @Yields α .notes

namespace Yields

variable {α β : Type} {m : Manner} {limit : Nat} {s t : State} {p : Parse α} {f : α → Parse β}
  {Q : α → Prop} {R : β → Prop} {ts mid rest : List Token} {c d : Toll} {token : Token}

theorem of_eq {p : Parse β} (h : Yields m limit s p R rest c) (hcd : c = d) :
    Yields m limit s p R rest d :=
  hcd ▸ h

/-- The value may be described by less. -/
theorem imp {R' : β → Prop} {p : Parse β} (h : Yields m limit s p R rest c)
    (hR : ∀ b, R b → R' b) : Yields m limit s p R' rest c := by
  cases h with
  | fits hneed hrun hb ht => exact .fits hneed hrun (hR _ hb) ht
  | tooDeep hlt hout => exact .tooDeep hlt hout

theorem pure {b : β} (hs : s.Faces limit rest) (hb : R b) :
    Yields m limit s (Pure.pure b) R rest .free :=
  .fits (Nat.zero_le _) rfl hb ⟨hs, rfl, rfl⟩

/-- A reader that goes on as `q` does where a first part has been read. -/
theorem after {p q : Parse β} (hneed : c.need ≤ s.room) (ht : Arrives limit s mid c.held t)
    (hrun : p s = q t) (h : Yields m limit t q R rest d) : Yields m limit s p R rest (c.andThen d) := by
  have hroom := ht.room
  cases h with
  | fits hneed' hq hb hu =>
    have hroom' := hu.room
    refine .fits ?_ (hrun.trans hq) hb ⟨hu.faces, ?_, hu.log.trans ht.log⟩
    · simp only [Toll.andThen]
      omega
    · simp only [Toll.andThen]
      omega
  | tooDeep hlt hout =>
    refine .tooDeep ?_ (hrun ▸ hout)
    simp only [Toll.andThen]
    omega

theorem need_lt_andThen (h : s.room < c.need) : s.room < (c.andThen d).need := by
  simp only [Toll.andThen]
  omega

/-- One reader after the other, where the first fails at once. -/
theorem bind (hp : Delivers limit s p Q mid c)
    (hf : ∀ a t, Q a → t.Faces limit mid → Yields m limit t (f a) R rest d) :
    Yields m limit s (p >>= f) R rest (c.andThen d) := by
  cases hp with
  | @fits a t hneed hrun ha ht =>
    exact after hneed ht (by rw [bind_run, hrun]) (hf a t ha ht.faces)
  | tooDeep hlt hout =>
    refine .tooDeep (need_lt_andThen hlt) ?_
    obtain ⟨e, t, hrun, he⟩ := hout.thrown
    rw [bind_run, hrun]
    exact .inl he

/-- A reader that runs as another one does after some tokens were consumed. -/
theorem of_run {p q : Parse β} (h : Yields m limit t q R rest c) (hrun : p s = q t)
    (hroom : t.room = s.room) (hlog : t.log = s.log) : Yields m limit s p R rest c := by
  cases h with
  | fits hneed hq hb hu =>
    exact .fits (hroom ▸ hneed) (hrun.trans hq) hb ⟨hu.faces, hu.room.trans hroom, hu.log.trans hlog⟩
  | tooDeep hlt hout => exact .tooDeep (hroom ▸ hlt) (hrun ▸ hout)

theorem peek_bind {f : Option Token → Parse β} (hs : s.Faces limit ts)
    (h : Yields m limit s (f ts.head?) R rest c) : Yields m limit s (peek >>= f) R rest c := by
  refine of_run h ?_ rfl rfl
  rw [← hs.token?]
  rfl

theorem peek_cons_bind {f : Option Token → Parse β} (hs : s.Faces limit (token :: ts))
    (h : Yields m limit s (f (some token)) R rest c) : Yields m limit s (peek >>= f) R rest c :=
  peek_bind hs h

theorem currentSpan_bind {f : Span → Parse β} (h : Yields m limit s (f s.span) R rest c) :
    Yields m limit s (currentSpan >>= f) R rest c :=
  of_run h rfl rfl rfl

theorem spanFrom_bind {start : Nat} {f : Span → Parse β}
    (h : Yields m limit s (f (Span.upTo start s.consumedTo)) R rest c) :
    Yields m limit s (spanFrom start >>= f) R rest c :=
  of_run h rfl rfl rfl

theorem advance_bind {f : Unit → Parse β} (hs : s.Faces limit (token :: ts))
    (h : ∀ t, t.Faces limit ts → Yields m limit t (f ()) R rest c) :
    Yields m limit s (Parse.advance >>= f) R rest c := by
  obtain ⟨hfaces, hroom, hlog⟩ := hs.advance
  exact of_run (h _ hfaces) rfl hroom hlog

theorem eat_bind {f : Bool → Parse β} (hs : s.Faces limit (token :: ts))
    (h : ∀ t, t.Faces limit ts → Yields m limit t (f true) R rest c) :
    Yields m limit s (eat token >>= f) R rest c := by
  obtain ⟨hfaces, hroom, hlog⟩ := hs.advance
  refine of_run (h _ hfaces) ?_ hroom hlog
  rw [bind_run, eat_run, hs.token?]
  simp

theorem eat_bind_no {f : Bool → Parse β} (hs : s.Faces limit ts) (hne : ts.head? ≠ some token)
    (h : Yields m limit s (f false) R rest c) : Yields m limit s (eat token >>= f) R rest c := by
  refine of_run h ?_ rfl rfl
  rw [bind_run, eat_run, hs.token?, if_neg hne]

theorem expect_bind {f : Unit → Parse β} {sign : Punctuator}
    (hs : s.Faces limit (.punctuator sign :: ts))
    (h : ∀ t, t.Faces limit ts → Yields m limit t (f ()) R rest c) :
    Yields m limit s (expect sign >>= f) R rest c := by
  obtain ⟨hfaces, hroom, hlog⟩ := hs.advance
  refine of_run (h _ hfaces) ?_ hroom hlog
  rw [bind_run, expect_run, hs.token?]
  simp

theorem ident_bind {f : Ident → Parse β} {name : Ident} (hname : name.Readable)
    (hs : s.Faces limit (name.token :: ts))
    (h : ∀ v t, name.Alike anyPlace v → t.Faces limit ts → Yields m limit t (f v) R rest c) :
    Yields m limit s (ident >>= f) R rest c := by
  obtain ⟨hfaces, hroom, hlog⟩ := hs.advance
  have hv : name.Alike anyPlace ⟨name.name, s.span⟩ := ⟨rfl, trivial⟩
  refine of_run (h _ _ hv hfaces) ?_ hroom hlog
  have htoken : s.token?.bind Token.name? = some name.name := by
    rw [hs.token?]
    exact hname
  rw [bind_run, ident_run, htoken]

theorem descend_bind {f : Unit → Parse β} (hs : s.Faces limit ts)
    (h : ∀ t, t.Faces limit ts → Yields m limit t (f ()) R rest c) :
    Yields m limit s (descend >>= f) R rest (Toll.level.andThen c) := by
  have hdescend : Delivers limit s descend (fun _ => True) ts .level := by
    have hrun := descend_run s
    by_cases hr : s.room = 0
    · rw [if_pos hr] at hrun
      exact .tooDeep (by simp only [Toll.level]; omega) (by rw [hrun]; exact .inl rfl)
    · rw [if_neg hr] at hrun
      have hle := hs.room_le
      refine .fits (by simp only [Toll.level]; omega) hrun trivial ⟨hs.withRoom (by omega), ?_, rfl⟩
      simp only [Toll.level]
      omega
  exact bind hdescend fun _ t _ ht => h t ht

/-- A reader that runs one level deeper gives back what it holds. -/
theorem nested {p : Parse β} (hs : s.Faces (limit + 1) ts)
    (h : ∀ t, t.Faces limit ts → Yields m limit t p R rest c) :
    Yields m (limit + 1) s (nested p) R rest c.within := by
  have hrun := nested_run p s
  by_cases hr : s.room = 0
  · rw [if_pos hr] at hrun
    exact .tooDeep (by simp only [Toll.within]; omega) (by rw [hrun]; exact .inl rfl)
  · rw [if_neg hr] at hrun
    have hle := hs.room_le
    cases h _ (hs.withRoom (by omega : s.room - 1 ≤ limit)) with
    | fits hneed hp hb ht =>
      rw [hp] at hrun
      simp only at hneed
      refine .fits (by simp only [Toll.within]; omega) hrun hb ⟨ht.faces.withRoom hle, ?_, ht.log⟩
      simp only [Toll.within]
      omega
    | tooDeep hlt hout =>
      simp only at hlt
      refine .tooDeep (by simp only [Toll.within]; omega) ?_
      rw [hrun]
      cases hp : p { s with room := s.room - 1 } <;> rw [hp] at hout <;> exact hout

/-- Where no level is left, nothing can be read one level deeper. -/
theorem fail {p : Parse β} (hs : s.Faces 0 ts) (hp : p = Parse.fail .nestedTooDeeply) :
    Yields m 0 s p R rest c.within := by
  have hroom := hs.room_le
  refine .tooDeep (by simp only [Toll.within]; omega) ?_
  rw [hp, fail_run]
  exact .inl rfl

/-! ### Loops -/

/-- The round goes on with a value that `Q` describes. -/
def GoesOn (Q : α → Prop) : Round α → Prop
  | .again a => Q a
  | .done _ => False

/-- The round is the last, with a value that `Q` describes. -/
def IsLast (Q : α → Prop) : Round α → Prop
  | .again _ => False
  | .done a => Q a

variable {round : α → Parse (Round α)} {a : α} {P : α → Prop}

/-- A round that consumed something goes on. -/
theorem loop_next {b : α} (hs : s.Faces limit ts) (ht : t.Faces limit mid)
    (hlt : mid.length < ts.length) (hrun : round a s = .ok (.again b) t) :
    loop round a s = loop round b t := by
  have hshort : t.ahead.length < s.ahead.length := by
    rw [ht.length_ahead, hs.length_ahead]
    exact hlt
  rw [loop_run, hrun]
  simp only
  rw [if_pos hshort]

theorem loop_again (hs : s.Faces limit ts) (h : Delivers limit s (round a) (GoesOn Q) mid c)
    (hlt : mid.length < ts.length)
    (hnext : ∀ b t, Q b → t.Faces limit mid → Yields m limit t (loop round b) P rest d) :
    Yields m limit s (loop round a) P rest (c.andThen d) := by
  cases h with
  | @fits r t hneed hrun hr ht =>
    cases r with
    | done b => exact hr.elim
    | again b => exact after hneed ht (loop_next hs ht.faces hlt hrun) (hnext b t hr ht.faces)
  | tooDeep hlt hout =>
    refine .tooDeep (need_lt_andThen hlt) ?_
    obtain ⟨e, t, hrun, he⟩ := hout.thrown
    rw [loop_run, hrun]
    exact .inl he

theorem loop_done (h : Delivers limit s (round a) (IsLast P) rest c) :
    Yields m limit s (loop round a) P rest c := by
  cases h with
  | @fits r t hneed hrun hr ht =>
    cases r with
    | again b => exact hr.elim
    | done b =>
      refine .fits hneed ?_ hr ht
      rw [loop_run, hrun]
  | tooDeep hlt hout =>
    refine .tooDeep hlt ?_
    obtain ⟨e, t, hrun, he⟩ := hout.thrown
    rw [loop_run, hrun]
    exact .inl he

end Yields

/-! ### Errors that were noted -/

/-- The reader forgets no error. -/
def Keeps {α : Type} (p : Parse α) : Prop :=
  ∀ s, Reads s p fun _ _ _ => True

section Noted

variable {α β : Type} {limit : Nat} {s t : State} {p : Parse α} {f : α → Parse β}
  {Q : α → Prop} {R : β → Prop} {ts mid rest : List Token} {c d : Toll}

theorem State.NotesDepth.mono (h : s.NotesDepth) (hlog : s.log <:+ t.log) : t.NotesDepth := by
  obtain ⟨e, he, hproblem⟩ := h
  exact ⟨e, hlog.subset he, hproblem⟩

/-- What is read later does not undo that the levels ran out. -/
theorem Keeps.ranOut (hp : Keeps p) (hs : s.Settled) (h : s.NotesDepth) : RanOut .notes (p s) := by
  have hreads := hp s (Advances.refl hs)
  cases hr : p s with
  | ok a t =>
    rw [hr] at hreads
    obtain ⟨_, ht, -⟩ := hreads
    exact ⟨rfl, h.mono ht.log_suffix⟩
  | error e t =>
    rw [hr] at hreads
    obtain ⟨_, ht⟩ := hreads
    exact .inr ⟨rfl, h.mono ht.log_suffix⟩

/-- A reader that succeeds leaves a state in which reading can go on. -/
theorem Keeps.settled (hp : Keeps p) (hs : s.Settled) {a : α} (hrun : p s = .ok a t) :
    t.Settled := by
  have hreads := hp s (Advances.refl hs)
  rw [hrun] at hreads
  obtain ⟨_, ht, -⟩ := hreads
  exact ht.settled

theorem keeps_loop {round : α → Parse (Round α)} (hround : ∀ a, Keeps (round a)) (a : α) :
    Keeps (loop round a) := by
  intro s
  -- by induction on what is ahead, as for the loop itself
  induction hn : s.ahead.length using Nat.strongRecOn generalizing a s with
  | ind n ih =>
    intro hs
    have hr := hround a s hs
    rw [loop_run]
    cases h : round a s with
    | error e t =>
      rw [h] at hr
      exact hr
    | ok r t =>
      rw [h] at hr
      obtain ⟨us, ht, -⟩ := hr
      cases r with
      | done b => exact ⟨us, ht, trivial⟩
      | again b =>
        by_cases hlt : t.ahead.length < s.ahead.length
        · simp only [if_pos hlt]
          have hnext := ih _ (hn ▸ hlt) b t rfl (Advances.refl ht.settled)
          cases hl : loop round b t with
          | ok b' u =>
            rw [hl] at hnext
            obtain ⟨vs, hu, -⟩ := hnext
            exact ⟨us ++ vs, ht.trans hu, trivial⟩
          | error e u =>
            rw [hl] at hnext
            obtain ⟨vs, hu⟩ := hnext
            exact ⟨us ++ vs, ht.trans hu⟩
        · simp only [if_neg hlt]
          exact ⟨us, ht, trivial⟩

namespace Yields

/-- One reader after the other, where the first may have noted that the levels ran out. -/
theorem bind_noted (hs : s.Settled) (hp : Completes limit s p Q mid c) (hkept : Keeps p)
    (hkeeps : ∀ a, Keeps (f a))
    (hf : ∀ a t, Q a → t.Faces limit mid → Completes limit t (f a) R rest d) :
    Completes limit s (p >>= f) R rest (c.andThen d) := by
  cases hp with
  | @fits a t hneed hrun ha ht =>
    exact after hneed ht (by rw [bind_run, hrun]) (hf a t ha ht.faces)
  | tooDeep hlt hout =>
    refine .tooDeep (need_lt_andThen hlt) ?_
    rw [bind_run]
    cases hr : p s with
    | ok a t =>
      rw [hr] at hout
      exact (hkeeps a).ranOut (hkept.settled hs hr) hout.2
    | error e t =>
      rw [hr] at hout
      exact hout

/-- The same for a reader that is tried out. If it fails because of the nesting, that has to be
noted. -/
theorem attempt_bind {f : Except SyntaxError α → Parse β} (hs : s.Settled)
    (hp : Completes limit s p Q mid c) (hkept : Keeps p) (hkeeps : ∀ r, Keeps (f r))
    (hnoted : ∀ e t, t.Settled → e.problem = .nestedTooDeeply → RanOut .notes (f (.error e) t))
    (hf : ∀ a t, Q a → t.Faces limit mid → Completes limit t (f (.ok a)) R rest d) :
    Completes limit s (attempt p >>= f) R rest (c.andThen d) := by
  have hattempt : Keeps (attempt p) := fun u =>
    From.last (reads_attempt (hkept u)) fun _ _ _ _ _ => trivial
  cases hp with
  | @fits a t hneed hrun ha ht =>
    exact after hneed ht (by rw [bind_run, attempt_run, hrun]) (hf a t ha ht.faces)
  | tooDeep hlt hout =>
    refine .tooDeep (need_lt_andThen hlt) ?_
    rw [bind_run]
    cases hr : p s with
    | ok a t =>
      have hrun : attempt p s = .ok (.ok a) t := by rw [attempt_run, hr]
      rw [hr] at hout
      rw [hrun]
      exact (hkeeps _).ranOut (hattempt.settled hs hrun) hout.2
    | error e t =>
      have hrun : attempt p s = .ok (.error e) t := by rw [attempt_run, hr]
      have ht := hattempt.settled hs hrun
      rw [hr] at hout
      rw [hrun]
      rcases hout with hproblem | ⟨-, hnotes⟩
      · exact hnoted e t ht hproblem
      · exact (hkeeps _).ranOut ht hnotes

/-- A round that may have noted that the levels ran out. -/
theorem loop_again_noted {round : α → Parse (Round α)} {a : α} {P : α → Prop}
    (hs : s.Faces limit ts) (h : Completes limit s (round a) (GoesOn Q) mid c)
    (hkeeps : ∀ a, Keeps (round a)) (hlt : mid.length < ts.length)
    (hnext : ∀ b t, Q b → t.Faces limit mid → Completes limit t (loop round b) P rest d) :
    Completes limit s (loop round a) P rest (c.andThen d) := by
  cases h with
  | @fits r t hneed hrun hr ht =>
    cases r with
    | done b => exact hr.elim
    | again b => exact after hneed ht (loop_next hs ht.faces hlt hrun) (hnext b t hr ht.faces)
  | tooDeep hlt hout =>
    refine .tooDeep (need_lt_andThen hlt) ?_
    rw [loop_run]
    cases hr : round a s with
    | error e t =>
      rw [hr] at hout
      exact hout
    | ok r t =>
      rw [hr] at hout
      cases r with
      | done b => exact hout
      | again b =>
        simp only
        split
        · exact (keeps_loop hkeeps b).ranOut ((hkeeps a).settled hs.settled hr) hout.2
        · exact hout

end Yields

end Noted

/-! ### Lists -/

section Lists

variable {α β : Type} {limit : Nat} {s : State} {rest : List Token} {item : Parse α}
  {tokens : β → List Token} {toll : β → Toll} {Same : β → α → Prop}

/-- A round of `separated`. -/
def separatedRound (sign : Punctuator) (item : Parse α) (items : List α) :
    Parse (Round (List α)) := do
  if ← eat (.punctuator sign) then return .again (items ++ [← item])
  else return .done items

/-- Behind an item stands the sign, or what comes after the list. -/
theorem next_of_joined (sign : Punctuator) (rows : List (List Token)) (rest : List Token) :
    (rows.flatMap (.punctuator sign :: ·) ++ rest).head? = some (.punctuator sign) ∨
      rows.flatMap (.punctuator sign :: ·) ++ rest = rest := by
  cases rows with
  | nil => exact .inr rfl
  | cons _ _ => exact .inl rfl

/-- Where a list ends with a sign of its own, every item has one of two signs behind it. -/
theorem sign_of_next {sign close : Punctuator} {ts : List Token}
    (h : ts.head? = some (.punctuator sign) ∨ ts = .punctuator close :: rest) :
    ∃ next us, ts = .punctuator next :: us ∧ next ∈ [sign, close] := by
  rcases h with hsign | rfl
  · obtain ⟨us, rfl⟩ := List.head?_eq_some_iff.mp hsign
    exact ⟨sign, us, rfl, by simp⟩
  · exact ⟨close, rest, rfl, by simp⟩

/-- The items behind the first one, each with its sign in front. -/
theorem delivers_separatedLoop {sign : Punctuator} {xs : List β}
    (hitem : ∀ x ∈ xs, ∀ s ts, (ts.head? = some (.punctuator sign) ∨ ts = rest) →
      s.Faces limit (tokens x ++ ts) → Delivers limit s item (Same x) ts (toll x))
    (hrest : rest.head? ≠ some (.punctuator sign)) (items : List α)
    (hs : s.Faces limit ((xs.map tokens).flatMap (.punctuator sign :: ·) ++ rest)) :
    Delivers limit s (loop (separatedRound sign item) items)
      (fun as => ∃ bs, as = items ++ bs ∧ List.Forall₂ Same xs bs) rest (tolls toll xs) := by
  induction xs generalizing s items with
  | nil =>
    refine Yields.loop_done (Yields.eat_bind_no hs hrest (Yields.pure hs ?_))
    exact ⟨[], (List.append_nil items).symm, .nil⟩
  | cons x xs ih =>
    simp only [List.map_cons, List.flatMap_cons, List.cons_append, List.append_assoc] at hs
    have hround : Delivers limit s (separatedRound sign item items)
        (Yields.GoesOn fun as => ∃ b, as = items ++ [b] ∧ Same x b)
        ((xs.map tokens).flatMap (.punctuator sign :: ·) ++ rest) (toll x) := by
      refine Yields.eat_bind hs fun t ht => ?_
      have hx := hitem x (by simp) t _ (next_of_joined sign _ rest) ht
      refine Yields.of_eq (Yields.bind hx fun b u hb hu => ?_) (Toll.andThen_free _)
      exact Yields.pure hu ⟨b, rfl, hb⟩
    refine Yields.loop_again hs hround ?_ ?_
    · simp only [List.length_cons, List.length_append]
      omega
    · rintro as t ⟨b, rfl, hb⟩ ht
      refine Yields.imp (ih (fun y hy => hitem y (List.mem_cons_of_mem x hy)) _ ht) ?_
      rintro as ⟨bs, rfl, hbs⟩
      exact ⟨b :: bs, by simp, .cons hb hbs⟩

theorem delivers_separated {sign : Punctuator} {xs : List β} (hne : xs ≠ [])
    (hitem : ∀ x ∈ xs, ∀ s ts, (ts.head? = some (.punctuator sign) ∨ ts = rest) →
      s.Faces limit (tokens x ++ ts) → Delivers limit s item (Same x) ts (toll x))
    (hrest : rest.head? ≠ some (.punctuator sign))
    (hs : s.Faces limit (joined sign (xs.map tokens) ++ rest)) :
    Delivers limit s (separated sign item) (List.Forall₂ Same xs) rest (tolls toll xs) := by
  cases xs with
  | nil => exact absurd rfl hne
  | cons x xs =>
    simp only [List.map_cons, joined, List.append_assoc] at hs
    have hx := hitem x (by simp) s _ (next_of_joined sign _ rest) hs
    refine Yields.bind hx fun a t ha ht => ?_
    have hmore := delivers_separatedLoop (fun y hy => hitem y (List.mem_cons_of_mem x hy)) hrest [a] ht
    refine Yields.imp hmore ?_
    rintro as ⟨bs, rfl, hbs⟩
    exact .cons ha hbs

/-- A round of `listUntil`. -/
def listRound (close : Punctuator) (item : Parse α) (items : List α) :
    Parse (Round (List α)) := do
  if (← peek) = some (.punctuator close) then return .done items
  else
    let items := items ++ [← item]
    if ← eat (.punctuator .comma) then return .again items else return .done items

/-- The items of a list up to its end, with commas between them. -/
theorem delivers_listLoop {close : Punctuator} {xs : List β} (hclose : close ≠ .comma)
    (hitem : ∀ x ∈ xs, ∀ s ts,
      (ts.head? = some (.punctuator .comma) ∨ ts = .punctuator close :: rest) →
      s.Faces limit (tokens x ++ ts) →
      Delivers limit s item (Same x) ts (toll x))
    (hfirst : ∀ x ∈ xs, ∃ token ts, tokens x = token :: ts ∧ token ≠ .punctuator close)
    (items : List α)
    (hs : s.Faces limit (joined .comma (xs.map tokens) ++ .punctuator close :: rest)) :
    Delivers limit s (loop (listRound close item) items)
      (fun as => ∃ bs, as = items ++ bs ∧ List.Forall₂ Same xs bs) (.punctuator close :: rest)
      (tolls toll xs) := by
  induction xs generalizing s items with
  | nil =>
    have hhead : (joined .comma (([] : List β).map tokens) ++ .punctuator close :: rest).head?
        = some (.punctuator close) := rfl
    refine Yields.loop_done (Yields.peek_bind hs ?_)
    rw [if_pos hhead]
    exact Yields.pure hs ⟨[], (List.append_nil items).symm, .nil⟩
  | cons x xs ih =>
    obtain ⟨token, us, hx, hne⟩ := hfirst x (by simp)
    have hhead : (joined .comma ((x :: xs).map tokens) ++ .punctuator close :: rest).head?
        ≠ some (.punctuator close) := by
      simpa [joined, hx] using hne
    cases xs with
    | nil =>
      simp only [List.map_cons, List.map_nil, joined, List.flatMap_nil, List.append_nil] at hs hhead
      refine Yields.loop_done (Yields.peek_bind hs ?_)
      rw [if_neg hhead]
      refine Yields.bind (hitem x (by simp) s _ (.inr rfl) hs) fun b t hb ht => ?_
      refine Yields.eat_bind_no ht (by simpa using hclose) (Yields.pure ht ?_)
      exact ⟨[b], rfl, .cons hb .nil⟩
    | cons y ys =>
      have hsplit : joined .comma ((x :: y :: ys).map tokens) ++ .punctuator close :: rest
          = tokens x ++ .punctuator .comma ::
            (joined .comma ((y :: ys).map tokens) ++ .punctuator close :: rest) := by
        simp [joined]
      have hround : Delivers limit s (listRound close item items)
          (Yields.GoesOn fun as => ∃ b, as = items ++ [b] ∧ Same x b)
          (joined .comma ((y :: ys).map tokens) ++ .punctuator close :: rest) (toll x) := by
        refine Yields.peek_bind hs ?_
        rw [if_neg hhead]
        rw [hsplit] at hs
        have hx := hitem x (by simp) s _ (.inl rfl) hs
        refine Yields.of_eq (Yields.bind hx fun b t hb ht => ?_) (Toll.andThen_free _)
        exact Yields.eat_bind ht fun u hu => Yields.pure hu ⟨b, rfl, hb⟩
      refine Yields.loop_again hs hround ?_ ?_
      · rw [hsplit]
        simp only [List.length_append, List.length_cons]
        omega
      · rintro as t ⟨b, rfl, hb⟩ ht
        refine Yields.imp (ih (fun z hz => hitem z (List.mem_cons_of_mem x hz))
          (fun z hz => hfirst z (List.mem_cons_of_mem x hz)) _ ht) ?_
        rintro as ⟨bs, rfl, hbs⟩
        exact ⟨b :: bs, by simp, .cons hb hbs⟩

theorem delivers_listUntil {close : Punctuator} {xs : List β} (hclose : close ≠ .comma)
    (hitem : ∀ x ∈ xs, ∀ s ts,
      (ts.head? = some (.punctuator .comma) ∨ ts = .punctuator close :: rest) →
      s.Faces limit (tokens x ++ ts) → Delivers limit s item (Same x) ts (toll x))
    (hfirst : ∀ x ∈ xs, ∃ token ts, tokens x = token :: ts ∧ token ≠ .punctuator close)
    (hs : s.Faces limit (joined .comma (xs.map tokens) ++ .punctuator close :: rest)) :
    Delivers limit s (listUntil close item) (List.Forall₂ Same xs) (.punctuator close :: rest)
      (tolls toll xs) := by
  refine Yields.imp (delivers_listLoop hclose hitem hfirst [] hs) ?_
  rintro as ⟨bs, rfl, hbs⟩
  exact hbs

theorem delivers_optionalAfter {sign : Punctuator} {x : Option β}
    (hitem : ∀ y ∈ x, ∀ s, s.Faces limit (tokens y ++ rest) →
      Delivers limit s item (Same y) rest (toll y))
    (hrest : rest.head? ≠ some (.punctuator sign))
    (hs : s.Faces limit (behind sign tokens x ++ rest)) :
    Delivers limit s (optionalAfter sign item) (Option.Rel Same x) rest (tollOf toll x) := by
  cases x with
  | none => exact Yields.eat_bind_no hs hrest (Yields.pure hs .none)
  | some y =>
    refine Yields.eat_bind hs fun t ht => ?_
    refine Yields.of_eq (Yields.bind (hitem y rfl t ht) fun a u ha hu => ?_)
      (Toll.andThen_free _)
    exact Yields.pure hu (.some ha)

end Lists

end ScriptLint.Parse
