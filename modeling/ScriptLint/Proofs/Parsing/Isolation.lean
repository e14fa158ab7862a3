import ScriptLint.Proofs.Parsing.CompleteStatement
import ScriptLint.Proofs.Parsing.Ends
/-!
# Damage does not spread over a seam

A seam is a semicolon with a word behind it that begins a statement. In front
of it there may be anything that has no opening brace. However the statements
there are damaged, the reader arrives at the word: an expression or a type
stops at the semicolon, the header of a loop that has taken the semicolon for
its own fails at the word, because no expression begins with it, and what is
skipped after an error ends behind the semicolon or at the word. Without a
brace no statement list is open in front of the seam, so the word is met by
the reader of the whole script, with all levels left.

Key definitions: `Seam`, `Seam.Before`, `Seam.Behind`.
Key theorems: `Seam.stays_expression`, `Seam.nears_statement`, `Seam.loop_eq`.
-/

namespace ScriptLint.Parse

/-- A semicolon, and a word behind it that begins a statement. What stands in front of the word
ends before `bound`. -/
structure Seam where
  sign : Lexeme
  word : Keyword
  place : Span
  rest : List Scanned
  bound : Nat
  sign_token : sign.token = .punctuator .semicolon
  sign_stop : sign.span.stop < bound
  word_starts : startsStatement (.keyword word) = true
  bound_le : bound ≤ place.start

namespace Seam

variable {S : Seam} {s t : State} {α : Type}

/-- What is ahead behind the semicolon. -/
def back (S : Seam) : List Scanned :=
  .ok ⟨.keyword S.word, S.place⟩ :: S.rest

/-- The semicolon is still ahead, and up to it no brace is opened. -/
structure Before (S : Seam) (s : State) : Prop where
  ahead : ∃ ws : List Lexeme, s.ahead = ws.map .ok ++ .ok S.sign :: S.back ∧
    ∀ w ∈ ws, w.token ≠ .punctuator .leftBrace ∧ w.span.stop < S.bound
  consumedTo : s.consumedTo < S.bound

/-- The word is next. -/
structure Behind (S : Seam) (s : State) : Prop where
  ahead : s.ahead = S.back
  consumedTo : s.consumedTo < S.bound

/-- The semicolon is still ahead, or the word is next. -/
def Near (S : Seam) (s : State) : Prop :=
  S.Before s ∨ S.Behind s

/-! ### In front of the seam -/

namespace Before

theorem withRoom (h : S.Before s) (r : Nat) : S.Before { s with room := r } :=
  ⟨h.ahead, h.consumedTo⟩

theorem note (h : S.Before s) (e : SyntaxError) : S.Before (s.note e) :=
  ⟨h.ahead, h.consumedTo⟩

/-- The next token is a token in front of the word. -/
theorem next (h : S.Before s) : ∃ w : Lexeme, s.token? = some w.token ∧ s.span = w.span ∧
    w.token ≠ .punctuator .leftBrace ∧ w.span.stop < S.bound ∧
    (S.Before s.advance ∨ w.token = .punctuator .semicolon ∧ S.Behind s.advance) := by
  obtain ⟨ws, hahead, hws⟩ := h.ahead
  cases ws with
  | nil =>
    have hsign : s.ahead = .ok S.sign :: S.back := hahead
    refine ⟨S.sign, by simp [State.token?, hsign], by simp [State.span, hsign], ?_, S.sign_stop,
      .inr ⟨S.sign_token, ?_⟩⟩
    · rw [S.sign_token]
      decide
    · have hadvance : s.advance =
          State.settle { s with ahead := S.back, consumedTo := S.sign.span.stop } := by
        simp only [State.advance, hsign]
      rw [hadvance]
      exact ⟨rfl, S.sign_stop⟩
  | cons w ws =>
    have hfirst : s.ahead = .ok w :: (ws.map .ok ++ .ok S.sign :: S.back) := hahead
    obtain ⟨hbrace, hstop⟩ := hws w (by simp)
    refine ⟨w, by simp [State.token?, hfirst], by simp [State.span, hfirst], hbrace, hstop, .inl ?_⟩
    have hadvance : s.advance = State.settle
        { s with ahead := ws.map .ok ++ .ok S.sign :: S.back, consumedTo := w.span.stop } := by
      simp only [State.advance, hfirst]
    have hsettled : dropErrors (ws.map .ok ++ .ok S.sign :: S.back) =
        ws.map .ok ++ .ok S.sign :: S.back := by
      cases ws <;> rfl
    rw [hadvance]
    exact ⟨⟨ws, hsettled, fun v hv => hws v (by simp [hv])⟩, hstop⟩

theorem start_lt (h : S.Before s) : s.span.start < S.bound := by
  obtain ⟨w, -, hspan, -, hstop, -⟩ := h.next
  have hle := w.span.start_le_stop
  rw [hspan]
  omega

theorem token?_ne_none (h : S.Before s) : s.token? ≠ none := by
  obtain ⟨w, htoken, -⟩ := h.next
  simp [htoken]

theorem token?_ne_leftBrace (h : S.Before s) : s.token? ≠ some (.punctuator .leftBrace) := by
  obtain ⟨w, htoken, -, hbrace, -⟩ := h.next
  simpa [htoken] using hbrace

theorem advance_near (h : S.Before s) : S.Near s.advance := by
  obtain ⟨w, -, -, -, -, hbefore | ⟨-, hbehind⟩⟩ := h.next
  · exact .inl hbefore
  · exact .inr hbehind

/-- Past any token but a semicolon the seam is still ahead. -/
theorem advance (h : S.Before s) {token : Token} (htoken : s.token? = some token)
    (hne : token ≠ .punctuator .semicolon) : S.Before s.advance := by
  obtain ⟨w, hw, -, -, -, hbefore | ⟨hsign, -⟩⟩ := h.next
  · exact hbefore
  · rw [htoken, hsign] at hw
    exact absurd (Option.some.inj hw) hne

/-- The same for a token that stands for something for which a semicolon does not stand. -/
theorem advance_of_bind {β : Type} {f : Token → Option β} {b : β} (h : S.Before s)
    (hb : s.token?.bind f = some b) (hf : f (.punctuator .semicolon) = none) :
    S.Before s.advance := by
  obtain ⟨token, htoken, hb⟩ := Option.bind_eq_some_iff.mp hb
  refine h.advance htoken ?_
  rintro rfl
  rw [hf] at hb
  cases hb

/-- What has been read in front of the seam ends there. -/
theorem stop_upTo_le (hs : S.Before s) (h : S.Near t) :
    (Span.upTo s.span.start t.consumedTo).stop ≤ S.bound := by
  have hstart := hs.start_lt
  have hconsumed : t.consumedTo < S.bound := by
    rcases h with h | h
    · exact h.consumedTo
    · exact h.consumedTo
  rw [Span.stop_upTo]
  omega

end Before

/-- The reader does not go past the semicolon, whether it succeeds or fails. -/
def Stays (S : Seam) (p : Parse α) : Prop :=
  ∀ s, S.Before s → Ends p s (fun _ t => S.Before t) S.Before

theorem stays_nested {p : Parse α} (h : S.Stays p) : S.Stays (nested p) := by
  intro s hs
  refine Ends.nested (fun _ => ?_) hs
  exact (h _ (hs.withRoom _)).imp (fun _ _ ht => ht.withRoom _) fun _ ht => ht.withRoom _

theorem stays_separated {item : Parse α} {sign : Punctuator} (h : S.Stays item)
    (hsign : sign ≠ .semicolon) : S.Stays (separated sign item) := by
  intro s hs
  have hitem : ∀ t, S.Before t → Ends item t (fun _ u => True ∧ S.Before u) S.Before :=
    fun t ht => (h t ht).imp (fun _ _ hu => ⟨trivial, hu⟩) fun _ hu => hu
  refine (Ends.separated (R := fun _ => True) hitem (fun t ht htoken => ?_) hs).imp
    (fun _ _ ht => ht.2) fun _ ht => ht
  exact ht.advance htoken (by simpa using hsign)

theorem stays_listUntil {item : Parse α} {close : Punctuator} (h : S.Stays item) :
    S.Stays (listUntil close item) := by
  intro s hs
  have hitem : ∀ t, S.Before t → Ends item t (fun _ u => True ∧ S.Before u) S.Before :=
    fun t ht => (h t ht).imp (fun _ _ hu => ⟨trivial, hu⟩) fun _ hu => hu
  refine (Ends.listUntil (R := fun _ => True) hitem (fun t ht htoken => ?_) hs).imp
    (fun _ _ ht => ht.2) fun _ ht => ht
  exact ht.advance htoken (by decide)

theorem stays_optionalAfter {item : Parse α} {sign : Punctuator} (h : S.Stays item)
    (hsign : sign ≠ .semicolon) : S.Stays (optionalAfter sign item) := by
  intro s hs
  refine Ends.eat_bind (fun htoken => ?_) fun _ => Ends.pure hs
  exact Ends.bind (h _ (hs.advance htoken (by simpa using hsign))) fun _ t ht => Ends.pure ht

/-! ### Types -/

section Types

variable {inner : Parse TypeExpr}

theorem stays_simpleType (hinner : S.Stays inner) : S.Stays (simpleType inner) := by
  intro s hs
  refine Ends.currentSpan_bind (Ends.peek_bind ?_)
  split
  next h => exact Ends.advance_bind (Ends.pure (hs.advance h (by decide)))
  next h => exact Ends.advance_bind (Ends.pure (hs.advance h (by decide)))
  next h =>
    refine Ends.advance_bind (Ends.bind (hinner _ (hs.advance h (by decide))) fun _ t ht => ?_)
    exact Ends.expect_bind (fun h => Ends.pure (ht.advance h (by decide))) fun _ => ht
  next token _ _ _ h =>
    split
    next word hword =>
      have hne : token ≠ .punctuator .semicolon := by
        rintro rfl
        simp [typeKeyword?] at hword
      exact Ends.advance_bind (Ends.pure (hs.advance h hne))
    next =>
      split
      next => exact Ends.advance_bind (Ends.pure (hs.advance h (by simp)))
      next => exact Ends.fail hs
  next => exact Ends.fail hs

theorem stays_arrayType (hinner : S.Stays inner) : S.Stays (arrayType inner) := by
  intro s hs
  refine Ends.currentSpan_bind (Ends.bind (stays_simpleType hinner s hs) fun _ t ht => ?_)
  refine Ends.loop (I := fun _ u => S.Before u) (fun _ u hu => Ends.peek_bind ?_) ht
  split
  next h =>
    refine Ends.descend_bind (fun _ => Ends.advance_bind ?_) hu
    have hopen := (hu.withRoom (u.room - 1)).advance h (by decide)
    refine Ends.expect_bind (fun h => Ends.spanFrom_bind (Ends.pure ?_)) fun _ => hopen
    exact hopen.advance h (by decide)
  next => exact Ends.pure hu

theorem stays_typeExpr : ∀ depth, S.Stays (typeExpr depth)
  | 0 => fun _ hs => Ends.fail hs
  | depth + 1 => by
    refine stays_nested fun s hs => Ends.currentSpan_bind ?_
    have hmembers : S.Stays (separated .bar (arrayType (typeExpr depth))) :=
      stays_separated (stays_arrayType (stays_typeExpr depth)) (by decide)
    refine Ends.bind (hmembers s hs) fun members t ht => ?_
    split
    · exact Ends.pure ht
    · exact Ends.spanFrom_bind (Ends.pure ht)

end Types

/-! ### Expressions -/

section Expressions

variable {inner : Rank → Parse Expr}

theorem stays_primary (hinner : ∀ rank, S.Stays (inner rank)) : S.Stays (primary inner) := by
  intro s hs
  refine Ends.currentSpan_bind (Ends.peek_bind ?_)
  split
  next h => exact Ends.advance_bind (Ends.pure (hs.advance h (by simp)))
  next h => exact Ends.advance_bind (Ends.pure (hs.advance h (by simp)))
  next h => exact Ends.advance_bind (Ends.pure (hs.advance h (by simp)))
  next h => exact Ends.advance_bind (Ends.pure (hs.advance h (by simp)))
  next h => exact Ends.advance_bind (Ends.pure (hs.advance h (by simp)))
  next h =>
    refine Ends.advance_bind (Ends.bind (hinner _ _ (hs.advance h (by decide))) fun _ t ht => ?_)
    refine Ends.expect_bind (fun h => Ends.spanFrom_bind (Ends.pure ?_)) fun _ => ht
    exact ht.advance h (by decide)
  next h =>
    refine Ends.advance_bind
      (Ends.bind (stays_listUntil (hinner _) _ (hs.advance h (by decide))) fun _ t ht => ?_)
    refine Ends.expect_bind (fun h => Ends.spanFrom_bind (Ends.pure ?_)) fun _ => ht
    exact ht.advance h (by decide)
  next =>
    split
    next name hname => exact Ends.advance_bind (Ends.pure (hs.advance_of_bind hname rfl))
    next => exact Ends.fail hs

theorem stays_access (hinner : ∀ rank, S.Stays (inner rank)) (start : Nat) (object : Expr) :
    S.Stays (access inner start object) := by
  intro s hs
  refine Ends.peek_bind ?_
  split
  next h =>
    refine Ends.descend_bind (fun _ => Ends.advance_bind ?_) hs
    have hopen := (hs.withRoom (s.room - 1)).advance h (by decide)
    refine Ends.bind (stays_listUntil (hinner _) _ hopen) fun _ t ht => ?_
    refine Ends.expect_bind (fun h => Ends.spanFrom_bind (Ends.pure ?_)) fun _ => ht
    exact ht.advance h (by decide)
  next h =>
    refine Ends.descend_bind (fun _ => Ends.advance_bind ?_) hs
    have hdot := (hs.withRoom (s.room - 1)).advance h (by decide)
    refine Ends.ident_bind (fun token _ h hname => Ends.spanFrom_bind (Ends.pure ?_)) hdot
    have hne : token ≠ .punctuator .semicolon := by
      rintro rfl
      cases hname
    exact hdot.advance h hne
  next h =>
    refine Ends.descend_bind (fun _ => Ends.advance_bind ?_) hs
    have hopen := (hs.withRoom (s.room - 1)).advance h (by decide)
    refine Ends.bind (hinner _ _ hopen) fun _ t ht => ?_
    refine Ends.expect_bind (fun h => Ends.spanFrom_bind (Ends.pure ?_)) fun _ => ht
    exact ht.advance h (by decide)
  next => exact Ends.pure hs

theorem stays_unary (hinner : ∀ rank, S.Stays (inner rank)) : S.Stays (unary inner) := by
  intro s hs
  refine Ends.currentSpan_bind (Ends.peek_bind ?_)
  split
  next op hop =>
    refine Ends.advance_bind
      (Ends.bind (hinner _ _ (hs.advance_of_bind hop rfl)) fun _ t ht => ?_)
    exact Ends.spanFrom_bind (Ends.pure ht)
  next =>
    split
    next h =>
      refine Ends.advance_bind (Ends.bind (hinner _ _ (hs.advance h (by decide))) fun _ t ht => ?_)
      exact Ends.spanFrom_bind (Ends.pure ht)
    next =>
      refine Ends.currentSpan_bind (Ends.bind (stays_primary hinner s hs) fun _ t ht => ?_)
      exact Ends.loop (I := fun _ u => S.Before u) (fun e u hu => stays_access hinner _ e u hu) ht

theorem stays_operation (hinner : ∀ rank, S.Stays (inner rank)) (least : Nat) (left : Expr) :
    S.Stays (operation inner least left) := by
  intro s hs
  refine Ends.peek_bind ?_
  split
  next op hop =>
    split
    · exact Ends.pure hs
    · refine Ends.descend_bind (fun _ => Ends.advance_bind ?_) hs
      have hsign := (hs.withRoom (s.room - 1)).advance_of_bind hop rfl
      exact Ends.bind (hinner _ _ hsign) fun _ t ht => Ends.pure ht
  next => exact Ends.pure hs

theorem stays_binary (hinner : ∀ rank, S.Stays (inner rank)) (least : Nat) :
    S.Stays (binary inner least) := fun s hs =>
  Ends.bind (stays_unary hinner s hs) fun _ _ ht =>
    Ends.loop (I := fun _ u => S.Before u) (fun e u hu => stays_operation hinner least e u hu) ht

theorem stays_conditional (hinner : ∀ rank, S.Stays (inner rank)) :
    S.Stays (conditional inner) := by
  intro s hs
  refine Ends.bind (stays_binary hinner 1 s hs) fun _ t ht => ?_
  refine Ends.eat_bind (fun h => ?_) fun _ => Ends.pure ht
  refine Ends.bind (hinner _ _ (ht.advance h (by decide))) fun _ u hu => ?_
  refine Ends.expect_bind (fun h => ?_) fun _ => hu
  exact Ends.bind (hinner _ _ (hu.advance h (by decide))) fun _ v hv => Ends.pure hv

theorem stays_assignment (hinner : ∀ rank, S.Stays (inner rank)) :
    S.Stays (assignment inner) := by
  intro s hs
  refine Ends.bind (stays_conditional hinner s hs) fun _ t ht => Ends.peek_bind ?_
  split
  next op hop =>
    split
    · exact Ends.advance_bind (Ends.bind (hinner _ _ (ht.advance_of_bind hop rfl)) fun _ u hu =>
        Ends.pure hu)
    · exact Ends.throw ht
  next => exact Ends.pure ht

/-- **No expression goes past the semicolon.** -/
theorem stays_expression : ∀ depth rank, S.Stays (expression depth rank)
  | 0, _ => fun _ hs => Ends.fail hs
  | depth + 1, rank => by
    have hinner := stays_expression depth
    refine stays_nested ?_
    cases rank with
    | assignment => exact stays_assignment hinner
    | binary least => exact stays_binary hinner least
    | unary => exact stays_unary hinner

end Expressions

/-! ### At the word -/

theorem word_ne (S : Seam) {word : Keyword} (h : startsStatement (.keyword word) = false) :
    S.word ≠ word := by
  rintro rfl
  rw [S.word_starts] at h
  cases h

theorem name?_word (S : Seam) : Token.name? (.keyword S.word) = none := by
  have h := S.word_starts
  revert h
  cases S.word <;> decide

namespace Behind

theorem withRoom (h : S.Behind s) (r : Nat) : S.Behind { s with room := r } :=
  ⟨h.ahead, h.consumedTo⟩

theorem token? (h : S.Behind s) : s.token? = some (.keyword S.word) := by
  simp [State.token?, h.ahead, back]

theorem span (h : S.Behind s) : s.span = S.place := by
  simp [State.span, h.ahead, back]

end Behind

/-- The reader fails at the word, and stays there. -/
def Refuses (S : Seam) (p : Parse α) : Prop :=
  ∀ s, S.Behind s → Ends p s (fun _ _ => False) S.Behind

section Expressions

variable {inner : Rank → Parse Expr}

theorem refuses_primary : S.Refuses (primary inner) := by
  intro s hs
  refine Ends.currentSpan_bind (Ends.peek_bind ?_)
  rw [hs.token?]
  split
  next h => cases h
  next h => cases h
  next h => exact absurd (Token.keyword.inj (Option.some.inj h)) (S.word_ne (by decide))
  next h => exact absurd (Token.keyword.inj (Option.some.inj h)) (S.word_ne (by decide))
  next h => exact absurd (Token.keyword.inj (Option.some.inj h)) (S.word_ne (by decide))
  next h => cases h
  next h => cases h
  next =>
    rw [Option.bind_some, S.name?_word]
    exact Ends.fail hs

theorem refuses_unary : S.Refuses (unary inner) := by
  intro s hs
  refine Ends.currentSpan_bind (Ends.peek_bind ?_)
  rw [hs.token?]
  split
  next h => cases h
  next =>
    split
    next h => exact absurd (Token.keyword.inj (Option.some.inj h)) (S.word_ne (by decide))
    next => exact Ends.currentSpan_bind (Ends.bind (refuses_primary s hs) fun _ _ h => h.elim)

theorem refuses_binary (least : Nat) : S.Refuses (binary inner least) := fun s hs =>
  Ends.bind (refuses_unary s hs) fun _ _ h => h.elim

theorem refuses_conditional : S.Refuses (conditional inner) := fun s hs =>
  Ends.bind (refuses_binary 1 s hs) fun _ _ h => h.elim

theorem refuses_assignment : S.Refuses (assignment inner) := fun s hs =>
  Ends.bind (refuses_conditional s hs) fun _ _ h => h.elim

/-- **No expression begins at the word.** -/
theorem refuses_expression (depth : Nat) (rank : Rank) : S.Refuses (expression depth rank) := by
  intro s hs
  cases depth with
  | zero => exact Ends.fail hs
  | succ depth =>
    refine Ends.nested (fun _ => ?_) hs
    have hwith : ∀ t, S.Behind t → S.Behind { t with room := s.room } := fun t ht => ht.withRoom _
    cases rank with
    | assignment => exact (refuses_assignment _ (hs.withRoom _)).imp (fun _ _ h => h.elim) hwith
    | binary least =>
      exact (refuses_binary least _ (hs.withRoom _)).imp (fun _ _ h => h.elim) hwith
    | unary => exact (refuses_unary _ (hs.withRoom _)).imp (fun _ _ h => h.elim) hwith

end Expressions

/-! ### Statements -/

/-- The reader of a statement arrives in front of the seam or at the word, whether it succeeds or
fails, and what it has read ends there. -/
def Nears (S : Seam) (p : Parse Stmt) : Prop :=
  ∀ s, S.Before s → Ends p s (fun a t => a.span.stop ≤ S.bound ∧ S.Near t) S.Near

theorem Stays.near {p : Parse α} (h : S.Stays p) (hs : S.Before s) :
    Ends p s (fun _ t => S.Before t) S.Near :=
  (h s hs).imp (fun _ _ ht => ht) fun _ ht => .inl ht

/-- The parts of a statement do not go past the seam, and no expression begins at the word. -/
structure Spared (S : Seam) (inner : Parts) : Prop where
  typeExpr : S.Stays inner.typeExpr
  expression : S.Stays inner.expression
  refused : S.Refuses inner.expression
  statement : S.Nears inner.statement

section Kinds

variable {inner : Parts}

theorem stays_declarator (h : S.Spared inner) : S.Stays (declarator inner) := by
  intro s hs
  refine Ends.ident_bind (fun token _ htoken hname => ?_) hs
  have hname : S.Before s.advance := hs.advance htoken (by rintro rfl; cases hname)
  refine Ends.bind (stays_optionalAfter h.typeExpr (by decide) _ hname) fun _ t ht => ?_
  refine Ends.bind (stays_optionalAfter h.expression (by decide) _ ht) fun _ u hu => ?_
  exact Ends.spanFrom_bind (Ends.pure hu)

theorem stays_declaration (h : S.Spared inner) {kind : DeclKind} (hs : S.Before s)
    (hkind : s.token?.bind DeclKind.ofToken? = some kind) :
    Ends (declaration inner kind) s (fun _ t => S.Before t) S.Before := by
  refine Ends.currentSpan_bind (Ends.advance_bind ?_)
  have hword := hs.advance_of_bind hkind rfl
  refine Ends.bind (stays_separated (stays_declarator h) (by decide) _ hword) fun _ t ht => ?_
  exact Ends.spanFrom_bind (Ends.pure ht)

theorem stays_parameters (h : S.Spared inner) : S.Stays (parameters inner) := by
  have hparameter : S.Stays (parameter inner) := by
    intro s hs
    refine Ends.ident_bind (fun token _ htoken hname => ?_) hs
    have hname : S.Before s.advance := hs.advance htoken (by rintro rfl; cases hname)
    refine Ends.bind (stays_optionalAfter h.typeExpr (by decide) _ hname) fun _ t ht => ?_
    exact Ends.spanFrom_bind (Ends.pure ht)
  intro s hs
  refine Ends.expect_bind (fun htoken => Ends.peek_bind ?_) fun _ => hs
  have hopen := hs.advance htoken (by decide)
  have hclose : ∀ (ps : List Parameter) t, S.Before t →
      Ends (do expect .rightParen; return ps) t (fun _ u => S.Before u) S.Before :=
    fun ps t ht => Ends.expect_bind (fun htoken => Ends.pure (ht.advance htoken (by decide)))
      fun _ => ht
  split
  · exact hclose [] _ hopen
  · exact Ends.bind (stays_separated hparameter (by decide) _ hopen) hclose

theorem stays_condition (h : S.Spared inner) : S.Stays (condition inner) := by
  intro s hs
  refine Ends.expect_bind (fun htoken => ?_) fun _ => hs
  refine Ends.bind (h.expression _ (hs.advance htoken (by decide))) fun _ t ht => ?_
  exact Ends.expect_bind (fun htoken => Ends.pure (ht.advance htoken (by decide))) fun _ => ht

/-- A function has no body in front of the seam, where no brace is opened. -/
theorem nears_function (h : S.Spared inner) (hs : S.Before s)
    (htoken : s.token? = some (.keyword .functionWord)) :
    Ends (function inner) s (fun a t => a.span.stop ≤ S.bound ∧ S.Near t) S.Near := by
  refine Ends.currentSpan_bind (Ends.advance_bind ?_)
  have hword := hs.advance htoken (by decide)
  refine Ends.ident_bind (fun token _ htoken hname => ?_) (.inl hword)
  have hname := hword.advance htoken (by rintro rfl; cases hname)
  refine Ends.bind ((stays_parameters h).near hname) fun _ t ht => ?_
  refine Ends.bind ((stays_optionalAfter h.typeExpr (by decide)).near ht) fun _ u hu => ?_
  refine Ends.bind (P := fun _ _ => False) ?_ fun _ _ h => h.elim
  exact Ends.currentSpan_bind (Ends.expect_bind (fun h => absurd h hu.token?_ne_leftBrace)
    fun _ => .inl hu)

theorem nears_ifStatement (h : S.Spared inner) (hs : S.Before s)
    (htoken : s.token? = some (.keyword .ifWord)) :
    Ends (ifStatement inner) s (fun a t => a.span.stop ≤ S.bound ∧ S.Near t) S.Near := by
  refine Ends.currentSpan_bind (Ends.advance_bind ?_)
  refine Ends.bind ((stays_condition h).near (hs.advance htoken (by decide))) fun _ t ht => ?_
  refine Ends.bind (h.statement t ht) fun _ u ⟨_, hu⟩ => ?_
  refine Ends.eat_bind (fun htoken => ?_) fun _ =>
    Ends.spanFrom_bind (Ends.pure ⟨hs.stop_upTo_le hu, hu⟩)
  rcases hu with hu | hu
  · refine Ends.bind (h.statement _ (hu.advance htoken (by decide))) fun _ v ⟨_, hv⟩ => ?_
    exact Ends.spanFrom_bind (Ends.pure ⟨hs.stop_upTo_le hv, hv⟩)
  · rw [hu.token?] at htoken
    exact absurd (Token.keyword.inj (Option.some.inj htoken)) (S.word_ne (by decide))

theorem nears_whileStatement (h : S.Spared inner) (hs : S.Before s)
    (htoken : s.token? = some (.keyword .whileWord)) :
    Ends (whileStatement inner) s (fun a t => a.span.stop ≤ S.bound ∧ S.Near t) S.Near := by
  refine Ends.currentSpan_bind (Ends.advance_bind ?_)
  refine Ends.bind ((stays_condition h).near (hs.advance htoken (by decide))) fun _ t ht => ?_
  refine Ends.bind (h.statement t ht) fun _ u ⟨_, hu⟩ => ?_
  exact Ends.spanFrom_bind (Ends.pure ⟨hs.stop_upTo_le hu, hu⟩)

/-- A header that has taken the semicolon for its own fails at the word. -/
theorem nears_expressionUnless (h : S.Spared inner) {sign : Punctuator} (hs : S.Near s) :
    Ends (expressionUnless inner sign) s (fun _ t => S.Before t) S.Near := by
  refine Ends.peek_bind ?_
  rcases hs with hs | hs
  · split
    · exact Ends.pure hs
    · exact Ends.bind (h.expression.near hs) fun _ t ht => Ends.pure ht
  · rw [hs.token?, if_neg (by simp)]
    exact Ends.bind ((h.refused s hs).imp (fun _ _ h => h) fun _ ht => .inr ht) fun _ _ h => h.elim

theorem nears_forStart (h : S.Spared inner) (hs : S.Before s) :
    Ends (forStart inner) s (fun _ t => S.Before t) S.Near := by
  refine Ends.peek_bind ?_
  split
  next kind hkind =>
    refine Ends.bind ((stays_declaration h hs hkind).imp (fun _ _ ht => ht) fun _ ht => .inl ht) ?_
    exact fun _ _ ht => Ends.pure ht
  next => exact Ends.bind (nears_expressionUnless h (.inl hs)) fun _ _ ht => Ends.pure ht

theorem nears_forStatement (h : S.Spared inner) (hs : S.Before s)
    (htoken : s.token? = some (.keyword .forWord)) :
    Ends (forStatement inner) s (fun a t => a.span.stop ≤ S.bound ∧ S.Near t) S.Near := by
  refine Ends.currentSpan_bind (Ends.advance_bind ?_)
  have hword := hs.advance htoken (by decide)
  refine Ends.expect_bind (fun htoken => ?_) fun _ => .inl hword
  refine Ends.bind (nears_forStart h (hword.advance htoken (by decide))) fun _ t ht => ?_
  refine Ends.expect_bind (fun _ => ?_) fun _ => .inl ht
  refine Ends.bind (nears_expressionUnless h ht.advance_near) fun _ u hu => ?_
  refine Ends.expect_bind (fun _ => ?_) fun _ => .inl hu
  refine Ends.bind (nears_expressionUnless h hu.advance_near) fun _ v hv => ?_
  refine Ends.expect_bind (fun htoken => ?_) fun _ => .inl hv
  refine Ends.bind (h.statement _ (hv.advance htoken (by decide))) fun _ w ⟨_, hw⟩ => ?_
  exact Ends.spanFrom_bind (Ends.pure ⟨hs.stop_upTo_le hw, hw⟩)

/-- A statement that may end with a semicolon may end with that of the seam. -/
theorem nears_ended (hs : S.Before s) (ht : S.Before t) {f : Span → Stmt}
    (hf : ∀ span, (f span).span = span) :
    Ends (do
      let _ ← eat (.punctuator .semicolon)
      return f (← spanFrom s.span.start)) t
      (fun a u => a.span.stop ≤ S.bound ∧ S.Near u) S.Near := by
  have hend : ∀ u, S.Near u → (f (Span.upTo s.span.start u.consumedTo)).span.stop ≤ S.bound := by
    intro u hu
    rw [hf]
    exact hs.stop_upTo_le hu
  refine Ends.eat_bind (fun _ => Ends.spanFrom_bind (Ends.pure ?_)) fun _ =>
    Ends.spanFrom_bind (Ends.pure ?_)
  · exact ⟨hend _ ht.advance_near, ht.advance_near⟩
  · exact ⟨hend _ (.inl ht), .inl ht⟩

theorem nears_returnStatement (h : S.Spared inner) (hs : S.Before s)
    (htoken : s.token? = some (.keyword .returnWord)) :
    Ends (returnStatement inner) s (fun a t => a.span.stop ≤ S.bound ∧ S.Near t) S.Near := by
  refine Ends.currentSpan_bind (Ends.advance_bind (Ends.peek_bind ?_))
  have hword := hs.advance htoken (by decide)
  split
  · exact nears_ended hs hword (f := Stmt.returns none) fun _ => rfl
  · refine Ends.bind (P := fun _ t => S.Before t) ?_ fun value t ht =>
      nears_ended hs ht (f := Stmt.returns value) fun _ => rfl
    exact Ends.bind (h.expression.near hword) fun _ t ht => Ends.pure ht

theorem nears_statementWith (h : S.Spared inner) : S.Nears (statementWith inner) := by
  intro s hs
  refine Ends.peek_bind ?_
  split
  next kind hkind =>
    refine Ends.currentSpan_bind (Ends.bind
      ((stays_declaration h hs hkind).imp (fun _ _ ht => ht) fun _ ht => .inl ht) fun d t ht => ?_)
    exact nears_ended hs ht (f := Stmt.variables d) fun _ => rfl
  next =>
    split
    next htoken => exact nears_function h hs htoken
    next htoken => exact absurd htoken hs.token?_ne_leftBrace
    next htoken => exact nears_ifStatement h hs htoken
    next htoken => exact nears_whileStatement h hs htoken
    next htoken => exact nears_forStatement h hs htoken
    next htoken => exact nears_returnStatement h hs htoken
    next =>
      refine Ends.currentSpan_bind (Ends.bind (h.expression.near hs) fun e t ht => ?_)
      exact nears_ended hs ht (f := Stmt.expression e) fun _ => rfl

end Kinds

/-- **A statement in front of the seam does not reach over it,** damaged or not. -/
theorem nears_statement : ∀ depth, S.Nears (statement depth)
  | 0 => fun _ hs => Ends.fail (.inl hs)
  | depth + 1 => by
    intro s hs
    have hinner : S.Spared ⟨typeExpr depth, expression depth .assignment, statement depth⟩ :=
      ⟨stays_typeExpr depth, stays_expression depth _, refuses_expression depth _,
        nears_statement depth⟩
    have hroom : ∀ t, S.Near t → S.Near { t with room := s.room } := fun t ht =>
      ht.imp (fun h => h.withRoom _) fun h => h.withRoom _
    refine Ends.nested (fun _ => ?_) (.inl hs)
    exact (nears_statementWith hinner _ (hs.withRoom _)).imp
      (fun a t ⟨ha, ht⟩ => ⟨ha, hroom t ht⟩) hroom

/-! ### Skipping -/

/-- What is skipped ends behind the semicolon, or at a word. -/
theorem near_synchronize {E : State → Prop} (hs : S.Near s) :
    Ends synchronize s (fun _ t => S.Near t) E := by
  refine Ends.loop (I := fun _ t => S.Near t) (fun _ t ht => Ends.peek_bind ?_) hs
  rcases ht with ht | ht
  · split
    next => exact Ends.pure (.inl ht)
    next token htoken =>
      split
      next => exact Ends.advance_bind (Ends.pure ht.advance_near)
      next hne =>
        split
        next => exact Ends.pure (.inl ht)
        next => exact Ends.advance_bind (Ends.pure (.inl (ht.advance htoken hne)))
  · rw [ht.token?]
    simp only [reduceCtorEq, if_false, S.word_starts, if_true]
    exact Ends.pure (.inr ht)

/-- A statement that began in front of the seam is given up without going over it: the word
starts further on, so it is not the token that is skipped at any rate. -/
theorem near_recover {E : State → Prop} {start : Nat} {e : SyntaxError} (hstart : start < S.bound)
    (hs : S.Near s) : Ends (recover start e) s (fun _ t => S.Near t) E := by
  refine Ends.note_bind (Ends.currentSpan_bind ?_)
  rcases hs with hs | hs
  · split
    · exact Ends.advance_bind (near_synchronize (hs.note e).advance_near)
    · exact near_synchronize (.inl (hs.note e))
  · have hnote : S.Behind (s.note e) := ⟨hs.ahead, hs.consumedTo⟩
    have hbound := S.bound_le
    rw [hnote.span, if_neg (by omega)]
    exact near_synchronize (.inr hnote)

/-! ### The statements in front of the seam -/

theorem room_statementsRound (s : State) (depth : Nat) (close : Option Token) (body : List Stmt) :
    Ends (statementsRound (statement depth) close body) s (fun _ t => t.room = s.room)
      fun _ => True := by
  have hstatement : Ends (statement depth) s (fun _ t => t.room = s.room)
      fun t => t.room = s.room := by
    cases depth with
    | zero => exact Ends.fail rfl
    | succ depth => exact Ends.room_nested _ s
  refine Ends.peek_bind ?_
  split
  · exact Ends.pure rfl
  · refine Ends.eat_bind (fun _ => Ends.pure (by simp)) fun _ => Ends.currentSpan_bind ?_
    refine Ends.attempt_bind hstatement (fun _ t ht => Ends.pure ht) fun e t ht => ?_
    refine Ends.bind (Ends.recover (I := fun u => u.room = s.room) (fun u hu => by simpa using hu)
      (fun e u hu => by simpa using hu) ht) fun _ u hu => Ends.pure hu

/-- A round of the script's loop that goes on has consumed something. -/
theorem reads_statementsRound {p : Parse Stmt} (hp : ∀ t, Reads t p (StatementAt t))
    (close : Option Token) (body : List Stmt) :
    Reads s (statementsRound p close body) fun r us _ => ∀ next, r = .again next → us ≠ [] := by
  refine From.peek_bind ?_
  split
  next => exact From.pure fun _ next h => nomatch h
  next hopen =>
    refine From.eat_bind (fun w u _ _ => From.pure fun _ _ _ => by simp) fun _ => ?_
    refine From.currentSpan_bind (From.bind (reads_attempt (hp s)) fun r us u hr hu => ?_)
    cases r with
    | ok stmt =>
      have hne := (hr stmt rfl).1.ne_nil
      exact From.pure fun _ _ _ => by simpa using hne
    | error e =>
      refine From.bind (reads_recover s.span.start e) fun _ vs v hv _ => From.pure fun _ _ _ => ?_
      -- a statement that failed at once leaves the lexeme for `recover` to pass over
      intro hnil
      obtain ⟨hus, rfl⟩ := List.append_eq_nil_iff.mp hnil
      obtain rfl : us = [] := by simpa using hus
      have hspan : u.span = s.span := by simp [State.span, hu.ahead_eq, hu.stop_eq]
      have htoken : u.token? = s.token? := by simp [State.token?, hu.ahead_eq]
      exact hv.2 (by rw [hspan]) (by rw [htoken]; exact fun h => hopen (.inl h)) rfl

/-- A round of the script's loop adds at most one statement, which ends in front of the seam. -/
theorem near_statementsRound (depth : Nat) (body : List Stmt) (hs : S.Before s) :
    Ends (statementsRound (statement depth) none body) s
      (fun r t => S.Near t ∧ ∃ xs, r = .again (body ++ xs) ∧ ∀ x ∈ xs, x.span.stop ≤ S.bound)
      fun _ => False := by
  refine Ends.peek_bind ?_
  rw [if_neg (by simpa using hs.token?_ne_none)]
  refine Ends.eat_bind (fun _ => Ends.pure ⟨hs.advance_near, [], by simp, by simp⟩) fun _ => ?_
  refine Ends.currentSpan_bind (Ends.attempt_bind (nears_statement depth s hs)
    (fun a t ⟨ha, ht⟩ => Ends.pure ⟨ht, [a], rfl, by simpa using ha⟩) fun e t ht => ?_)
  refine Ends.bind (near_recover hs.start_lt ht) fun _ u hu => ?_
  exact Ends.pure ⟨hu, [], by simp, by simp⟩

theorem Before.settled (h : S.Before s) : s.Settled := by
  obtain ⟨ws, hahead, -⟩ := h.ahead
  unfold State.Settled
  rw [hahead]
  cases ws <;> rfl

/-- **The script's loop comes to the word,** with all levels and the end of the text as they were,
and has added only statements that end in front of it. -/
theorem loop_eq (depth : Nat) (hs : S.Before s) (body : List Stmt) :
    ∃ front t, S.Behind t ∧ t.room = s.room ∧ t.stop = s.stop ∧
      (∀ x ∈ front, x.span.stop ≤ S.bound) ∧
      loop (statementsRound (statement depth) none) body s =
        loop (statementsRound (statement depth) none) (body ++ front) t := by
  -- by induction on what is ahead, which every round makes shorter
  induction hn : s.ahead.length using Nat.strongRecOn generalizing s body with
  | ind n ih =>
    have hround := near_statementsRound depth body hs
    have hreads := reads_statementsRound (reads_statement depth) none body
      (Advances.refl hs.settled)
    have hroom := room_statementsRound s depth none body
    rw [loop_run]
    cases hrun : statementsRound (statement depth) none body s with
    | error e t => exact (hround.of_error hrun).elim
    | ok r t =>
      rw [hrun] at hreads
      obtain ⟨us, hadv, hne⟩ := hreads
      obtain ⟨hnear, xs, rfl, hxs⟩ := hround.of_ok hrun
      have hrooms := hroom.of_ok hrun
      have hlt : t.ahead.length < s.ahead.length :=
        length_ahead_lt (Advances.refl hs.settled) hadv (List.length_pos_iff.mpr (hne _ rfl))
      simp only [if_pos hlt]
      rcases hnear with ht | ht
      · obtain ⟨front, u, hu, huroom, hustop, hfront, heq⟩ := ih _ (hn ▸ hlt) ht (body ++ xs) rfl
        refine ⟨xs ++ front, u, hu, huroom.trans hrooms, hustop.trans hadv.stop_eq, ?_, ?_⟩
        · intro x hx
          rcases List.mem_append.mp hx with hx | hx
          · exact hxs x hx
          · exact hfront x hx
        · rw [heq, List.append_assoc]
      · exact ⟨xs, t, ht, hrooms, hadv.stop_eq, hxs, rfl⟩

end Seam

end ScriptLint.Parse
