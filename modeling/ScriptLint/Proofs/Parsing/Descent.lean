import ScriptLint.Proofs.Parsing.Matches
import ScriptLint.Proofs.Parsing.SoundStatement
/-!
# The descent of the readers ends

The readers of types, expressions and statements reach each other through
nested readers, and the number of levels that they count down looks like a
bound on how far they get. It is none: a reader asks for another one only
where a level fewer may be entered, and with fewer lexemes ahead unless it is
a statement that asks for an expression. What stands at the end of the
countdown is therefore never asked, and could be any reader at all. Readers
that are written in terms of themselves, without a countdown, exist, and they
read every text in the same way.

Key definitions: `Readers`, `Readers.around`, `Readers.levels`, `Readers.Recursive`.
Key theorems: `levels_statement`, `recursive_unbounded`, `Script.readBody_levels`,
`Script.readBody_recursive`.
-/

namespace ScriptLint

namespace Parse

/-! ### Readers within readers -/

/-- Readers for the three kinds of things that are nested in each other. -/
structure Readers where
  typeExpr : Parse TypeExpr
  expression : Rank → Parse Expr
  statement : Parse Stmt

namespace Readers

/-- The readers of the parts of a statement. -/
def parts (inner : Readers) : Parts :=
  ⟨inner.typeExpr, inner.expression .assignment, inner.statement⟩

/-- The readers that ask the given ones for all that is one level deeper. -/
def around (inner : Readers) : Readers where
  typeExpr := nested (unionType inner.typeExpr)
  expression rank := nested (ofRank inner.expression rank)
  statement := nested (statementWith inner.parts)

/-- The readers that come to the given ones `depth` levels deeper. -/
def levels (inner : Readers) : Nat → Readers
  | 0 => inner
  | depth + 1 => (inner.levels depth).around

end Readers

/-- The readers of what is at most `depth` levels deep. -/
def readers (depth : Nat) : Readers :=
  ⟨typeExpr depth, expression depth, statement depth⟩

/-! ### Where the inner readers lead -/

section Inner

variable {α : Type} {p : Parse α} {R : α → List Lexeme → State → Prop} {t : State}
  {room bound : Nat}

/-- A reader that moves forward and gives its levels back stays within the same bounds. -/
theorem Ends.within (hreads : Reads t p R)
    (hroom : Ends p t (fun _ u => u.room = t.room) fun u => u.room = t.room)
    (ht : t.Within room bound) :
    Ends p t (fun _ u => u.Within room bound) fun u => u.Within room bound := by
  have hp := hreads (Advances.refl ht.settled)
  unfold Ends at hroom ⊢
  cases hrun : p t with
  | ok a u =>
    rw [hrun] at hp hroom
    obtain ⟨ws, hadv, -⟩ := hp
    exact ht.forward hadv (Nat.le_of_eq hroom)
  | error e u =>
    rw [hrun] at hp hroom
    obtain ⟨ws, hadv⟩ := hp
    exact ht.forward hadv (Nat.le_of_eq hroom)

/-- A reader that consumes has fewer lexemes ahead where it succeeds. -/
theorem Ends.past (hreads : Reads t p R) (hne : ∀ a ws u, R a ws u → ws ≠ [])
    (hroom : Ends p t (fun _ u => u.room = t.room) fun u => u.room = t.room)
    (ht : t.Within room (bound + 1)) :
    Ends p t (fun _ u => u.Within room bound) fun _ => True := by
  have hp := hreads (Advances.refl ht.settled)
  unfold Ends at hroom ⊢
  cases hrun : p t with
  | ok a u =>
    rw [hrun] at hp hroom
    obtain ⟨ws, hadv, hR⟩ := hp
    exact ht.past hadv (hne a ws u hR) (Nat.le_of_eq hroom)
  | error e u => trivial

theorem room_typeExpr : ∀ depth,
    Ends (typeExpr depth) t (fun _ u => u.room = t.room) fun u => u.room = t.room
  | 0 => Ends.fail rfl
  | _ + 1 => Ends.room_nested _ t

theorem room_expression (rank : Rank) : ∀ depth,
    Ends (expression depth rank) t (fun _ u => u.room = t.room) fun u => u.room = t.room
  | 0 => Ends.fail rfl
  | _ + 1 => Ends.room_nested _ t

theorem room_statement : ∀ depth,
    Ends (statement depth) t (fun _ u => u.room = t.room) fun u => u.room = t.room
  | 0 => Ends.fail rfl
  | _ + 1 => Ends.room_nested _ t

end Inner

/-! ### The countdown -/

section Countdown

variable {x : Readers} {s : State} {depth : Nat}

/-- Where no level is left nothing is read, and else a reader has those of one level less inside. -/
theorem typeExpr_run (h : s.room ≤ depth) :
    typeExpr depth s = nested (unionType (typeExpr (depth - 1))) s := by
  cases depth with
  | zero => rw [nested_run, if_pos (Nat.le_zero.mp h)]; rfl
  | succ depth => rfl

theorem expression_run (rank : Rank) (h : s.room ≤ depth) :
    expression depth rank s = nested (ofRank (expression (depth - 1)) rank) s := by
  cases depth with
  | zero => rw [nested_run, if_pos (Nat.le_zero.mp h)]; rfl
  | succ depth => rfl

theorem statement_run (h : s.room ≤ depth) :
    statement depth s = nested (statementWith (readers (depth - 1)).parts) s := by
  cases depth with
  | zero => rw [nested_run, if_pos (Nat.le_zero.mp h)]; rfl
  | succ depth => rfl

/-- A nested reader runs what is in it with a level less. -/
theorem nested_congr {α : Type} {p q : Parse α}
    (h : s.room ≠ 0 → q { s with room := s.room - 1 } = p { s with room := s.room - 1 }) :
    nested q s = nested p s := by
  rw [nested_run, nested_run]
  by_cases hroom : s.room = 0
  · rw [if_pos hroom, if_pos hroom]
  · rw [if_neg hroom, if_neg hroom, h hroom]

/-- Inside a nested reader that begins at `s`. -/
theorem State.Settled.within (hs : s.Settled) :
    State.Within (s.room - 1) (s.lexemes.length + 1) { s with room := s.room - 1 } :=
  ⟨hs, Nat.le_refl _, Nat.lt_succ_self _⟩

/-- **A type asks for types only further on,** with a level less. -/
theorem around_typeExpr (hs : s.Settled) (hroom : s.room ≤ depth)
    (hx : ∀ t, s.room ≠ 0 → t.Within (s.room - 1) s.lexemes.length →
      x.typeExpr t = typeExpr (depth - 1) t) : x.around.typeExpr s = typeExpr depth s := by
  rw [typeExpr_run hroom]
  refine nested_congr fun hne => ?_
  refine (matches_unionType (fun t ht => ⟨hx t hne ht, ?_⟩) hs.within).same
  exact (Ends.within (reads_typeExpr _ t) (room_typeExpr _) ht).imp (fun _ _ => id)
    fun _ _ => trivial

/-- **An expression asks for expressions only further on,** with a level less. -/
theorem around_expression (rank : Rank) (hs : s.Settled) (hroom : s.room ≤ depth)
    (hx : ∀ rank t, s.room ≠ 0 → t.Within (s.room - 1) s.lexemes.length →
      x.expression rank t = expression (depth - 1) rank t) :
    x.around.expression rank s = expression depth rank s := by
  rw [expression_run rank hroom]
  refine nested_congr fun hne => ?_
  refine (matches_ofRank (fun rank t ht => ⟨hx rank t hne ht, ?_⟩) hs.within rank).same
  exact (Ends.within (reads_expression _ rank t) (room_expression rank _) ht).imp (fun _ _ => id)
    fun _ _ => trivial

/-- **A statement asks for statements only further on,** and for types and expressions here or
further on, all with a level less. -/
theorem around_statement (hs : s.Settled) (hroom : s.room ≤ depth)
    (htype : ∀ t, s.room ≠ 0 → t.Within (s.room - 1) s.lexemes.length →
      x.typeExpr t = typeExpr (depth - 1) t)
    (hexpression : ∀ rank t, s.room ≠ 0 → t.Within (s.room - 1) (s.lexemes.length + 1) →
      x.expression rank t = expression (depth - 1) rank t)
    (hstatement : ∀ t, s.room ≠ 0 → t.Within (s.room - 1) s.lexemes.length →
      x.statement t = statement (depth - 1) t) :
    x.around.statement s = statement depth s := by
  rw [statement_run hroom]
  refine nested_congr fun hne => ?_
  refine (matches_statementWith ⟨fun t ht => ⟨htype t hne ht, ?_⟩,
    fun t ht => ⟨hexpression _ t hne ht, ?_⟩, fun t ht => ⟨hstatement t hne ht, ?_⟩⟩ hs.within).same
  · exact (Ends.within (reads_typeExpr _ t) (room_typeExpr _) ht).imp (fun _ _ => id)
      fun _ _ => trivial
  · exact Ends.past (reads_expression _ _ t) (fun _ _ _ h => h.spells.ne_nil)
      (room_expression _ _) ht
  · exact Ends.within (reads_statement _ t) (room_statement _) ht

/-- The levels suffice if there are more than may be entered, or more than lexemes ahead. -/
theorem levels_typeExpr (x : Readers) (n : Nat) : ∀ {depth s}, s.Settled → s.room ≤ depth →
    s.room < n ∨ s.lexemes.length < n → (x.levels n).typeExpr s = typeExpr depth s := by
  induction n with
  | zero => exact fun _ _ h => by omega
  | succ n ih =>
    refine fun hs hroom hn => around_typeExpr hs hroom fun t hne ht => ?_
    have hle := ht.room_le
    have hlt := ht.lexemes_lt
    exact ih ht.settled (by omega) (by omega)

theorem levels_expression (x : Readers) (n : Nat) : ∀ {depth s} (rank), s.Settled →
    s.room ≤ depth → s.room < n ∨ s.lexemes.length < n →
    (x.levels n).expression rank s = expression depth rank s := by
  induction n with
  | zero => exact fun _ _ _ h => by omega
  | succ n ih =>
    refine fun rank hs hroom hn => around_expression rank hs hroom fun rank t hne ht => ?_
    have hle := ht.room_le
    have hlt := ht.lexemes_lt
    exact ih rank ht.settled (by omega) (by omega)

/-- One level more is used by a statement that asks for an expression at once. -/
theorem levels_statement (x : Readers) (n : Nat) : ∀ {depth s}, s.Settled → s.room ≤ depth →
    s.room < n ∨ s.lexemes.length + 1 < n → (x.levels n).statement s = statement depth s := by
  induction n with
  | zero => exact fun _ _ h => by omega
  | succ n ih =>
    refine fun hs hroom hn => around_statement hs hroom (fun t hne ht => ?_)
      (fun rank t hne ht => ?_) fun t hne ht => ?_
    · have hle := ht.room_le
      have hlt := ht.lexemes_lt
      exact levels_typeExpr x n ht.settled (by omega) (by omega)
    · have hle := ht.room_le
      have hlt := ht.lexemes_lt
      exact levels_expression x n rank ht.settled (by omega) (by omega)
    · have hle := ht.room_le
      have hlt := ht.lexemes_lt
      exact ih ht.settled (by omega) (by omega)

end Countdown

/-! ### Readers without a countdown -/

namespace Readers

/-- At a settled state the readers do what those do that have them inside: they are written in terms
of themselves, and nothing is counted down. -/
structure Recursive (x : Readers) : Prop where
  typeExpr : ∀ s, s.Settled → x.typeExpr s = x.around.typeExpr s
  expression : ∀ s rank, s.Settled → x.expression rank s = x.around.expression rank s
  statement : ∀ s, s.Settled → x.statement s = x.around.statement s

/-- Readers with as many levels as may be entered from where they begin. -/
def unbounded : Readers where
  typeExpr s := Parse.typeExpr s.room s
  expression rank s := Parse.expression s.room rank s
  statement s := Parse.statement s.room s

end Readers

section Recursive

variable {x : Readers} {s t : State} {depth depth' : Nat}

/-- How many levels are counted down plays no part if they are enough. -/
theorem typeExpr_depth (hs : s.Settled) (h : s.room ≤ depth) (h' : s.room ≤ depth') :
    typeExpr depth s = typeExpr depth' s := by
  have hn : s.room < s.room + 1 ∨ s.lexemes.length < s.room + 1 := .inl (Nat.lt_succ_self _)
  exact (levels_typeExpr .unbounded _ hs h hn).symm.trans (levels_typeExpr .unbounded _ hs h' hn)

theorem expression_depth (rank : Rank) (hs : s.Settled) (h : s.room ≤ depth)
    (h' : s.room ≤ depth') : expression depth rank s = expression depth' rank s := by
  have hn : s.room < s.room + 1 ∨ s.lexemes.length < s.room + 1 := .inl (Nat.lt_succ_self _)
  exact (levels_expression .unbounded _ rank hs h hn).symm.trans
    (levels_expression .unbounded _ rank hs h' hn)

theorem statement_depth (hs : s.Settled) (h : s.room ≤ depth) (h' : s.room ≤ depth') :
    statement depth s = statement depth' s := by
  have hn : s.room < s.room + 1 ∨ s.lexemes.length + 1 < s.room + 1 := .inl (Nat.lt_succ_self _)
  exact (levels_statement .unbounded _ hs h hn).symm.trans (levels_statement .unbounded _ hs h' hn)

/-- **There are readers without a countdown.** -/
theorem recursive_unbounded : Readers.unbounded.Recursive where
  typeExpr _ hs := (around_typeExpr hs (Nat.le_refl _) fun _ _ ht =>
    typeExpr_depth ht.settled (Nat.le_refl _) ht.room_le).symm
  expression _ rank hs := (around_expression rank hs (Nat.le_refl _) fun rank _ _ ht =>
    expression_depth rank ht.settled (Nat.le_refl _) ht.room_le).symm
  statement _ hs := (around_statement hs (Nat.le_refl _)
    (fun _ _ ht => typeExpr_depth ht.settled (Nat.le_refl _) ht.room_le)
    (fun rank _ _ ht => expression_depth rank ht.settled (Nat.le_refl _) ht.room_le)
    fun _ _ ht => statement_depth ht.settled (Nat.le_refl _) ht.room_le).symm

namespace Readers.Recursive

/-- **They are the only ones.** -/
theorem typeExpr_eq (hx : x.Recursive) (hs : s.Settled) (h : s.room ≤ depth) :
    x.typeExpr s = Parse.typeExpr depth s := by
  -- by induction on the levels that may be entered, of which every inner reader has fewer
  induction hn : s.room using Nat.strongRecOn generalizing s depth with
  | ind n ih =>
    refine (hx.typeExpr s hs).trans (around_typeExpr hs h fun t hne ht => ?_)
    have := ht.room_le
    exact ih t.room (by omega) ht.settled (by omega) rfl

theorem expression_eq (hx : x.Recursive) (rank : Rank) (hs : s.Settled) (h : s.room ≤ depth) :
    x.expression rank s = Parse.expression depth rank s := by
  induction hn : s.room using Nat.strongRecOn generalizing s depth rank with
  | ind n ih =>
    refine (hx.expression s rank hs).trans (around_expression rank hs h fun rank t hne ht => ?_)
    have := ht.room_le
    exact ih t.room (by omega) rank ht.settled (by omega) rfl

theorem statement_eq (hx : x.Recursive) (hs : s.Settled) (h : s.room ≤ depth) :
    x.statement s = Parse.statement depth s := by
  induction hn : s.room using Nat.strongRecOn generalizing s depth with
  | ind n ih =>
    refine (hx.statement s hs).trans (around_statement hs h (fun t hne ht => ?_)
      (fun rank t hne ht => ?_) fun t hne ht => ?_)
    · have := ht.room_le
      exact hx.typeExpr_eq ht.settled (by omega)
    · have := ht.room_le
      exact hx.expression_eq rank ht.settled (by omega)
    · have := ht.room_le
      exact ih t.room (by omega) ht.settled (by omega) rfl

end Readers.Recursive

end Recursive

end Parse

/-! ### Scripts -/

namespace Script

open Parse

/-- What reads statements as the script's reader does, wherever the script's reader asks for one,
reads the same script. -/
theorem readBody_of_statement {p : Parse Stmt} {text : String}
    (hp : ∀ t, t.Within nestingLimit ((lexemesOf (scan text)).length + 1) →
      p t = statement nestingLimit t) :
    statements p none (State.ofText text) = .ok (readBody text).1 (readBody text).2 := by
  rw [← readBody_run]
  have hstart : (State.ofText text).Settled := leadingErrors_dropErrors _
  refine (matches_statements (fun t ht => ⟨hp t ht, ?_⟩) ⟨hstart, ?_, ?_⟩).same
  · exact Ends.within (reads_statement _ t) (room_statement _) ht
  · exact Nat.le_refl _
  · rw [State.lexemes_ofText]
    exact Nat.lt_succ_self _

/-- **The end of the countdown is never reached.** Whatever readers stand there, a text is read in the
same way if there are more levels than may be entered, or enough for the lexemes of the text. -/
theorem readBody_levels (x : Readers) (text : String) {n : Nat}
    (hn : nestingLimit < n ∨ (lexemesOf (scan text)).length + 1 < n) :
    statements (x.levels n).statement none (State.ofText text) =
      .ok (readBody text).1 (readBody text).2 := by
  refine readBody_of_statement fun t ht => levels_statement x n ht.settled ht.room_le ?_
  have hle := ht.room_le
  have hlt := ht.lexemes_lt
  omega

/-- **Reading needs no countdown.** -/
theorem readBody_recursive {x : Readers} (hx : x.Recursive) (text : String) :
    statements x.statement none (State.ofText text) = .ok (readBody text).1 (readBody text).2 :=
  readBody_of_statement fun _ ht => hx.statement_eq ht.settled ht.room_le

end Script

end ScriptLint
