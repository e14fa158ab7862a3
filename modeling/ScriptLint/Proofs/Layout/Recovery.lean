import ScriptLint.Proofs.Layout.Parsing
import ScriptLint.Proofs.Parsing.Isolation
import ScriptLint.Proofs.Token.Joining
/-!
# Damage does not reach what follows

Put a semicolon on a line of its own behind any text without lexical errors
and opening braces, and behind it a text that begins with a word that begins
a statement. However damaged the first text is, the second is read as it is
read alone, with the same statements and the same errors further on in the
text. The statements of the first text end in front of it.

The reader comes to the second text with all levels left (`Parse.Seam.loop_eq`);
from there on the two runs differ only in their places and in the errors that
were noted before, and such runs agree.

Key definitions: `shiftAlignment`, `SyntaxError.shift`.
Key theorems: `Script.recover_joined`.
-/

namespace ScriptLint

/-- An error `count` bytes further on. -/
def SyntaxError.shift (count : Nat) (e : SyntaxError) : SyntaxError :=
  ⟨e.problem, e.span.shift count⟩

/-! ### A text further on -/

/-- A text is aligned with itself `count` bytes further on. In front of its first token nothing
has been consumed, which may correspond to any place further in front. -/
def shiftAlignment (count : Nat) (earlier : List SyntaxError) : Alignment where
  starts a b := b = a + count
  stops a b := b = a + count ∨ a = 0 ∧ b ≤ count
  earlier := earlier
  le_iff := by
    intro a b c d hab hcd
    omega
  stops_of_starts := .inl
  stops_max := by
    intro a b c d hab hcd
    omega

theorem spans_shiftAlignment (count : Nat) (earlier : List SyntaxError) :
    (shiftAlignment count earlier).Spans = fun s t => t = s.shift count := by
  funext s t
  refine propext ⟨fun ⟨hstart, hstop⟩ => ?_, ?_⟩
  · have hs := s.start_le_stop
    have ht := t.start_le_stop
    cases s
    cases t
    simp only [shiftAlignment, Span.stop, Span.shift, Span.mk.injEq] at *
    omega
  · rintro rfl
    refine ⟨rfl, .inl ?_⟩
    simp only [Span.stop, Span.shift]
    omega

theorem alike_shift (count : Nat) (earlier : List SyntaxError) (item : Scanned) :
    Scanned.Alike (shiftAlignment count earlier).Spans item (item.shift count) := by
  rw [spans_shiftAlignment]
  cases item with
  | ok w => exact .ok rfl rfl
  | error e => exact .error rfl rfl

theorem errors_eq_shift {count : Nat} {errors errors' : List SyntaxError}
    (h : List.Forall₂ (SyntaxError.Alike fun s t => t = s.shift count) errors errors') :
    errors' = errors.map (SyntaxError.shift count) := by
  induction h with
  | nil => rfl
  | @cons e e' _ _ he _ ih =>
    obtain ⟨problem, span⟩ := e'
    obtain ⟨hproblem, rfl⟩ := he
    rw [List.map_cons, ← ih, SyntaxError.shift, hproblem]

/-! ### Two texts -/

/-- The words that begin a statement. -/
def statementWords : List Keyword :=
  [.letWord, .constWord, .varWord, .functionWord, .returnWord, .ifWord, .forWord, .whileWord]

section Joined

variable {a b : String} {ws : List Lexeme} {word : Keyword} {place : Span} {rest : List Scanned}

/-- The seam between two texts with a semicolon on a line of its own between them. -/
def joinSeam (a : String) (place : Span) (rest : List Scanned)
    (hword : Parse.startsStatement (.keyword word) = true) : Parse.Seam where
  sign := ⟨.punctuator .semicolon, ⟨a.utf8ByteSize + 1, 1⟩⟩
  word := word
  place := place.shift (a.utf8ByteSize + 3)
  rest := rest.map (Scanned.shift (a.utf8ByteSize + 3))
  bound := a.utf8ByteSize + 3
  sign_token := rfl
  sign_stop := Nat.lt_succ_self _
  word_starts := hword
  bound_le := Nat.le_add_left _ _

theorem back_joinSeam (hword : Parse.startsStatement (.keyword word) = true)
    (hb : scan b = .ok ⟨.keyword word, place⟩ :: rest) :
    (joinSeam a place rest hword).back = (scan b).map (Scanned.shift (a.utf8ByteSize + 3)) := by
  rw [hb]
  rfl

/-- At the start of the joined texts the seam is ahead. -/
theorem before_joinSeam (ha : tokenize a = .ok ws)
    (hbrace : ∀ w ∈ ws, w.token ≠ .punctuator .leftBrace)
    (hword : Parse.startsStatement (.keyword word) = true)
    (hb : scan b = .ok ⟨.keyword word, place⟩ :: rest) :
    (joinSeam a place rest hword).Before (Parse.State.ofText (a ++ "\n;\n" ++ b)) := by
  have hscan : scan (a ++ "\n;\n" ++ b) = ws.map .ok ++
      .ok (joinSeam a place rest hword).sign :: (joinSeam a place rest hword).back := by
    rw [scan_joined ha, back_joinSeam hword hb]
    rfl
  have hsettled : Parse.dropErrors (scan (a ++ "\n;\n" ++ b)) = scan (a ++ "\n;\n" ++ b) := by
    rw [hscan]
    cases ws <;> rfl
  refine ⟨⟨ws, hsettled.trans hscan, fun w hw => ⟨hbrace w hw, ?_⟩⟩, Nat.succ_pos _⟩
  have hstop := (placed_of_tokenize ha hw).stop_le
  rw [← utf8ByteSize_eq_byteLength] at hstop
  exact Nat.lt_of_le_of_lt hstop (Nat.lt_add_of_pos_right (by decide))

/-- Behind the seam the reader is where it is at the start of the second text, further on. -/
theorem alike_behind (hword : Parse.startsStatement (.keyword word) = true)
    (hb : scan b = .ok ⟨.keyword word, place⟩ :: rest) {t : Parse.State}
    (ht : (joinSeam a place rest hword).Behind t) (hroom : t.room = nestingLimit)
    (hstop : t.stop = (a ++ "\n;\n" ++ b).utf8ByteSize) :
    (Parse.State.ofText b).Alike (shiftAlignment (a.utf8ByteSize + 3) t.log) t := by
  have hahead : (Parse.State.ofText b).ahead = scan b := by
    show Parse.dropErrors (scan b) = scan b
    rw [hb]
    rfl
  have hlog : (Parse.State.ofText b).log = [] := by
    show ((Parse.leadingErrors (scan b)).map SyntaxError.ofLexical).reverse ++ [] = []
    rw [hb]
    rfl
  refine ⟨?_, ?_, ?_, hroom.symm, [], rfl, ?_⟩
  · rw [hahead, ht.ahead, back_joinSeam hword hb, List.forall₂_map_right_iff, List.forall₂_same]
    exact fun item _ => alike_shift _ _ item
  · show t.stop = b.utf8ByteSize + (a.utf8ByteSize + 3)
    have hsign : "\n;\n".utf8ByteSize = 3 := by decide
    rw [hstop, String.utf8ByteSize_append, String.utf8ByteSize_append, hsign]
    omega
  · exact .inr ⟨rfl, Nat.le_of_lt ht.consumedTo⟩
  · rw [hlog]
    exact .nil

end Joined

namespace Script

/-- A list of statements never fails. -/
theorem exists_readBody (text : String) : ∃ body t,
    Parse.statements (Parse.statement nestingLimit) none (.ofText text) = .ok body t ∧
      readBody text = (body, t) := by
  have hends : Parse.Ends (Parse.statements (Parse.statement nestingLimit) none) (.ofText text)
      (fun body _ => (∀ stmt ∈ body, True) ∧ True) fun _ => False :=
    Parse.Ends.statements (I := fun _ => True) (fun _ _ => trivial)
      (fun _ _ => Parse.Ends.of_forall (fun _ _ => ⟨trivial, trivial⟩) fun _ => trivial)
      (fun _ _ _ => trivial) trivial
  unfold readBody
  cases hrun : Parse.statements (Parse.statement nestingLimit) none (.ofText text) with
  | ok body t => exact ⟨body, t, rfl, rfl⟩
  | error e t => exact (hends.of_error hrun).elim

/-- **Damage does not reach what follows.** Let the first text have no lexical errors and no
opening brace, and let the second begin with a word that begins a statement. Behind the first text
and a semicolon on a line of its own, the second is read to the same statements and the same errors
as alone, further on; they follow the statements and the errors of the first text, and all
statements of the first text end in front of the second. -/
theorem recover_joined (name : String) {a b : String} {ws : List Lexeme} {w : Lexeme}
    (ha : tokenize a = .ok ws) (hbrace : ∀ v ∈ ws, v.token ≠ .punctuator .leftBrace)
    (hb : (scan b).head? = some (.ok w)) (hw : w.token ∈ statementWords.map Token.keyword) :
    ∃ front back errors,
      (recover name (a ++ "\n;\n" ++ b)).1.body = front ++ back ∧
      List.Forall₂ (Stmt.Alike fun s t => t = s.shift (a.utf8ByteSize + 3))
        (recover name b).1.body back ∧
      (recover name (a ++ "\n;\n" ++ b)).2 =
        errors ++ (recover name b).2.map (SyntaxError.shift (a.utf8ByteSize + 3)) ∧
      ∀ stmt ∈ front, stmt.span.stop ≤ a.utf8ByteSize + 3 := by
  obtain ⟨word, hmem, hword⟩ := List.mem_map.mp hw
  have hstarts : Parse.startsStatement (.keyword word) = true := by
    simpa [Parse.startsStatement, statementWords] using hmem
  obtain ⟨rest, hscan⟩ : ∃ rest, scan b = .ok ⟨.keyword word, w.span⟩ :: rest := by
    obtain ⟨token, span⟩ := w
    cases hword
    cases hitems : scan b with
    | nil => simp [hitems] at hb
    | cons item rest =>
      rw [hitems] at hb
      cases hb
      exact ⟨rest, rfl⟩
  -- the loop over the joined texts comes to the second one
  have hbefore := before_joinSeam ha hbrace hstarts hscan
  obtain ⟨front, t, hbehind, hroom, hstop, hfront, hloop⟩ :=
    Parse.Seam.loop_eq nestingLimit hbefore []
  have halike := alike_behind hstarts hscan hbehind hroom hstop
  -- and from there on it agrees with the loop over the second one alone
  have hagree := Parse.agree_statementsLoop none (Parse.agree_statement nestingLimit) front _ _ halike
  obtain ⟨body, u, hrun, hread⟩ := exists_readBody (a ++ "\n;\n" ++ b)
  obtain ⟨bodyB, uB, hrunB, hreadB⟩ := exists_readBody b
  rw [Parse.statements_eq, hloop, List.nil_append] at hrun
  rw [Parse.statements_eq] at hrunB
  rw [hrun, hrunB] at hagree
  cases hagree with
  | ok hbody hstate =>
    obtain ⟨back, rfl, hback⟩ := hbody
    obtain ⟨recent, hlog, hrecent⟩ := hstate.noted
    rw [spans_shiftAlignment] at hback hrecent
    refine ⟨front, back, t.errors, ?_, ?_, ?_, hfront⟩
    · rw [recover_eq, hread]
    · rw [recover_eq, hreadB]
      exact hback
    · rw [recover_eq, recover_eq, hread, hreadB]
      simp only [Parse.State.errors, hlog, errors_eq_shift hrecent, List.reverse_append,
        List.map_reverse]
      rfl

/-- The theorem where the header of a loop takes the semicolon for its own, and the second text has
an error too. -/
theorem recover_joined_header : ∃ ws w front back errors,
    tokenize "for (let i = 0" = .ok ws ∧ (∀ v ∈ ws, v.token ≠ .punctuator .leftBrace) ∧
    (scan "let x = ) 1").head? = some (.ok w) ∧ w.token ∈ statementWords.map Token.keyword ∧
    (recover "a.ts" ("for (let i = 0" ++ "\n;\n" ++ "let x = ) 1")).1.body = front ++ back ∧
    List.Forall₂ (Stmt.Alike fun s t => t = s.shift 17) (recover "a.ts" "let x = ) 1").1.body back ∧
    (recover "a.ts" ("for (let i = 0" ++ "\n;\n" ++ "let x = ) 1")).2 =
      errors ++ (recover "a.ts" "let x = ) 1").2.map (SyntaxError.shift 17) ∧
    ∀ stmt ∈ front, stmt.span.stop ≤ 17 := by
  have htokens : (tokenize "for (let i = 0").toOption.map
      (fun ws => ws.all (fun v => decide (v.token ≠ .punctuator .leftBrace))) = some true := by
    decide +kernel
  have hfirst : (scan "let x = ) 1").head? = some (.ok ⟨.keyword .letWord, ⟨0, 3⟩⟩) := by
    decide +kernel
  cases htext : tokenize "for (let i = 0" with
  | error e => simp [htext, Except.toOption] at htokens
  | ok ws =>
    have hbrace : ∀ v ∈ ws, v.token ≠ .punctuator .leftBrace := by
      simpa [htext, Except.toOption] using htokens
    have hword : Token.keyword .letWord ∈ statementWords.map Token.keyword := by decide
    obtain ⟨front, back, errors, hbody, hback, herrors, hfront⟩ :=
      recover_joined "a.ts" htext hbrace hfirst hword
    exact ⟨ws, _, front, back, errors, rfl, hbrace, hfirst, hword, hbody, hback, herrors, hfront⟩

end Script

end ScriptLint
