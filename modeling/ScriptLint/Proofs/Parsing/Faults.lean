import ScriptLint.Proofs.Parsing.SoundStatement
/-!
# Lexical errors among the syntax errors

A reader notes a lexical error when it moves past it, wherever it is in the
grammar and whether or not it is recovering from an error of its own. So the
lexical errors noted so far, followed by those that are still ahead, are the
same at every moment (`Accounts`). At the end of the text none is ahead, and
those noted are the lexical errors of the text, each once and in order.

Key definitions: `lexicalErrors`, `SyntaxError.isLexical`, `Parse.State.faults`, `Parse.Accounts`.
Key theorems: `Parse.accounts_loop`, `Parse.accounts_statement`, `Script.lexical_errors_noted`.
-/

namespace ScriptLint

/-- The lexical error that was scanned, if it was one. -/
def Scanned.fault? : Scanned → Option LexicalError
  | .ok _ => none
  | .error e => some e

/-- The lexical errors of a text, in order. -/
def lexicalErrors (text : String) : List LexicalError :=
  (scan text).filterMap Scanned.fault?

/-- The error has one of the numbers of lexical errors. -/
def SyntaxError.isLexical (e : SyntaxError) : Bool :=
  [1002, 1010, 1127].contains e.problem.code

theorem SyntaxError.isLexical_ofLexical (e : LexicalError) : (ofLexical e).isLexical = true := by
  obtain ⟨fault, span⟩ := e
  cases fault <;> rfl

namespace Parse

variable {α β : Type}

/-! ### What a state accounts for -/

namespace State

/-- The lexical errors noted so far, and behind them those that are still ahead. -/
def faults (s : State) : List SyntaxError :=
  s.errors.filter SyntaxError.isLexical
    ++ (s.ahead.filterMap Scanned.fault?).map SyntaxError.ofLexical

theorem fault?_split : ∀ ahead : List Scanned, ahead.filterMap Scanned.fault?
    = leadingErrors ahead ++ (dropErrors ahead).filterMap Scanned.fault?
  | [] => rfl
  | .ok _ :: _ => rfl
  | .error e :: ahead => by
    rw [List.filterMap_cons, leadingErrors, dropErrors, List.cons_append, ← fault?_split ahead]
    rfl

/-- What is passed over is noted. -/
theorem faults_settle (s : State) : s.settle.faults = s.faults := by
  have hnoted : ((leadingErrors s.ahead).map SyntaxError.ofLexical).filter SyntaxError.isLexical
      = (leadingErrors s.ahead).map SyntaxError.ofLexical := by
    rw [List.filter_eq_self]
    intro e he
    obtain ⟨l, -, rfl⟩ := List.mem_map.mp he
    exact SyntaxError.isLexical_ofLexical l
  have herrors : s.settle.errors
      = s.errors ++ (leadingErrors s.ahead).map SyntaxError.ofLexical := by
    simp [settle, errors]
  rw [faults, faults, herrors, List.filter_append, hnoted, fault?_split s.ahead, List.map_append,
    List.append_assoc]
  rfl

theorem faults_advance (s : State) : s.advance.faults = s.faults := by
  unfold advance
  split
  next w rest hahead =>
    rw [faults_settle, faults, faults, hahead, List.filterMap_cons]
    rfl
  next => rfl

theorem faults_note (s : State) {e : SyntaxError} (h : e.isLexical = false) :
    (s.note e).faults = s.faults := by
  simp [faults, errors, note, h]

theorem faults_start (text : String) :
    (ofText text).faults = (lexicalErrors text).map SyntaxError.ofLexical := by
  rw [ofText, faults_settle]
  rfl

end State

/-! ### Readers -/

/-- The reader notes the lexical errors it passes, and no others, and it fails with none. -/
def Accounts (p : Parse α) : Prop :=
  ∀ s, match p s with
    | .ok _ t => t.faults = s.faults
    | .error e t => e.isLexical = false ∧ t.faults = s.faults

namespace Accounts

theorem pure (a : α) : Accounts (Pure.pure a : Parse α) :=
  fun _ => rfl

theorem throw {e : SyntaxError} (h : e.isLexical = false) : Accounts (throw e : Parse α) :=
  fun _ => ⟨h, rfl⟩

theorem fail {problem : SyntaxProblem} (h : ∀ span, SyntaxError.isLexical ⟨problem, span⟩ = false) :
    Accounts (Parse.fail problem : Parse α) :=
  fun s => ⟨h s.span, rfl⟩

/-- One reader after the other. -/
theorem bind {p : Parse α} {f : α → Parse β} (hp : Accounts p) (hf : ∀ a, Accounts (f a)) :
    Accounts (p >>= f) := by
  intro s
  have hfirst := hp s
  rw [bind_run]
  cases h : p s with
  | error e t =>
    rw [h] at hfirst
    exact hfirst
  | ok a t =>
    rw [h] at hfirst
    have hsecond := hf a t
    simp only at hfirst ⊢
    rwa [← hfirst]

/-- A reader that looks at the state and leaves it. -/
theorem get_bind {f : State → Parse β} (h : ∀ s, Accounts (f s)) : Accounts (get >>= f) :=
  fun s => h s s

theorem peek_bind {f : Option Token → Parse β} (h : ∀ token, Accounts (f token)) :
    Accounts (peek >>= f) :=
  fun s => h s.token? s

theorem currentSpan_bind {f : Span → Parse β} (h : ∀ span, Accounts (f span)) :
    Accounts (currentSpan >>= f) :=
  fun s => h s.span s

theorem spanFrom_bind {start : Nat} {f : Span → Parse β} (h : ∀ span, Accounts (f span)) :
    Accounts (spanFrom start >>= f) :=
  fun s => h (Span.upTo start s.consumedTo) s

theorem advance_bind {f : Unit → Parse β} (h : Accounts (f ())) : Accounts (advance >>= f) := by
  intro s
  have hrest := h s.advance
  rwa [State.faults_advance] at hrest

theorem note_bind {e : SyntaxError} (he : e.isLexical = false) {f : Unit → Parse β}
    (h : Accounts (f ())) : Accounts (modify (State.note e) >>= f) := by
  intro s
  have hrest := h (s.note e)
  rwa [State.faults_note s he] at hrest

end Accounts

theorem accounts_eat (token : Token) : Accounts (eat token) := by
  intro s
  rw [eat_run]
  by_cases h : s.token? = some token
  · rw [if_pos h]
    exact s.faults_advance
  · rw [if_neg h]

theorem accounts_expect (sign : Punctuator) : Accounts (expect sign) :=
  (accounts_eat _).bind fun found => by
    cases found with
    | true => exact Accounts.pure ()
    | false => exact Accounts.fail fun _ => rfl

theorem accounts_ident : Accounts ident := by
  refine Accounts.currentSpan_bind fun span => Accounts.peek_bind fun token => ?_
  split
  next => exact Accounts.advance_bind (Accounts.pure _)
  next => exact Accounts.fail fun _ => rfl

theorem accounts_descend : Accounts descend := by
  refine Accounts.get_bind fun s => ?_
  split
  next => exact Accounts.fail fun _ => rfl
  next => exact fun _ => rfl

/-- The levels play no part. -/
theorem accounts_nested {p : Parse α} (h : Accounts p) : Accounts (nested p) := by
  intro s
  rw [nested_run]
  by_cases hroom : s.room = 0
  · rw [if_pos hroom]
    exact ⟨rfl, rfl⟩
  · rw [if_neg hroom]
    have hp := h { s with room := s.room - 1 }
    cases hrun : p { s with room := s.room - 1 } with
    | ok a t =>
      rw [hrun] at hp
      exact hp
    | error e t =>
      rw [hrun] at hp
      exact hp

/-- A reader that is tried out fails with no lexical error. -/
theorem Accounts.attempt_bind {p : Parse α} {f : Except SyntaxError α → Parse β} (hp : Accounts p)
    (hok : ∀ a, Accounts (f (.ok a)))
    (herror : ∀ e, e.isLexical = false → Accounts (f (.error e))) :
    Accounts (attempt p >>= f) := by
  intro s
  have hfirst := hp s
  rw [bind_run, attempt_run]
  cases h : p s with
  | ok a t =>
    rw [h] at hfirst
    have hsecond := hok a t
    simp only at hfirst ⊢
    rwa [← hfirst]
  | error e t =>
    rw [h] at hfirst
    have hsecond := herror e hfirst.1 t
    simp only at hfirst ⊢
    rwa [← hfirst.2]

/-- **What every round accounts for, the loop accounts for.** -/
theorem accounts_loop {round : α → Parse (Round α)} (h : ∀ a, Accounts (round a)) (a : α) :
    Accounts (loop round a) := by
  intro s
  -- by induction on what is ahead, which every round that goes on makes shorter
  induction hn : s.ahead.length using Nat.strongRecOn generalizing a s with
  | ind n ih =>
    have hround := h a s
    rw [loop_run]
    cases hrun : round a s with
    | error e t =>
      rw [hrun] at hround
      exact hround
    | ok r t =>
      rw [hrun] at hround
      cases r with
      | done b => exact hround
      | again b =>
        simp only at hround ⊢
        by_cases hlt : t.ahead.length < s.ahead.length
        · rw [if_pos hlt, ← hround]
          exact ih _ (hn ▸ hlt) b t rfl
        · rw [if_neg hlt]
          exact hround

theorem accounts_separated {sign : Punctuator} {item : Parse α} (h : Accounts item) :
    Accounts (separated sign item) := by
  refine h.bind fun a => accounts_loop (fun items => (accounts_eat _).bind fun found => ?_) [a]
  cases found with
  | true => exact h.bind fun _ => Accounts.pure _
  | false => exact Accounts.pure _

theorem accounts_listUntil {close : Punctuator} {item : Parse α} (h : Accounts item) :
    Accounts (listUntil close item) := by
  refine accounts_loop (fun items => Accounts.peek_bind fun token => ?_) []
  split
  next => exact Accounts.pure _
  next =>
    refine h.bind fun a => (accounts_eat _).bind fun found => ?_
    cases found <;> exact Accounts.pure _

theorem accounts_optionalAfter {sign : Punctuator} {item : Parse α} (h : Accounts item) :
    Accounts (optionalAfter sign item) := by
  refine (accounts_eat _).bind fun found => ?_
  cases found with
  | true => exact h.bind fun _ => Accounts.pure _
  | false => exact Accounts.pure _

/-! ### Types -/

theorem accounts_simpleType {inner : Parse TypeExpr} (h : Accounts inner) :
    Accounts (simpleType inner) := by
  refine Accounts.currentSpan_bind fun span => Accounts.peek_bind fun token => ?_
  split
  next => exact Accounts.advance_bind (Accounts.pure _)
  next => exact Accounts.advance_bind (Accounts.pure _)
  next =>
    exact Accounts.advance_bind (h.bind fun _ => (accounts_expect _).bind fun _ => Accounts.pure _)
  next =>
    split
    next => exact Accounts.advance_bind (Accounts.pure _)
    next =>
      split
      next => exact Accounts.advance_bind (Accounts.pure _)
      next => exact Accounts.fail fun _ => rfl
  next => exact Accounts.fail fun _ => rfl

theorem accounts_arrayType {inner : Parse TypeExpr} (h : Accounts inner) :
    Accounts (arrayType inner) := by
  refine Accounts.currentSpan_bind fun span => (accounts_simpleType h).bind fun element => ?_
  refine accounts_loop (fun element => Accounts.peek_bind fun token => ?_) element
  split
  next =>
    refine accounts_descend.bind fun _ => Accounts.advance_bind ?_
    exact (accounts_expect _).bind fun _ => Accounts.spanFrom_bind fun _ => Accounts.pure _
  next => exact Accounts.pure _

theorem accounts_typeExpr (depth : Nat) : Accounts (typeExpr depth) := by
  induction depth with
  | zero => exact Accounts.fail fun _ => rfl
  | succ depth ih =>
    refine accounts_nested (Accounts.currentSpan_bind fun span => ?_)
    refine (accounts_separated (accounts_arrayType ih)).bind fun members => ?_
    split
    next => exact Accounts.pure _
    next => exact Accounts.spanFrom_bind fun _ => Accounts.pure _

/-! ### Expressions -/

section Expressions

variable {inner : Rank → Parse Expr} (h : ∀ rank, Accounts (inner rank))
include h

theorem accounts_primary : Accounts (primary inner) := by
  refine Accounts.currentSpan_bind fun span => Accounts.peek_bind fun token => ?_
  split
  next => exact Accounts.advance_bind (Accounts.pure _)
  next => exact Accounts.advance_bind (Accounts.pure _)
  next => exact Accounts.advance_bind (Accounts.pure _)
  next => exact Accounts.advance_bind (Accounts.pure _)
  next => exact Accounts.advance_bind (Accounts.pure _)
  next =>
    refine Accounts.advance_bind ((h _).bind fun _ => (accounts_expect _).bind fun _ => ?_)
    exact Accounts.spanFrom_bind fun _ => Accounts.pure _
  next =>
    refine Accounts.advance_bind ((accounts_listUntil (h _)).bind fun _ => ?_)
    exact (accounts_expect _).bind fun _ => Accounts.spanFrom_bind fun _ => Accounts.pure _
  next =>
    split
    next => exact Accounts.advance_bind (Accounts.pure _)
    next => exact Accounts.fail fun _ => rfl

theorem accounts_access (start : Nat) (object : Expr) : Accounts (access inner start object) := by
  refine Accounts.peek_bind fun token => ?_
  split
  next =>
    refine accounts_descend.bind fun _ => Accounts.advance_bind ?_
    refine (accounts_listUntil (h _)).bind fun _ => (accounts_expect _).bind fun _ => ?_
    exact Accounts.spanFrom_bind fun _ => Accounts.pure _
  next =>
    refine accounts_descend.bind fun _ => Accounts.advance_bind ?_
    exact accounts_ident.bind fun _ => Accounts.spanFrom_bind fun _ => Accounts.pure _
  next =>
    refine accounts_descend.bind fun _ => Accounts.advance_bind ?_
    refine (h _).bind fun _ => (accounts_expect _).bind fun _ => ?_
    exact Accounts.spanFrom_bind fun _ => Accounts.pure _
  next => exact Accounts.pure _

theorem accounts_accessChain : Accounts (accessChain inner) :=
  Accounts.currentSpan_bind fun span => (accounts_primary h).bind fun first =>
    accounts_loop (accounts_access h span.start) first

theorem accounts_unary : Accounts (unary inner) := by
  refine Accounts.currentSpan_bind fun span => Accounts.peek_bind fun token => ?_
  split
  next =>
    refine Accounts.advance_bind ((h _).bind fun _ => ?_)
    exact Accounts.spanFrom_bind fun _ => Accounts.pure _
  next =>
    split
    next =>
      refine Accounts.advance_bind ((h _).bind fun _ => ?_)
      exact Accounts.spanFrom_bind fun _ => Accounts.pure _
    next => exact accounts_accessChain h

theorem accounts_binary (least : Nat) : Accounts (binary inner least) := by
  refine (accounts_unary h).bind fun first => accounts_loop (fun left => ?_) first
  refine Accounts.peek_bind fun token => ?_
  split
  next =>
    split
    next => exact Accounts.pure _
    next =>
      refine accounts_descend.bind fun _ => Accounts.advance_bind ?_
      exact (h _).bind fun _ => Accounts.pure _
  next => exact Accounts.pure _

theorem accounts_conditional : Accounts (conditional inner) := by
  refine (accounts_binary h 1).bind fun condition => (accounts_eat _).bind fun found => ?_
  cases found with
  | true =>
    refine (h _).bind fun _ => (accounts_expect _).bind fun _ => ?_
    exact (h _).bind fun _ => Accounts.pure _
  | false => exact Accounts.pure _

theorem accounts_assignment : Accounts (assignment inner) := by
  refine (accounts_conditional h).bind fun target => Accounts.peek_bind fun token => ?_
  split
  next =>
    split
    next => exact Accounts.advance_bind ((h _).bind fun _ => Accounts.pure _)
    next => exact Accounts.throw rfl
  next => exact Accounts.pure _

end Expressions

theorem accounts_expression (depth : Nat) : ∀ rank, Accounts (expression depth rank) := by
  induction depth with
  | zero => exact fun _ => Accounts.fail fun _ => rfl
  | succ depth ih =>
    intro rank
    refine accounts_nested ?_
    cases rank with
    | assignment => exact accounts_assignment ih
    | binary least => exact accounts_binary ih least
    | unary => exact accounts_unary ih

/-! ### Statements -/

theorem accounts_synchronize : Accounts synchronize := by
  refine accounts_loop (fun _ => Accounts.peek_bind fun token => ?_) ()
  split
  next => exact Accounts.pure _
  next =>
    split
    next => exact Accounts.advance_bind (Accounts.pure _)
    next =>
      split
      next => exact Accounts.pure _
      next => exact Accounts.advance_bind (Accounts.pure _)

/-- An error of the grammar is noted beside the lexical ones. -/
theorem accounts_recover (start : Nat) {e : SyntaxError} (he : e.isLexical = false) :
    Accounts (recover start e) := by
  refine Accounts.note_bind he (Accounts.currentSpan_bind fun span => ?_)
  split
  next => exact Accounts.advance_bind accounts_synchronize
  next => exact accounts_synchronize

theorem accounts_statements {statement : Parse Stmt} (h : Accounts statement)
    (close : Option Token) : Accounts (statements statement close) := by
  refine accounts_loop (fun body => Accounts.peek_bind fun token => ?_) []
  split
  next => exact Accounts.pure _
  next =>
    refine (accounts_eat _).bind fun found => ?_
    cases found with
    | true => exact Accounts.pure _
    | false =>
      refine Accounts.currentSpan_bind fun span => ?_
      refine h.attempt_bind (fun _ => Accounts.pure _) fun e he => ?_
      exact (accounts_recover span.start he).bind fun _ => Accounts.pure _

theorem accounts_block {statement : Parse Stmt} (h : Accounts statement) :
    Accounts (block statement) := by
  refine Accounts.currentSpan_bind fun span => (accounts_expect _).bind fun _ => ?_
  refine (accounts_statements h _).bind fun _ => (accounts_expect _).bind fun _ => ?_
  exact Accounts.spanFrom_bind fun _ => Accounts.pure _

/-- The readers of the parts of a statement account for lexical errors. -/
structure Parts.Account (inner : Parts) : Prop where
  typeExpr : Accounts inner.typeExpr
  expression : Accounts inner.expression
  statement : Accounts inner.statement

section Statements

variable {inner : Parts} (h : inner.Account)
include h

theorem accounts_declaration (kind : DeclKind) : Accounts (declaration inner kind) := by
  refine Accounts.currentSpan_bind fun span => Accounts.advance_bind ?_
  refine Accounts.bind (accounts_separated ?_) fun _ => Accounts.spanFrom_bind fun _ => Accounts.pure _
  refine accounts_ident.bind fun name => (accounts_optionalAfter h.typeExpr).bind fun _ => ?_
  refine (accounts_optionalAfter h.expression).bind fun _ => ?_
  exact Accounts.spanFrom_bind fun _ => Accounts.pure _

theorem accounts_parameters : Accounts (parameters inner) := by
  have hparameter : Accounts (parameter inner) := by
    refine accounts_ident.bind fun name => (accounts_optionalAfter h.typeExpr).bind fun _ => ?_
    exact Accounts.spanFrom_bind fun _ => Accounts.pure _
  have hclose : ∀ ps : List Parameter, Accounts (do expect .rightParen; return ps) :=
    fun ps => (accounts_expect _).bind fun _ => Accounts.pure ps
  refine (accounts_expect _).bind fun _ => Accounts.peek_bind fun token => ?_
  split
  next => exact (Accounts.pure []).bind hclose
  next => exact (accounts_separated hparameter).bind hclose

theorem accounts_function : Accounts (function inner) := by
  refine Accounts.currentSpan_bind fun span => Accounts.advance_bind ?_
  refine accounts_ident.bind fun name => (accounts_parameters h).bind fun _ => ?_
  refine (accounts_optionalAfter h.typeExpr).bind fun _ => (accounts_block h.statement).bind fun _ => ?_
  exact Accounts.spanFrom_bind fun _ => Accounts.pure _

theorem accounts_condition : Accounts (condition inner) :=
  (accounts_expect _).bind fun _ => h.expression.bind fun _ =>
    (accounts_expect _).bind fun _ => Accounts.pure _

theorem accounts_ifStatement : Accounts (ifStatement inner) := by
  refine Accounts.currentSpan_bind fun span => Accounts.advance_bind ?_
  refine (accounts_condition h).bind fun _ => h.statement.bind fun _ => ?_
  refine (accounts_eat _).bind fun found => ?_
  cases found with
  | true => exact h.statement.bind fun _ => Accounts.spanFrom_bind fun _ => Accounts.pure _
  | false => exact Accounts.spanFrom_bind fun _ => Accounts.pure _

theorem accounts_whileStatement : Accounts (whileStatement inner) := by
  refine Accounts.currentSpan_bind fun span => Accounts.advance_bind ?_
  refine (accounts_condition h).bind fun _ => h.statement.bind fun _ => ?_
  exact Accounts.spanFrom_bind fun _ => Accounts.pure _

theorem accounts_expressionUnless (sign : Punctuator) :
    Accounts (expressionUnless inner sign) := by
  refine Accounts.peek_bind fun token => ?_
  split
  next => exact Accounts.pure _
  next => exact h.expression.bind fun _ => Accounts.pure _

theorem accounts_forStart : Accounts (forStart inner) := by
  refine Accounts.peek_bind fun token => ?_
  split
  next kind _ => exact (accounts_declaration h kind).bind fun _ => Accounts.pure _
  next => exact (accounts_expressionUnless h _).bind fun _ => Accounts.pure _

theorem accounts_forStatement : Accounts (forStatement inner) := by
  refine Accounts.currentSpan_bind fun span => Accounts.advance_bind ?_
  refine (accounts_expect _).bind fun _ => (accounts_forStart h).bind fun _ => ?_
  refine (accounts_expect _).bind fun _ => (accounts_expressionUnless h _).bind fun _ => ?_
  refine (accounts_expect _).bind fun _ => (accounts_expressionUnless h _).bind fun _ => ?_
  refine (accounts_expect _).bind fun _ => h.statement.bind fun _ => ?_
  exact Accounts.spanFrom_bind fun _ => Accounts.pure _

theorem accounts_returnStatement : Accounts (returnStatement inner) := by
  have hend : ∀ (start : Nat) (value : Option Expr), Accounts (do
      let _ ← eat (.punctuator .semicolon)
      return Stmt.returns value (← spanFrom start)) :=
    fun start value => (accounts_eat _).bind fun _ => Accounts.spanFrom_bind fun _ => Accounts.pure _
  refine Accounts.currentSpan_bind fun span => Accounts.advance_bind ?_
  refine Accounts.peek_bind fun token => ?_
  split
  next => exact (Accounts.pure none).bind (hend span.start)
  next =>
    have hvalue : Accounts (some <$> inner.expression) := h.expression.bind fun _ => Accounts.pure _
    exact hvalue.bind (hend span.start)

theorem accounts_statementWith : Accounts (statementWith inner) := by
  have hend : ∀ (start : Nat) (stmt : Span → Stmt), Accounts (do
      let _ ← eat (.punctuator .semicolon)
      return stmt (← spanFrom start)) :=
    fun start stmt => (accounts_eat _).bind fun _ => Accounts.spanFrom_bind fun _ => Accounts.pure _
  refine Accounts.peek_bind fun token => ?_
  split
  next kind _ =>
    refine Accounts.currentSpan_bind fun span => (accounts_declaration h kind).bind fun list => ?_
    exact hend span.start (.variables list)
  next =>
    split
    next => exact accounts_function h
    next => exact (accounts_block h.statement).bind fun _ => Accounts.pure _
    next => exact accounts_ifStatement h
    next => exact accounts_whileStatement h
    next => exact accounts_forStatement h
    next => exact accounts_returnStatement h
    next =>
      refine Accounts.currentSpan_bind fun span => h.expression.bind fun value => ?_
      exact hend span.start (.expression value)

end Statements

/-- **A statement accounts for the lexical errors in it,** also if it is given up. -/
theorem accounts_statement (depth : Nat) : Accounts (statement depth) := by
  induction depth with
  | zero => exact Accounts.fail fun _ => rfl
  | succ depth ih =>
    exact accounts_nested (accounts_statementWith
      ⟨accounts_typeExpr depth, accounts_expression depth .assignment, ih⟩)

end Parse

/-! ### Texts -/

/-- The first lexical error decides. -/
theorem tokenize_of_lexicalErrors {text : String} {e : LexicalError} {es : List LexicalError}
    (h : lexicalErrors text = e :: es) : tokenize text = .error e := by
  unfold lexicalErrors at h
  unfold tokenize
  generalize scan text = items at h ⊢
  induction items with
  | nil => cases h
  | cons item items ih =>
    rw [List.mapM_cons]
    cases item with
    | error e' =>
      obtain ⟨rfl, -⟩ := List.cons.inj h
      rfl
    | ok w =>
      have hrest := ih h
      rw [hrest]
      rfl

/-- A text has tokens just if it has no lexical error. -/
theorem exists_tokenize_iff {text : String} :
    (∃ ws, tokenize text = .ok ws) ↔ lexicalErrors text = [] := by
  constructor
  · rintro ⟨ws, hws⟩
    cases h : lexicalErrors text with
    | nil => rfl
    | cons e es =>
      rw [tokenize_of_lexicalErrors h] at hws
      cases hws
  · intro h
    cases hws : tokenize text with
    | ok ws => exact ⟨ws, rfl⟩
    | error e =>
      -- without errors all that is scanned is a lexeme
      have hitems : scan text = (Parse.lexemesOf (scan text)).map .ok := by
        unfold lexicalErrors at h
        generalize scan text = items at h ⊢
        induction items with
        | nil => rfl
        | cons item items ih =>
          cases item with
          | error e' => cases h
          | ok w => rw [Parse.lexemesOf_ok, List.map_cons, ← ih h]
      rw [tokenize_eq_ok.mpr hitems] at hws
      cases hws

namespace Script

/-- The lexical errors among the errors of a text are those that the scanner finds. -/
theorem filter_isLexical_recover (name text : String) :
    (recover name text).2.filter SyntaxError.isLexical =
      (lexicalErrors text).map SyntaxError.ofLexical := by
  have hrun := Parse.accounts_statements (Parse.accounts_statement nestingLimit) none
    (Parse.State.ofText text)
  rw [readBody_run] at hrun
  have hfaults : (readBody text).2.faults = (Parse.State.ofText text).faults := hrun
  obtain ⟨-, -, hahead⟩ := derives_readBody text
  rw [Parse.State.faults_start, Parse.State.faults, hahead] at hfaults
  rw [recover_eq]
  simpa using hfaults

/-- **The lexical errors of a text are noted, each once and in order,** whatever else is wrong
with it. A text has tokens just if it has no lexical error, and otherwise the first one is told;
so a text that is read strictly has tokens. -/
theorem lexical_errors_noted (name text : String) :
    (recover name text).2.filter SyntaxError.isLexical
        = (lexicalErrors text).map SyntaxError.ofLexical ∧
      ((∃ ws, tokenize text = .ok ws) ↔ lexicalErrors text = []) ∧
      (∀ e es, lexicalErrors text = e :: es → tokenize text = .error e) ∧
      (∀ script, parse name text = .ok script → ∃ ws, tokenize text = .ok ws) := by
  have hnoted := filter_isLexical_recover name text
  refine ⟨hnoted, exists_tokenize_iff, fun e es => tokenize_of_lexicalErrors, ?_⟩
  intro script hscript
  obtain ⟨-, hlog⟩ := parse_eq_ok.mp hscript
  rw [exists_tokenize_iff, ← List.map_eq_nil_iff, ← hnoted, recover_eq, Parse.State.errors, hlog]
  rfl

/-- Two lexical errors are noted around an error of the grammar. -/
example : (recover "a.ts" "let # = @; x").2.map (·.problem.code) = [1127, 1003, 1127] := by
  decide +kernel

end Script

end ScriptLint
