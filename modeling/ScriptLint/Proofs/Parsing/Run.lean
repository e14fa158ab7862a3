import ScriptLint.Parsing.Script
/-!
# Running a reader

What the primitive readers do to a state, as equations. A state is looked at
through the lexemes that are still to be read: lexical errors between them
are passed over, and in a settled state none stands in front of the next
lexeme.

Key definitions: `lexemesOf`, `State.lexemes`, `State.Settled`.
Key theorems: `Script.parse_eq_ok`, `Script.parse_eq_error`.
-/

namespace ScriptLint.Parse

/-! ### Equations -/

section Equations

variable {α β : Type}

theorem bind_run (p : Parse α) (f : α → Parse β) (s : State) :
    (p >>= f) s = match p s with
      | .ok a t => f a t
      | .error e t => .error e t := by
  show EStateM.bind p f s = _
  unfold EStateM.bind
  cases p s <;> rfl

theorem fail_run (problem : SyntaxProblem) (s : State) :
    (fail problem : Parse α) s = .error ⟨problem, s.span⟩ s := rfl

theorem eat_run (token : Token) (s : State) :
    eat token s = if s.token? = some token then .ok true s.advance else .ok false s := by
  show (if s.token? = some token then (do advance; return true) else return false : Parse Bool) s = _
  split <;> rfl

theorem expect_run (sign : Punctuator) (s : State) :
    expect sign s = if s.token? = some (.punctuator sign) then .ok () s.advance
      else .error ⟨.expected sign, s.span⟩ s := by
  rw [expect, bind_run, eat_run]
  by_cases h : s.token? = some (.punctuator sign)
  · rw [if_pos h, if_pos h]
    rfl
  · rw [if_neg h, if_neg h]
    rfl

theorem ident_run (s : State) :
    ident s = match s.token?.bind Token.name? with
      | some name => .ok ⟨name, s.span⟩ s.advance
      | none => .error ⟨.identifierExpected, s.span⟩ s := by
  show (match s.token?.bind Token.name? with
    | some name => (do advance; return ⟨name, s.span⟩)
    | none => fail .identifierExpected : Parse Ident) s = _
  cases s.token?.bind Token.name? <;> rfl

theorem descend_run (s : State) :
    descend s = if s.room = 0 then .error ⟨.nestedTooDeeply, s.span⟩ s
      else .ok () { s with room := s.room - 1 } := by
  show (if s.room = 0 then fail .nestedTooDeeply
    else modify fun s => { s with room := s.room - 1 } : Parse Unit) s = _
  split <;> rfl

/-- A nested reader runs with one level less and gives back all levels. -/
theorem nested_run (p : Parse α) (s : State) :
    nested p s = if s.room = 0 then .error ⟨.nestedTooDeeply, s.span⟩ s
      else match p { s with room := s.room - 1 } with
        | .ok a t => .ok a { t with room := s.room }
        | .error e t => .error e { t with room := s.room } := by
  have h : (descend *> p) s = if s.room = 0 then .error ⟨.nestedTooDeeply, s.span⟩ s
      else p { s with room := s.room - 1 } := by
    show EStateM.seqRight descend (fun _ => p) s = _
    rw [EStateM.seqRight, descend_run]
    by_cases hr : s.room = 0
    · rw [if_pos hr, if_pos hr]
    · rw [if_neg hr, if_neg hr]
  rw [nested, h]
  by_cases hr : s.room = 0
  · rw [if_pos hr, if_pos hr]
  · cases hp : p { s with room := s.room - 1 } with
    | ok a t => simp only [if_neg hr]
    | error e t => simp only [if_neg hr]

theorem attempt_run (p : Parse α) (s : State) :
    attempt p s = match p s with
      | .ok a t => .ok (.ok a) t
      | .error e t => .ok (.error e) t := rfl

theorem loop_run (round : α → Parse (Round α)) (value : α) (s : State) :
    loop round value s = match round value s with
      | .error e t => .error e t
      | .ok (.done next) t => .ok next t
      | .ok (.again next) t =>
        if t.ahead.length < s.ahead.length then loop round next t else .ok next t := by
  rcases hr : round value s with ⟨_ | _, _⟩ | _ <;> rw [loop, hr]

/-- A round of `statements`. -/
def statementsRound (statement : Parse Stmt) (close : Option Token) (body : List Stmt) :
    Parse (Round (List Stmt)) := do
  let token ← peek
  if token = none ∨ token = close then return .done body
  else if ← eat (.punctuator .semicolon) then return .again body
  else
    let start := (← currentSpan).start
    match ← attempt statement with
    | .ok stmt => return .again (body ++ [stmt])
    | .error e =>
      recover start e
      return .again body

theorem statements_eq (statement : Parse Stmt) (close : Option Token) :
    statements statement close = loop (statementsRound statement close) [] := rfl

end Equations

/-! ### The tokens ahead -/

/-- The lexemes among what was scanned. -/
def lexemesOf (ahead : List Scanned) : List Lexeme :=
  ahead.filterMap Except.toOption

/-- The number of lexical errors among what was scanned. -/
def faultCount (ahead : List Scanned) : Nat :=
  ahead.countP fun item => !item.toBool

@[simp] theorem lexemesOf_nil : lexemesOf [] = [] := rfl

@[simp] theorem lexemesOf_ok (w : Lexeme) (ahead : List Scanned) :
    lexemesOf (.ok w :: ahead) = w :: lexemesOf ahead := rfl

@[simp] theorem lexemesOf_error (e : LexicalError) (ahead : List Scanned) :
    lexemesOf (.error e :: ahead) = lexemesOf ahead := rfl

@[simp] theorem lexemesOf_append (xs ys : List Scanned) :
    lexemesOf (xs ++ ys) = lexemesOf xs ++ lexemesOf ys := by
  simp [lexemesOf]

theorem faultCount_ok (w : Lexeme) (ahead : List Scanned) :
    faultCount (.ok w :: ahead) = faultCount ahead := by
  simp [faultCount, Except.toBool]

theorem faultCount_error (e : LexicalError) (ahead : List Scanned) :
    faultCount (.error e :: ahead) = faultCount ahead + 1 := by
  simp [faultCount, Except.toBool]

theorem leadingErrors_dropErrors : ∀ ahead : List Scanned, leadingErrors (dropErrors ahead) = []
  | [] => rfl
  | .ok _ :: _ => rfl
  | .error _ :: ahead => leadingErrors_dropErrors ahead

theorem leadingErrors_map_ok (ws : List Lexeme) : leadingErrors (ws.map .ok) = [] := by
  cases ws <;> rfl

theorem dropErrors_map_ok (ws : List Lexeme) : dropErrors (ws.map .ok) = ws.map .ok := by
  cases ws <;> rfl

/-- Lexical errors are passed over one by one, and nothing else is. -/
theorem dropErrors_split : ∀ ahead : List Scanned, ∃ passed, ahead = passed ++ dropErrors ahead ∧
    lexemesOf passed = [] ∧ faultCount ahead = (leadingErrors ahead).length + faultCount (dropErrors ahead)
  | [] => ⟨[], rfl, rfl, rfl⟩
  | .ok w :: ahead => ⟨[], rfl, rfl, by simp [dropErrors, leadingErrors]⟩
  | .error e :: ahead => by
    obtain ⟨passed, h1, h2, h3⟩ := dropErrors_split ahead
    refine ⟨.error e :: passed, by rw [dropErrors, List.cons_append, ← h1], h2, ?_⟩
    rw [faultCount_error, h3, leadingErrors, dropErrors, List.length_cons]
    omega

namespace State

/-- The lexemes that are still to be read. -/
def lexemes (s : State) : List Lexeme :=
  lexemesOf s.ahead

/-- What is next is a token, or the end of the text. -/
def Settled (s : State) : Prop :=
  leadingErrors s.ahead = []

theorem ahead_of_token? {s : State} {token : Token} (h : s.token? = some token) :
    ∃ w rest, s.ahead = .ok w :: rest ∧ w.token = token ∧ s.span = w.span := by
  unfold token? at h
  split at h
  next w rest heq =>
    refine ⟨w, rest, heq, by simpa using h, ?_⟩
    simp [span, heq]
  next => simp at h

theorem ahead_eq_nil {s : State} (hs : s.Settled) (h : s.token? = none) : s.ahead = [] := by
  unfold Settled at hs
  unfold token? at h
  cases hc : s.ahead with
  | nil => rfl
  | cons item rest =>
    cases item with
    | ok w => simp [hc] at h
    | error e => simp [hc, leadingErrors] at hs

/-- At the start of a text all of its lexemes are ahead. -/
theorem lexemes_ofText (text : String) : (ofText text).lexemes = lexemesOf (scan text) := by
  obtain ⟨passed, hsplit, hpassed, -⟩ := dropErrors_split (scan text)
  have h : lexemesOf (scan text) = lexemesOf (dropErrors (scan text)) := by
    rw [hsplit, lexemesOf_append, hpassed, List.nil_append, ← hsplit]
  rw [h]
  rfl

/-- At the start of a text its lexical errors are noted or ahead. -/
theorem faults_ofText (text : String) :
    (ofText text).log.length + faultCount (ofText text).ahead = faultCount (scan text) := by
  obtain ⟨passed, -, -, hcount⟩ := dropErrors_split (scan text)
  rw [hcount]
  simp [ofText, settle]

end State

end ScriptLint.Parse

/-! ### Scripts -/

namespace ScriptLint.Script

theorem recover_eq (name text : String) :
    recover name text = (⟨name, text, (readBody text).1⟩, (readBody text).2.errors) := rfl

/-- A script is read strictly just if reading it notes no error. -/
theorem parse_eq_ok {name text : String} {script : Script} :
    parse name text = .ok script ↔
      script = ⟨name, text, (readBody text).1⟩ ∧ (readBody text).2.log = [] := by
  unfold parse
  rw [recover_eq]
  cases hlog : (readBody text).2.log with
  | nil => simp [Parse.State.errors, hlog, eq_comm]
  | cons e log =>
    have herrors : (readBody text).2.errors = log.reverse ++ [e] := by simp [Parse.State.errors, hlog]
    rw [herrors]
    cases h : log.reverse <;> simp

/-- Otherwise the answer is all the errors. -/
theorem parse_eq_error {name text : String} (h : (readBody text).2.log ≠ []) :
    parse name text = .error (readBody text).2.errors := by
  have hne : (readBody text).2.errors ≠ [] := by simpa [Parse.State.errors] using h
  unfold parse
  rw [recover_eq]
  cases herrors : (readBody text).2.errors with
  | nil => exact absurd herrors hne
  | cons e errors => rfl

end ScriptLint.Script
