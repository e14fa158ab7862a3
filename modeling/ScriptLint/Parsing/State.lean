import ScriptLint.Syntax.Basic
import ScriptLint.Syntax.Error
import ScriptLint.Token.Scan
/-!
# Reading a list of tokens

A reader consumes the tokens of a text from left to right. It either yields
a value or fails with a syntax error; in both cases what it consumed stays
consumed. Lexical errors are noted when the reader moves past them, so that
the next thing ahead is always a token or the end of the text.

How deep a script may nest is counted down: `nested` runs a reader with one
level less and gives all levels back that were used inside, while `descend`
uses up a level until the enclosing `nested` ends.

`loop` is the only loop of the grammar. It goes on only while tokens are
consumed, and therefore ends.

Key definitions: `Parse.State`, `Parse`, `Parse.nested`, `Parse.loop`.
-/

namespace ScriptLint

namespace Parse

/-- The place of a reader in the text. `ahead` is still to be read, `stop` is
where the text ends, `consumedTo` is the end of the last token consumed,
`room` is the number of levels that may still be entered, and `log` holds the
errors noted so far, the newest first. -/
structure State where
  ahead : List Scanned
  stop : Nat
  consumedTo : Nat
  room : Nat
  log : List SyntaxError

/-- The lexical errors in front of the next token. -/
def leadingErrors : List Scanned → List LexicalError
  | .error e :: rest => e :: leadingErrors rest
  | _ => []

/-- What is ahead from the next token on. -/
def dropErrors : List Scanned → List Scanned
  | .error _ :: rest => dropErrors rest
  | ahead => ahead

namespace State

/-- Notes the lexical errors in front of the next token. -/
def settle (s : State) : State :=
  { s with
    ahead := dropErrors s.ahead
    log := ((leadingErrors s.ahead).map SyntaxError.ofLexical).reverse ++ s.log }

/-- The start of a text, with all levels still to be entered. -/
def ofText (text : String) : State :=
  settle ⟨scan text, text.utf8ByteSize, 0, nestingLimit, []⟩

/-- The next token, or nothing at the end of the text. -/
def token? (s : State) : Option Token :=
  match s.ahead with
  | .ok lexeme :: _ => some lexeme.token
  | _ => none

/-- The span of the next token; at the end of the text it is empty. -/
def span (s : State) : Span :=
  match s.ahead with
  | .ok lexeme :: _ => lexeme.span
  | _ => Span.emptyAt s.stop

/-- Consumes the next token. -/
def advance (s : State) : State :=
  match s.ahead with
  | .ok lexeme :: rest => settle { s with ahead := rest, consumedTo := lexeme.span.stop }
  | _ => s

/-- Notes an error. -/
def note (e : SyntaxError) (s : State) : State :=
  { s with log := e :: s.log }

/-- The errors noted so far, in the order in which they were noted. -/
def errors (s : State) : List SyntaxError :=
  s.log.reverse

end State

end Parse

/-- A reader of tokens. -/
abbrev Parse := EStateM SyntaxError Parse.State

namespace Parse

variable {α : Type}

/-- The next token, or nothing at the end of the text. -/
def peek : Parse (Option Token) :=
  return (← get).token?

/-- The span of the next token. -/
def currentSpan : Parse Span :=
  return (← get).span

/-- Consumes the next token. -/
def advance : Parse Unit :=
  modify State.advance

/-- Fails at the next token. -/
def fail (problem : SyntaxProblem) : Parse α := do
  throw ⟨problem, ← currentSpan⟩

/-- Consumes the next token if it is the given one, and says whether it was. -/
def eat (token : Token) : Parse Bool := do
  if (← peek) = some token then
    advance
    return true
  else
    return false

/-- The next token has to be the given punctuator. -/
def expect (sign : Punctuator) : Parse Unit := do
  if !(← eat (.punctuator sign)) then fail (.expected sign)

/-- The next token has to be a name, or a reserved word that serves as one. -/
def ident : Parse Ident := do
  let span ← currentSpan
  match (← peek).bind Token.name? with
  | some name =>
    advance
    return ⟨name, span⟩
  | none => fail .identifierExpected

/-- The span from `start` to the end of the last token consumed. -/
def spanFrom (start : Nat) : Parse Span :=
  return Span.upTo start (← get).consumedTo

/-- Goes one level deeper. -/
def descend : Parse Unit := do
  if (← get).room = 0 then fail .nestedTooDeeply
  else modify fun s => { s with room := s.room - 1 }

/-- Runs a reader one level deeper and then gives back all levels entered in it. -/
def nested (p : Parse α) : Parse α := fun s =>
  match (descend *> p) s with
  | .ok a t => .ok a { t with room := s.room }
  | .error e t => .error e { t with room := s.room }

/-- Runs a reader and yields its error instead of failing. -/
def attempt (p : Parse α) : Parse (Except SyntaxError α) := fun s =>
  match p s with
  | .ok a t => .ok (.ok a) t
  | .error e t => .ok (.error e) t

/-- Reads an optional part behind its sign. -/
def optionalAfter (sign : Punctuator) (p : Parse α) : Parse (Option α) := do
  if ← eat (.punctuator sign) then return some (← p) else return none

/-! ## The loop -/

/-- How a round of a loop ends. -/
inductive Round (α : Type) where
  | again (value : α)
  | done (value : α)

/-- Repeats a round with the value of the last one. The loop also ends after a round that
consumed nothing. -/
def loop (round : α → Parse (Round α)) (value : α) : Parse α := fun s =>
  match round value s with
  | .error e t => .error e t
  | .ok (.done next) t => .ok next t
  | .ok (.again next) t =>
    if t.ahead.length < s.ahead.length then loop round next t else .ok next t
termination_by s => s.ahead.length

/-- One or more items with a sign between them. -/
def separated (sign : Punctuator) (item : Parse α) : Parse (List α) := do
  let first ← item
  loop (fun items => do
    if ← eat (.punctuator sign) then return .again (items ++ [← item])
    else return .done items) [first]

/-- Items with commas between them, up to but not including `close`. A comma may stand at the
end. -/
def listUntil (close : Punctuator) (item : Parse α) : Parse (List α) :=
  loop (fun items => do
    if (← peek) = some (.punctuator close) then return .done items
    else
      let items := items ++ [← item]
      if ← eat (.punctuator .comma) then return .again items else return .done items) []

end Parse

end ScriptLint
