import ScriptLint.Number.Binary64
import ScriptLint.Text.Blank
import ScriptLint.Text.Letters
import ScriptLint.Token.Basic
import ScriptLint.Token.Fault
/-!
# One piece of a text

`munch` reads the piece with which a text begins: a gap (blanks or a
comment), a token, or a fault. Every reader hands back what it took and what
is left, and together they are the text it was given (`text_munch`), so
nothing is lost and each piece takes at least one character
(`body_munch_ne_nil`).

Key definitions: `Piece`, `Munch`, `munch`.
Key theorems: `text_munch`, `body_munch_ne_nil`, `length_rest_munch_le`.
-/

namespace ScriptLint

/-- What a stretch of text is. -/
inductive Piece where
  | gap
  | token (token : Token)
  | fault (fault : Fault)
  deriving DecidableEq, Repr

/-- A piece of text. The piece itself is `body`; `lead` was read before it
and belongs to nothing, and `rest` is still to be read. -/
structure Munch where
  piece : Piece
  lead : List Char
  body : List Char
  rest : List Char
  deriving DecidableEq, Repr

namespace Munch

/-- All the characters, read and not yet read. -/
def text (m : Munch) : List Char :=
  m.lead ++ (m.body ++ m.rest)

end Munch

/-! ## Comments -/

/-- The text up to and including the first end mark of a comment, and what follows. -/
def splitComment? : List Char → Option (List Char × List Char)
  | [] => none
  | c :: cs =>
    if c = '*' ∧ cs.head? = some '/' then some (['*', '/'], cs.tail)
    else (splitComment? cs).map fun (inside, rest) => (c :: inside, rest)

/-- A comment from its start mark to its end mark, or to the end of the text
if it has none. -/
def munchComment (inside : List Char) : Munch :=
  match splitComment? inside with
  | some (comment, rest) => ⟨.gap, [], '/' :: '*' :: comment, rest⟩
  | none => ⟨.fault .unterminatedComment, [], '/' :: '*' :: inside, []⟩

/-! ## Strings -/

/-- The character that a backslash and the given character stand for. -/
def unescape? : Char → Option Char
  | 'n' => some '\n'
  | 't' => some '\t'
  | 'r' => some '\r'
  | '\\' => some '\\'
  | '"' => some '"'
  | '\'' => some '\''
  | _ => none

/-- How the text of a string ends. -/
inductive StringEnd where
  | quote
  | missing
  | invalidEscape (character : Char)
  deriving DecidableEq, Repr

/-- The text of a string behind its opening quote: the characters it stands
for, its own characters, the characters that end it and what follows. -/
structure StringText where
  value : List Char
  text : List Char
  ending : StringEnd
  close : List Char
  rest : List Char
  deriving DecidableEq, Repr

/-- The text of a string with one more character in front, written as `raw`. -/
def StringText.extend (character : Char) (raw : List Char) (s : StringText) : StringText :=
  { s with value := character :: s.value, text := raw ++ s.text }

/-- A string ends at its quote. It has no end if a line break or the end of
the text comes first, and it breaks off at an unknown escape. -/
def readString (quote : Char) : List Char → StringText
  | [] => ⟨[], [], .missing, [], []⟩
  | c :: cs =>
    if c = quote then ⟨[], [], .quote, [c], cs⟩
    else if c = '\n' then ⟨[], [], .missing, [c], cs⟩
    else if c = '\\' then
      match cs with
      | [] => ⟨[], [], .missing, [c], []⟩
      | e :: cs =>
        match unescape? e with
        | some v => (readString quote cs).extend v [c, e]
        | none => ⟨[], [], .invalidEscape e, [c, e], cs⟩
    else (readString quote cs).extend c [c]

/-- A string from its opening quote on. Only the escape itself is at fault when it is unknown. -/
def munchString (quote : Char) (cs : List Char) : Munch :=
  let s := readString quote cs
  match s.ending with
  | .quote => ⟨.token (.string (String.ofList s.value)), [], quote :: (s.text ++ s.close), s.rest⟩
  | .missing => ⟨.fault .unterminatedString, [], quote :: (s.text ++ s.close), s.rest⟩
  | .invalidEscape e => ⟨.fault (.invalidEscape e), quote :: s.text, s.close, s.rest⟩

/-! ## Numbers -/

/-- Digits, and the underscores that may separate them. -/
def isDigitOrSeparator (c : Char) : Bool :=
  c.isDigit || c == '_'

/-- The fraction behind a row of digits, if a point follows, and what is left. -/
def splitFraction : List Char → List Char × List Char
  | '.' :: cs => ('.' :: cs.takeWhile isDigitOrSeparator, cs.dropWhile isDigitOrSeparator)
  | cs => ([], cs)

/-- A number: digits with at most one point. Separators do not count. -/
def munchNumber (digit : Char) (cs : List Char) : Munch :=
  let (fraction, rest) := splitFraction (cs.dropWhile isDigitOrSeparator)
  let text := digit :: (cs.takeWhile isDigitOrSeparator ++ fraction)
  match Binary64.parse? (text.filter (· ≠ '_')) with
  | some value => ⟨.token (.number value), [], text, rest⟩
  | none => ⟨.fault (.invalidNumber (String.ofList text)), [], text, rest⟩

/-! ## Words and punctuators -/

/-- The characters with which a name may begin. -/
def isNameStart (c : Char) : Bool :=
  isLetter c || c == '_' || c == '$'

/-- The characters of which a name is made. -/
def isNamePart (c : Char) : Bool :=
  isLetterOrNumeral c || c == '_' || c == '$'

/-- A word is a reserved word or a name. -/
def Token.ofWord (text : String) : Token :=
  match Keyword.ofSpelling? text with
  | some word => .keyword word
  | none => .identifier text

/-- What follows the given character, if the text begins with it. -/
def eat? (c : Char) : List Char → Option (List Char)
  | d :: ds => if d = c then some ds else none
  | [] => none

/-- A sign that is written like another one with one more character: if that comes next it is
taken, and otherwise the text is left as it is. -/
def Punctuator.orLonger (sign : Punctuator) (c : Char) (longer : Punctuator) (cs : List Char) :
    Punctuator × List Char :=
  match eat? c cs with
  | some rest => (longer, rest)
  | none => (sign, cs)

/-- The punctuator that the given character begins, and what follows it. A sign is taken as far as
it goes on. -/
def Punctuator.munch? (c : Char) (cs : List Char) : Option (Punctuator × List Char) :=
  match c with
  | '\x7b' => some (.leftBrace, cs)
  | '\x7d' => some (.rightBrace, cs)
  | '(' => some (.leftParen, cs)
  | ')' => some (.rightParen, cs)
  | '[' => some (.leftBracket, cs)
  | ']' => some (.rightBracket, cs)
  | ',' => some (.comma, cs)
  | ':' => some (.colon, cs)
  | ';' => some (.semicolon, cs)
  | '.' => some (.dot, cs)
  | '*' => some (.star, cs)
  | '%' => some (.percent, cs)
  | '^' => some (.caret, cs)
  | '/' => some (.slash, cs)
  | '+' => some (orLonger .plus '=' .plusEqual cs)
  | '-' => some (orLonger .minus '=' .minusEqual cs)
  | '=' =>
    match eat? '=' cs with
    | some rest => some (orLonger .equalEqual '=' .equalEqualEqual rest)
    | none => some (.equal, cs)
  | '!' =>
    match eat? '=' cs with
    | some rest => some (orLonger .notEqual '=' .notEqualEqual rest)
    | none => some (.bang, cs)
  | '>' =>
    match eat? '=' cs with
    | some rest => some (.greaterEqual, rest)
    | none => some (orLonger .greater '>' .rightShift cs)
  | '<' =>
    match eat? '=' cs with
    | some rest => some (.lessEqual, rest)
    | none => some (orLonger .less '<' .leftShift cs)
  | '|' => some (orLonger .bar '|' .barBar cs)
  | '&' => some (orLonger .ampersand '&' .ampersandAmpersand cs)
  | '?' => some (orLonger .question '?' .questionQuestion cs)
  | _ => none

/-! ## The piece at hand -/

/-- The piece with which the text `c :: cs` begins. -/
def munch (c : Char) (cs : List Char) : Munch :=
  if isBlank c then ⟨.gap, [], c :: cs.takeWhile isBlank, cs.dropWhile isBlank⟩
  else if c = '/' ∧ cs.head? = some '/' then
    ⟨.gap, [], c :: cs.takeWhile (· ≠ '\n'), cs.dropWhile (· ≠ '\n')⟩
  else if c = '/' ∧ cs.head? = some '*' then munchComment cs.tail
  else if c = '"' ∨ c = '\'' then munchString c cs
  else if c.isDigit then munchNumber c cs
  else if isNameStart c then
    let word := c :: cs.takeWhile isNamePart
    ⟨.token (Token.ofWord (String.ofList word)), [], word, cs.dropWhile isNamePart⟩
  else
    match Punctuator.munch? c cs with
    | some (sign, rest) => ⟨.token (.punctuator sign), [], sign.spelling.toList, rest⟩
    | none => ⟨.fault (.unexpectedCharacter c), [], [c], cs⟩

/-! ## Nothing is lost -/

theorem splitComment?_eq_some : ∀ {cs inside rest : List Char},
    splitComment? cs = some (inside, rest) → inside ++ rest = cs
  | [], _, _, h => by simp [splitComment?] at h
  | c :: cs, inside, rest, h => by
    unfold splitComment? at h
    split at h
    next hc =>
      obtain ⟨rfl, hd⟩ := hc
      cases cs with
      | nil => simp at hd
      | cons d ds =>
        simp only [List.head?_cons, Option.some.injEq] at hd
        subst hd
        simp only [List.tail_cons, Option.some.injEq, Prod.mk.injEq] at h
        simp [← h.1, ← h.2]
    next =>
      obtain ⟨⟨i, r⟩, hi, heq⟩ := Option.map_eq_some_iff.1 h
      simp only [Prod.mk.injEq] at heq
      have := splitComment?_eq_some hi
      simp [← heq.1, ← heq.2, this]

theorem text_munchComment (inside : List Char) :
    (munchComment inside).text = '/' :: '*' :: inside := by
  unfold munchComment
  split
  next comment rest h => simp [Munch.text, splitComment?_eq_some h]
  next => simp [Munch.text]

theorem text_readString (quote : Char) (cs : List Char) :
    (readString quote cs).text ++ ((readString quote cs).close ++ (readString quote cs).rest)
      = cs := by
  fun_induction readString quote cs <;> simp_all [StringText.extend]

theorem close_readString_ne_nil (quote : Char) (cs : List Char) (e : Char)
    (h : (readString quote cs).ending = .invalidEscape e) : (readString quote cs).close ≠ [] := by
  fun_induction readString quote cs <;> simp_all [StringText.extend]

theorem text_munchString (quote : Char) (cs : List Char) :
    (munchString quote cs).text = quote :: cs := by
  have h := text_readString quote cs
  unfold munchString
  simp only
  split <;> simp [Munch.text, h]

theorem splitFraction_append (cs : List Char) :
    (splitFraction cs).1 ++ (splitFraction cs).2 = cs := by
  unfold splitFraction
  split <;> simp

theorem text_munchNumber (digit : Char) (cs : List Char) :
    (munchNumber digit cs).text = digit :: cs := by
  have h := splitFraction_append (cs.dropWhile isDigitOrSeparator)
  unfold munchNumber
  simp only
  split <;> simp [Munch.text, h]

theorem eat?_eq_some {c : Char} {cs rest : List Char} (h : eat? c cs = some rest) :
    c :: rest = cs := by
  cases cs with
  | nil => simp [eat?] at h
  | cons d ds =>
    simp only [eat?, Option.ite_none_right_eq_some, Option.some.injEq] at h
    rw [h.1, h.2]

/-- What is taken and what is left are the short spelling and what follows it. -/
theorem orLonger_spelling {sign longer : Punctuator} {c : Char} {cs : List Char}
    (h : longer.spelling.toList = sign.spelling.toList ++ [c]) :
    (sign.orLonger c longer cs).1.spelling.toList ++ (sign.orLonger c longer cs).2 =
      sign.spelling.toList ++ cs := by
  unfold Punctuator.orLonger
  cases heat : eat? c cs with
  | none => rfl
  | some rest => simp [h, ← eat?_eq_some heat]

theorem munch?_eq_some {c : Char} {cs rest : List Char} {sign : Punctuator}
    (h : Punctuator.munch? c cs = some (sign, rest)) : sign.spelling.toList ++ rest = c :: cs := by
  have hlonger : ∀ {short longer : Punctuator} {d : Char} {ds : List Char},
      some (short.orLonger d longer ds) = some (sign, rest) →
      longer.spelling.toList = short.spelling.toList ++ [d] →
      sign.spelling.toList ++ rest = short.spelling.toList ++ ds := by
    intro short longer d ds heq hspelling
    rw [← orLonger_spelling hspelling, Option.some.inj heq]
  unfold Punctuator.munch? at h
  split at h
  · cases h; rfl
  · cases h; rfl
  · cases h; rfl
  · cases h; rfl
  · cases h; rfl
  · cases h; rfl
  · cases h; rfl
  · cases h; rfl
  · cases h; rfl
  · cases h; rfl
  · cases h; rfl
  · cases h; rfl
  · cases h; rfl
  · cases h; rfl
  · exact hlonger h rfl
  · exact hlonger h rfl
  · split at h
    next heat => exact (hlonger h rfl).trans (congrArg _ (eat?_eq_some heat))
    next => cases h; rfl
  · split at h
    next heat => exact (hlonger h rfl).trans (congrArg _ (eat?_eq_some heat))
    next => cases h; rfl
  · split at h
    next heat => cases h; exact congrArg _ (eat?_eq_some heat)
    next => exact hlonger h rfl
  · split at h
    next heat => cases h; exact congrArg _ (eat?_eq_some heat)
    next => exact hlonger h rfl
  · exact hlonger h rfl
  · exact hlonger h rfl
  · exact hlonger h rfl
  · cases h

theorem spelling_ne_nil (sign : Punctuator) : sign.spelling.toList ≠ [] := by
  cases sign <;> decide

/-- **A piece and what follows it are the text.** -/
theorem text_munch (c : Char) (cs : List Char) : (munch c cs).text = c :: cs := by
  unfold munch
  split
  · simp [Munch.text]
  split
  · simp [Munch.text]
  split
  next h =>
    obtain ⟨rfl, h⟩ := h
    cases cs with
    | nil => simp at h
    | cons d ds =>
      simp only [List.head?_cons, Option.some.injEq] at h
      simp [text_munchComment, h]
  split
  · exact text_munchString c cs
  split
  · exact text_munchNumber c cs
  split
  · simp [Munch.text]
  split
  next h => simpa [Munch.text] using munch?_eq_some h
  next => simp [Munch.text]

/-- Every piece has at least one character of its own. -/
theorem body_munch_ne_nil (c : Char) (cs : List Char) : (munch c cs).body ≠ [] := by
  unfold munch
  split
  · simp
  split
  · simp
  split
  · unfold munchComment
    split <;> simp
  split
  · have h := close_readString_ne_nil c cs
    unfold munchString
    simp only
    split
    next => simp
    next => simp
    next e he => exact h e he
  split
  · unfold munchNumber
    simp only
    split <;> simp
  split
  · simp
  split
  · exact spelling_ne_nil _
  · simp

/-- A piece takes at least one character of the text. -/
theorem length_rest_munch_le (c : Char) (cs : List Char) :
    (munch c cs).rest.length ≤ cs.length := by
  have h := congrArg List.length (text_munch c cs)
  have hb := List.length_pos_iff.2 (body_munch_ne_nil c cs)
  simp only [Munch.text, List.length_append, List.length_cons] at h
  omega

end ScriptLint
