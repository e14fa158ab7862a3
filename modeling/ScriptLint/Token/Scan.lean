import ScriptLint.Text.Bytes
import ScriptLint.Token.Munch
/-!
# The tokens of a text

A text is read piece by piece to its end. Gaps are passed over; the tokens
and the lexical errors are listed in order, each with its span.

Key definitions: `scan`, `tokenize`.
-/

namespace ScriptLint

/-- A token or a lexical error, as it is met in a text. -/
abbrev Scanned := Except LexicalError Lexeme

/-- The tokens and errors of a text that starts at `offset`. -/
def scanFrom (offset : Nat) : List Char → List Scanned
  | [] => []
  | c :: cs =>
    let m := munch c cs
    let span : Span := ⟨offset + byteLength m.lead, byteLength m.body⟩
    match m.piece with
    | .gap => scanFrom span.stop m.rest
    | .token token => .ok ⟨token, span⟩ :: scanFrom span.stop m.rest
    | .fault fault => .error ⟨fault, span⟩ :: scanFrom span.stop m.rest
termination_by cs => cs.length
decreasing_by all_goals exact Nat.lt_succ_of_le (length_rest_munch_le c cs)

/-- The tokens and lexical errors of a text, in order. -/
def scan (text : String) : List Scanned :=
  scanFrom 0 text.toList

/-- The tokens of a text, or the first lexical error in it. -/
def tokenize (text : String) : Except LexicalError (List Lexeme) :=
  (scan text).mapM id

end ScriptLint
