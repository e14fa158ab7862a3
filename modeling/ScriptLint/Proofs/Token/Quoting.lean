import ScriptLint.Proofs.Token.LongestMatch
/-!
# Strings and their quoted form

Every row of characters can be written between either pair of quotes: line
breaks, tabs, carriage returns, backslashes and the quote itself get their
escapes, and everything else stands as it is. The string that is read from
there is the row again, whatever follows. And a string that is read anywhere
stands in the text in a quoted form of its value.

Key definitions: `escape`, `encode`, `quoted`.
Key theorems: `quoted_encode`, `scanFrom_quoted`, `strings_round_trip`.
-/

namespace ScriptLint

/-- A character as it is written between the given quotes. -/
def escape (quote c : Char) : List Char :=
  if c = '\n' then ['\\', 'n']
  else if c = '\t' then ['\\', 't']
  else if c = '\r' then ['\\', 'r']
  else if c = '\\' ∨ c = quote then ['\\', c]
  else [c]

/-- Characters as they are written between the given quotes. -/
def encode (quote : Char) (value : List Char) : List Char :=
  value.flatMap (escape quote)

/-- A string with the given quotes around it. -/
def quoted (quote : Char) (value : String) : String :=
  String.ofList (quote :: (encode quote value.toList ++ [quote]))

section Quotes

variable {quote : Char}

/-- An escaped character is one character of a string. -/
theorem quoted_escape (hquote : quote = '"' ∨ quote = '\'') (c : Char) {body value : List Char}
    (h : Quoted quote body value) : Quoted quote (escape quote c ++ body) (c :: value) := by
  unfold escape
  split_ifs with hbreak htab hreturn hescaped
  · rw [hbreak]
    exact .escape rfl h
  · rw [htab]
    exact .escape rfl h
  · rw [hreturn]
    exact .escape rfl h
  · refine .escape ?_ h
    rcases hescaped with rfl | rfl
    · rfl
    · rcases hquote with rfl | rfl <;> rfl
  · obtain ⟨hslash, hne⟩ := not_or.mp hescaped
    exact .plain hne hbreak hslash h

/-- **What is encoded stands for what it was encoded from.** -/
theorem quoted_encode (hquote : quote = '"' ∨ quote = '\'') (value : List Char) :
    Quoted quote (encode quote value) value := by
  induction value with
  | nil => exact .nil
  | cons c value ih => exact quoted_escape hquote c ih

/-- A string is read up to its quote, whatever follows. -/
theorem scanFrom_quoted (hquote : quote = '"' ∨ quote = '\'') {body value : List Char}
    (h : Quoted quote body value) (offset : Nat) (rest : List Char) :
    scanFrom offset (quote :: (body ++ quote :: rest)) =
      .ok ⟨.string (String.ofList value), ⟨offset, byteLength (quote :: (body ++ [quote]))⟩⟩ ::
        scanFrom (offset + byteLength (quote :: (body ++ [quote]))) rest := by
  have hopener : opener quote = .quote := by rw [opener, if_pos hquote]
  have hspelled : (Token.string (String.ofList value)).SpelledBy (quote :: (body ++ [quote])) :=
    .string hquote h
  have hcomment : ¬OpensComment quote (body ++ quote :: rest) := by
    rintro ⟨rfl, -⟩
    rcases hquote with h | h <;> cases h
  have hmunch : munch quote (body ++ quote :: rest) =
      ⟨.token (.string (String.ofList value)), [], quote :: (body ++ [quote]), rest⟩ := by
    rw [munch_eq hspelled.isBlank_eq_false hcomment, hopener]
    simp only [munchString, readString_of_quoted hquote h]
  rw [scanFrom_cons, hmunch]
  rfl

end Quotes

/-- No line break stands in a quoted form. -/
theorem Quoted.newline_notMem {quote : Char} {body value : List Char}
    (h : Quoted quote body value) : '\n' ∉ body := by
  induction h with
  | nil => simp
  | plain _ hbreak _ _ ih => simpa using ⟨fun heq => hbreak heq.symm, ih⟩
  | @escape e v body value he _ ih =>
    have hne : '\n' ≠ e := by
      rintro rfl
      cases he
    simpa using ⟨hne, ih⟩

/-- **Strings are read back from their quoted form, and are read from nothing else.** In front of
any text, the quoted form of a string is read as that string. And a string that is read in any
text, also in one with errors, has stood there between two equal quotes, in a form without line
breaks that stands for its value. -/
theorem strings_round_trip :
    (∀ quote, quote = '"' ∨ quote = '\'' → ∀ value rest : String,
      (scan (quoted quote value ++ rest)).head? =
        some (.ok ⟨.string value, ⟨0, (quoted quote value).utf8ByteSize⟩⟩)) ∧
    ∀ (text : String) (w : Lexeme) (value : String), .ok w ∈ scan text → w.token = .string value →
      ∃ quote before body after, (quote = '"' ∨ quote = '\'') ∧
        text.toList = before ++ (quote :: (body ++ [quote]) ++ after) ∧
        w.span = ⟨byteLength before, byteLength (quote :: (body ++ [quote]))⟩ ∧
        '\n' ∉ body ∧ Quoted quote body value.toList := by
  refine ⟨fun quote hquote value rest => ?_, fun text w value hw htoken => ?_⟩
  · have htext : (quoted quote value ++ rest).toList =
        quote :: (encode quote value.toList ++ quote :: rest.toList) := by
      simp [quoted]
    have hsize : (quoted quote value).utf8ByteSize =
        byteLength (quote :: (encode quote value.toList ++ [quote])) := by
      rw [utf8ByteSize_eq_byteLength, quoted, String.toList_ofList]
    rw [scan, htext, scanFrom_quoted hquote (quoted_encode hquote value.toList), hsize,
      String.ofList_toList]
    rfl
  · obtain ⟨before, part, rest, htext, hspan, hlongest⟩ := longest_of_mem_scan hw
    have hspelled := hlongest.spelledBy
    rw [htoken] at hspelled
    generalize htoken' : Token.string value = token at hspelled
    cases hspelled with
    | string hquote hbody =>
      cases htoken'
      rw [String.toList_ofList]
      exact ⟨_, before, _, rest, hquote, htext, hspan, hbody.newline_notMem, hbody⟩
    | _ => cases htoken'

/-- The theorem at a row with every escape, in front of a text that is at fault, and at the string
of a text with an error before it. -/
theorem strings_round_trip_escapes :
    (scan (quoted '\'' "é\n\t\r\\'\"" ++ "'#")).head? =
        some (.ok ⟨.string "é\n\t\r\\'\"", ⟨0, 15⟩⟩) ∧
      ∃ quote before body after, (quote = '"' ∨ quote = '\'') ∧
        "# \"a\\\"'\"".toList = before ++ (quote :: (body ++ [quote]) ++ after) ∧
        (⟨2, 6⟩ : Span) = ⟨byteLength before, byteLength (quote :: (body ++ [quote]))⟩ ∧
        '\n' ∉ body ∧ Quoted quote body "a\"'".toList := by
  refine ⟨strings_round_trip.1 '\'' (.inr rfl) "é\n\t\r\\'\"" "'#", ?_⟩
  refine strings_round_trip.2 "# \"a\\\"'\"" ⟨.string "a\"'", ⟨2, 6⟩⟩ "a\"'" ?_ rfl
  decide +kernel

end ScriptLint
