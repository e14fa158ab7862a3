import Mathlib.Tactic.IntervalCases
import ScriptLint.Proofs.Number.Zero
import ScriptLint.Proofs.Token.Places
import ScriptLint.Proofs.Token.Signs
/-!
# The table of lexemes

How tokens are written, as a table and without a reader: the signs and the
reserved words as they are listed, names, numbers with at most one point,
and strings between two equal quotes. A row of characters is the spelling of
one token at most, and the first character of a spelling tells which part of
the table it belongs to. Behind the first character nothing but a string has
a blank, a semicolon or any other character that `closes` what stands before
it.

Key definitions: `Quoted`, `Token.SpelledBy`, `closes`.
Key theorems: `SpelledBy.unique`, `SpelledBy.quote_of_closes`, `closes_of_isBlank`.
-/

namespace ScriptLint

/-! ### The table -/

/-- The text of a string between its quotes, and the characters that it stands for. Its quote
stands in it only behind a backslash, a line break not at all, and a backslash only in front of
what it escapes. -/
inductive Quoted (quote : Char) : List Char → List Char → Prop
  | nil : Quoted quote [] []
  | plain {c : Char} {body value : List Char} :
      c ≠ quote → c ≠ '\n' → c ≠ '\\' → Quoted quote body value →
      Quoted quote (c :: body) (c :: value)
  | escape {e v : Char} {body value : List Char} :
      unescape? e = some v → Quoted quote body value →
      Quoted quote ('\\' :: e :: body) (v :: value)

/-- Nothing, or a point with digits behind it. -/
inductive Fraction : List Char → Prop
  | none : Fraction []
  | point {digits : List Char} :
      (∀ d ∈ digits, isDigitOrSeparator d = true) → Fraction ('.' :: digits)

/-- The ways to write a token. -/
inductive Token.SpelledBy : Token → List Char → Prop
  | sign (sign : Punctuator) : SpelledBy (.punctuator sign) sign.spelling.toList
  | reserved (word : Keyword) : SpelledBy (.keyword word) word.spelling.toList
  | name {c : Char} {cs : List Char} :
      isNameStart c = true → (∀ d ∈ cs, isNamePart d = true) →
      (∀ word : Keyword, word.spelling ≠ String.ofList (c :: cs)) →
      SpelledBy (.identifier (String.ofList (c :: cs))) (c :: cs)
  | number {c : Char} {digits fraction : List Char} {value : Binary64} :
      c.isDigit = true → (∀ d ∈ digits, isDigitOrSeparator d = true) → Fraction fraction →
      Binary64.parse? ((c :: (digits ++ fraction)).filter (· ≠ '_')) = some value →
      SpelledBy (.number value) (c :: (digits ++ fraction))
  | string {quote : Char} {body value : List Char} :
      quote = '"' ∨ quote = '\'' → Quoted quote body value →
      SpelledBy (.string (String.ofList value)) (quote :: (body ++ [quote]))

/-- A text between quotes stands for one row of characters. -/
theorem Quoted.unique {quote : Char} {body value value' : List Char} (h : Quoted quote body value)
    (h' : Quoted quote body value') : value = value' := by
  induction h generalizing value' with
  | nil =>
    cases h'
    rfl
  | plain _ _ hslash _ ih =>
    cases h' with
    | plain _ _ _ hbody => rw [ih hbody]
    | escape _ _ => exact absurd rfl hslash
  | escape he _ ih =>
    cases h' with
    | plain _ _ hslash _ => exact absurd rfl hslash
    | escape he' hbody => rw [Option.some.inj (he.symm.trans he'), ih hbody]

/-! ### Characters -/

/-- The characters that end every token in front of them but an open string. -/
def closes (x : Char) : Bool :=
  !(isNamePart x || x == '.' || x == '/' || x == '*' ||
    Punctuator.all.any fun sign => sign.spelling.toList.tail.contains x)

/-- The code points of the blanks. -/
def blankCodes : List Nat :=
  [0x09, 0x0A, 0x0B, 0x0C, 0x0D, 0x20, 0x85, 0xA0, 0x1680, 0x2000, 0x2001, 0x2002, 0x2003, 0x2004,
    0x2005, 0x2006, 0x2007, 0x2008, 0x2009, 0x200A, 0x2028, 0x2029, 0x202F, 0x205F, 0x3000]

theorem toNat_mem_blankCodes {c : Char} (h : isBlank c = true) : c.toNat ∈ blankCodes := by
  simp only [blankCodes, List.mem_cons, List.not_mem_nil, or_false]
  dsimp only [isBlank] at h
  split at h
  · simp only [Bool.or_eq_true, Bool.and_eq_true, beq_iff_eq, decide_eq_true_eq] at h
    omega
  · simp only [Bool.or_eq_true, Bool.and_eq_true, beq_iff_eq, decide_eq_true_eq] at h
    omega

/-- A blank ends every token in front of it. -/
theorem closes_of_isBlank {c : Char} (h : isBlank c = true) : closes c = true := by
  have hall : ∀ code ∈ blankCodes, closes (Char.ofNat code) = true := by decide +kernel
  have hclose := hall c.toNat (toNat_mem_blankCodes h)
  rwa [Char.ofNat_toNat] at hclose

section Closing

variable {x : Char}

theorem isNamePart_of_closes (h : closes x = true) : isNamePart x = false := by
  simp only [closes, Bool.not_eq_true', Bool.or_eq_false_iff] at h
  exact h.1.1.1.1

theorem ne_of_closes (h : closes x = true) : x ≠ '.' ∧ x ≠ '/' ∧ x ≠ '*' := by
  simp only [closes, Bool.not_eq_true', Bool.or_eq_false_iff, beq_eq_false_iff_ne] at h
  exact ⟨h.1.1.1.2, h.1.1.2, h.1.2⟩

theorem notMem_tail_of_closes (h : closes x = true) (sign : Punctuator) :
    x ∉ sign.spelling.toList.tail := by
  simp only [closes, Bool.not_eq_true', Bool.or_eq_false_iff, List.any_eq_false] at h
  simpa using h.2 sign sign.mem_all

end Closing

theorem isNamePart_of_isNameStart {c : Char} (h : isNameStart c = true) : isNamePart c = true := by
  simp only [isNameStart, isNamePart, isLetterOrNumeral, Bool.or_eq_true] at h ⊢
  exact h.imp_left (Or.imp_left Or.inl)

theorem toNat_le_of_isDigit {c : Char} (h : c.isDigit = true) : 48 ≤ c.toNat ∧ c.toNat ≤ 57 := by
  simp only [Char.isDigit, Bool.and_eq_true, decide_eq_true_eq, ge_iff_le,
    UInt32.le_iff_toNat_le] at h
  exact h

theorem isNumeral_of_isDigit {c : Char} (h : c.isDigit = true) : isNumeral c = true := by
  have hcode := toNat_le_of_isDigit h
  rw [isNumeral, if_pos (by omega)]
  exact h

theorem isNamePart_of_isDigitOrSeparator {c : Char} (h : isDigitOrSeparator c = true) :
    isNamePart c = true := by
  simp only [isDigitOrSeparator, isNamePart, isLetterOrNumeral, Bool.or_eq_true] at h ⊢
  rcases h with h | h
  · exact .inl (.inl (.inr (isNumeral_of_isDigit h)))
  · exact .inl (.inr h)

theorem isDigit_of_isNameStart {c : Char} (h : isNameStart c = true) : c.isDigit = false := by
  refine Bool.eq_false_iff.mpr fun hdigit => ?_
  have hcode := toNat_le_of_isDigit hdigit
  have hletters : ∀ code, 48 ≤ code ∧ code ≤ 57 → isNameStart (Char.ofNat code) = false := by
    intro code ⟨hle, hge⟩
    interval_cases code <;> decide
  have hstart := hletters c.toNat hcode
  rw [Char.ofNat_toNat, h] at hstart
  cases hstart

/-! ### First characters -/

/-- The parts of the table, told by the first character. -/
inductive Opener where
  | quote
  | digit
  | letter
  | sign
  deriving DecidableEq

/-- The part of the table to which a first character belongs. -/
def opener (c : Char) : Opener :=
  if c = '"' ∨ c = '\'' then .quote
  else if c.isDigit then .digit
  else if isNameStart c then .letter
  else .sign

/-- The token is written as `c :: cs` in the given part of the table. -/
def Token.ListedUnder (t : Token) (c : Char) (cs : List Char) : Opener → Prop
  | .quote => ∃ body value, cs = body ++ [c] ∧ Quoted c body value ∧ t = .string (String.ofList value)
  | .digit => ∃ digits fraction value, cs = digits ++ fraction ∧
      (∀ d ∈ digits, isDigitOrSeparator d = true) ∧ Fraction fraction ∧
      Binary64.parse? ((c :: cs).filter (· ≠ '_')) = some value ∧ t = .number value
  | .letter => (∀ d ∈ cs, isNamePart d = true) ∧ t = Token.ofWord (String.ofList (c :: cs))
  | .sign => ∃ sign, c :: cs = sign.spelling.toList ∧ t = .punctuator sign

theorem opener_of_isDigit {c : Char} (h : c.isDigit = true) : opener c = .digit := by
  have hquote : ¬(c = '"' ∨ c = '\'') := by
    rintro (rfl | rfl) <;> exact absurd h (by decide)
  rw [opener, if_neg hquote, if_pos h]

theorem opener_of_isNameStart {c : Char} (h : isNameStart c = true) : opener c = .letter := by
  have hquote : ¬(c = '"' ∨ c = '\'') := by
    rintro (rfl | rfl) <;> exact absurd h (by decide)
  rw [opener, if_neg hquote, if_neg, if_pos h]
  rw [isDigit_of_isNameStart h]
  exact Bool.false_ne_true

section Opener

variable {c : Char}

theorem quote_of_opener (h : opener c = .quote) : c = '"' ∨ c = '\'' := by
  unfold opener at h
  split_ifs at h with hquote
  exact hquote

theorem isDigit_of_opener (h : opener c = .digit) : c.isDigit = true := by
  unfold opener at h
  split_ifs at h with _ hdigit
  exact hdigit

theorem isNameStart_of_opener (h : opener c = .letter) : isNameStart c = true := by
  unfold opener at h
  split_ifs at h with _ _ hletter
  exact hletter

end Opener

theorem Punctuator.opener_spelling (sign : Punctuator) :
    sign.spelling.toList.head?.all (fun c => opener c == .sign && !isBlank c) = true := by
  cases sign <;> decide

theorem Punctuator.longest?_spelling (sign : Punctuator) :
    longest? sign.spelling.toList = some (sign, []) := by
  cases sign <;> decide

theorem Keyword.spelling_isWord (word : Keyword) :
    word.spelling.toList.head?.all isNameStart = true ∧
      word.spelling.toList.tail.all isNamePart = true := by
  cases word <;> decide

theorem Keyword.spelling_ne_nil (word : Keyword) : word.spelling.toList ≠ [] := by
  cases word <;> decide

theorem Keyword.ofSpelling?_spelling (word : Keyword) : ofSpelling? word.spelling = some word := by
  cases word <;> decide

theorem Token.ofWord_spelling (word : Keyword) : Token.ofWord word.spelling = .keyword word := by
  rw [Token.ofWord, Keyword.ofSpelling?_spelling]

theorem Token.ofWord_eq_identifier {text : String} (h : ∀ word : Keyword, word.spelling ≠ text) :
    Token.ofWord text = .identifier text := by
  rcases hfind : Keyword.ofSpelling? text with _ | word
  · rw [Token.ofWord, hfind]
  · exact absurd (Keyword.ofSpelling?_eq_some hfind) (h word)

namespace Token.SpelledBy

variable {t t' : Token} {c x : Char} {cs part : List Char}

theorem ne_nil (h : t.SpelledBy part) : part ≠ [] := by
  cases h with
  | sign sign => exact spelling_ne_nil sign
  | reserved word => exact word.spelling_ne_nil
  | name => simp
  | number => simp
  | string => simp

/-- A spelling belongs to the part of the table that its first character tells. -/
theorem listedUnder (h : t.SpelledBy (c :: cs)) : t.ListedUnder c cs (opener c) := by
  generalize hpart : c :: cs = part at h
  cases h with
  | sign sign =>
    have hopener := sign.opener_spelling
    rw [← hpart] at hopener
    simp only [List.head?_cons, Option.all_some, Bool.and_eq_true, beq_iff_eq] at hopener
    rw [hopener.1]
    exact ⟨sign, hpart, rfl⟩
  | reserved word =>
    have hword := word.spelling_isWord
    rw [← hpart] at hword
    rw [opener_of_isNameStart (by simpa using hword.1)]
    refine ⟨by simpa using hword.2, ?_⟩
    rw [hpart, String.ofList_toList, Token.ofWord_spelling]
  | name hc hcs hne =>
    cases hpart
    rw [opener_of_isNameStart hc]
    exact ⟨hcs, (Token.ofWord_eq_identifier hne).symm⟩
  | number hc hdigits hfraction hvalue =>
    cases hpart
    rw [opener_of_isDigit hc]
    exact ⟨_, _, _, rfl, hdigits, hfraction, hvalue, rfl⟩
  | string hquote hbody =>
    cases hpart
    rw [opener, if_pos hquote]
    exact ⟨_, _, rfl, hbody, rfl⟩

theorem of_listedUnder (h : t.ListedUnder c cs (opener c)) : t.SpelledBy (c :: cs) := by
  cases ho : opener c with
  | quote =>
    rw [ho] at h
    obtain ⟨body, value, rfl, hbody, rfl⟩ := h
    exact .string (quote_of_opener ho) hbody
  | digit =>
    rw [ho] at h
    obtain ⟨digits, fraction, value, rfl, hdigits, hfraction, hvalue, rfl⟩ := h
    exact .number (isDigit_of_opener ho) hdigits hfraction hvalue
  | letter =>
    rw [ho] at h
    obtain ⟨hcs, rfl⟩ := h
    rcases hfind : Keyword.ofSpelling? (String.ofList (c :: cs)) with _ | word
    · rw [Token.ofWord, hfind]
      refine .name (isNameStart_of_opener ho) hcs fun word heq => ?_
      rw [← heq, word.ofSpelling?_spelling] at hfind
      cases hfind
    · have hspelling := Keyword.ofSpelling?_eq_some hfind
      rw [← hspelling, Token.ofWord_spelling]
      have hpart : c :: cs = word.spelling.toList := by rw [hspelling, String.toList_ofList]
      rw [hpart]
      exact .reserved word
  | sign =>
    rw [ho] at h
    obtain ⟨sign, hpart, rfl⟩ := h
    rw [hpart]
    exact .sign sign

/-- No token begins with a blank. -/
theorem isBlank_eq_false (h : t.SpelledBy (c :: cs)) : isBlank c = false := by
  refine Bool.eq_false_iff.mpr fun hblank => ?_
  have hpart := isNamePart_of_closes (closes_of_isBlank hblank)
  have hlisted := h.listedUnder
  cases ho : opener c with
  | quote => rcases quote_of_opener ho with rfl | rfl <;> exact absurd hblank (by decide)
  | digit =>
    have hdigit : isDigitOrSeparator c = true := by simp [isDigitOrSeparator, isDigit_of_opener ho]
    rw [isNamePart_of_isDigitOrSeparator hdigit] at hpart
    cases hpart
  | letter =>
    rw [isNamePart_of_isNameStart (isNameStart_of_opener ho)] at hpart
    cases hpart
  | sign =>
    rw [ho] at hlisted
    obtain ⟨sign, hsign, -⟩ := hlisted
    have hopener := sign.opener_spelling
    rw [← hsign] at hopener
    simp [hblank] at hopener

/-- **A row of characters is the spelling of one token at most.** -/
theorem unique (h : t.SpelledBy part) (h' : t'.SpelledBy part) : t = t' := by
  obtain ⟨c, cs, rfl⟩ := List.exists_cons_of_ne_nil h.ne_nil
  have hlisted := h.listedUnder
  have hlisted' := h'.listedUnder
  cases ho : opener c with
  | quote =>
    rw [ho] at hlisted hlisted'
    obtain ⟨body, value, rfl, hbody, rfl⟩ := hlisted
    obtain ⟨body', value', heq, hbody', rfl⟩ := hlisted'
    rw [List.append_cancel_right heq] at hbody
    rw [hbody.unique hbody']
  | digit =>
    rw [ho] at hlisted hlisted'
    obtain ⟨_, _, value, -, -, -, hvalue, rfl⟩ := hlisted
    obtain ⟨_, _, value', -, -, -, hvalue', rfl⟩ := hlisted'
    rw [Option.some.inj (hvalue.symm.trans hvalue')]
  | letter =>
    rw [ho] at hlisted hlisted'
    rw [hlisted.2, hlisted'.2]
  | sign =>
    rw [ho] at hlisted hlisted'
    obtain ⟨sign, hsign, rfl⟩ := hlisted
    obtain ⟨sign', hsign', rfl⟩ := hlisted'
    -- the longest sign in a spelling is the sign itself
    have hlongest := sign.longest?_spelling
    rw [← hsign, hsign', sign'.longest?_spelling] at hlongest
    rw [(Prod.mk.inj (Option.some.inj hlongest)).1]

/-- Behind the first character only a string has a character that closes tokens. -/
theorem quote_of_closes (h : t.SpelledBy (c :: cs)) (hx : closes x = true) (hmem : x ∈ cs) :
    opener c = .quote := by
  have hpart : isNamePart x = false := isNamePart_of_closes hx
  have hdigit : isDigitOrSeparator x ≠ true := fun hdigit => by
    rw [isNamePart_of_isDigitOrSeparator hdigit] at hpart
    cases hpart
  have hlisted := h.listedUnder
  cases ho : opener c with
  | quote => rfl
  | digit =>
    rw [ho] at hlisted
    obtain ⟨digits, fraction, _, rfl, hdigits, hfraction, -⟩ := hlisted
    rcases List.mem_append.mp hmem with hmem | hmem
    · exact absurd (hdigits x hmem) hdigit
    · cases hfraction with
      | none => cases hmem
      | point hplaces =>
        rcases List.mem_cons.mp hmem with rfl | hmem
        · exact absurd rfl (ne_of_closes hx).1
        · exact absurd (hplaces x hmem) hdigit
  | letter =>
    rw [ho] at hlisted
    rw [hlisted.1 x hmem] at hpart
    cases hpart
  | sign =>
    rw [ho] at hlisted
    obtain ⟨sign, hsign, -⟩ := hlisted
    have htail := notMem_tail_of_closes hx sign
    rw [← hsign] at htail
    exact absurd hmem htail

end Token.SpelledBy

end ScriptLint
