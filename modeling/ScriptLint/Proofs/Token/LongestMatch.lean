import Mathlib.Data.List.TakeWhile
import ScriptLint.Proofs.Token.Table
/-!
# The longest match

What is read as a token is the longest beginning of the text that the table
of lexemes lists, and what begins with a lexeme of the table is read as a
token, unless it is a comment. So the reader and the table determine each
other: a text is cut where the longest lexeme ends.

Key definitions: `OpensComment`, `LongestLexeme`.
Key theorems: `exists_token_munch`, `longest_munch`, `munch_of_longest`, `parse?_numeral`.
-/

namespace ScriptLint

/-! ### Rows of equal characters -/

/-- A row of characters of a class lies within the longest such row. -/
theorem prefix_takeWhile {p : Char → Bool} {ds cs : List Char} (h : ds <+: cs)
    (hp : ∀ d ∈ ds, p d = true) : ds <+: cs.takeWhile p := by
  obtain ⟨rest, rfl⟩ := h
  rw [List.takeWhile_append_of_pos hp]
  exact List.prefix_append ds _

/-- A row of characters of a class ends where a character stands that is not in the class. -/
theorem takeWhile_row {p : Char → Bool} {ds : List Char} {x : Char} (hp : ∀ d ∈ ds, p d = true)
    (hx : p x = false) (rest : List Char) : (ds ++ x :: rest).takeWhile p = ds := by
  rw [List.takeWhile_append_of_pos hp, List.takeWhile_cons_of_neg (by simp [hx]), List.append_nil]

theorem dropWhile_row {p : Char → Bool} {ds : List Char} {x : Char} (hp : ∀ d ∈ ds, p d = true)
    (hx : p x = false) (rest : List Char) : (ds ++ x :: rest).dropWhile p = x :: rest := by
  rw [List.dropWhile_append_of_pos hp, List.dropWhile_cons_of_neg (by simp [hx])]

/-! ### Numerals -/

theorem parseUnsigned?_of_eq {cs fraction : List Char} (hwhole : cs.takeWhile Char.isDigit ≠ [])
    (hrest : cs.dropWhile Char.isDigit = [] ∨ cs.dropWhile Char.isDigit = '.' :: fraction)
    (hfraction : ∀ d ∈ fraction, d.isDigit = true) :
    ∃ value, Binary64.parseUnsigned? cs = some value := by
  have hdrop : fraction.dropWhile Char.isDigit = [] := List.dropWhile_eq_nil_iff.mpr hfraction
  unfold Binary64.parseUnsigned?
  dsimp only
  split_ifs with hinfinite hnan hempty
  · exact ⟨_, rfl⟩
  · exact ⟨_, rfl⟩
  · exact absurd hempty.1 hwhole
  · rcases hrest with hrest | hrest
    · rw [hrest]
      exact ⟨_, rfl⟩
    · rw [hrest]
      simp only [hdrop]
      exact ⟨_, rfl⟩

/-- **Every number of the table can be read.** -/
theorem parse?_numeral {c : Char} {digits fraction : List Char} (hc : c.isDigit = true)
    (hdigits : ∀ d ∈ digits, isDigitOrSeparator d = true) (hfraction : Fraction fraction) :
    ∃ value, Binary64.parse? ((c :: (digits ++ fraction)).filter (· ≠ '_')) = some value := by
  have hrow : ∀ ds : List Char, (∀ d ∈ ds, isDigitOrSeparator d = true) →
      ∀ d ∈ ds.filter (· ≠ '_'), d.isDigit = true := by
    intro ds hds d hd
    rw [List.mem_filter] at hd
    simpa [isDigitOrSeparator, of_decide_eq_true hd.2] using hds d hd.1
  have hne : c ≠ '_' := by
    rintro rfl
    exact absurd hc (by decide)
  rw [List.filter_cons_of_pos (by simpa using hne), List.filter_append]
  have hunsigned : ∃ value, Binary64.parseUnsigned?
      (c :: (digits.filter (· ≠ '_') ++ fraction.filter (· ≠ '_'))) = some value := by
    have hrow' : ∀ d ∈ c :: digits.filter (· ≠ '_'), d.isDigit = true := by
      intro d hd
      rcases List.mem_cons.mp hd with rfl | hd
      · exact hc
      · exact hrow digits hdigits d hd
    rw [← List.cons_append]
    cases hfraction with
    | none =>
      have hall : (c :: digits.filter (· ≠ '_') ++ [].filter (· ≠ '_')).dropWhile Char.isDigit = [] := by
        rw [List.filter_nil, List.append_nil]
        exact List.dropWhile_eq_nil_iff.mpr hrow'
      exact parseUnsigned?_of_eq (by simp [hc]) (.inl hall) (List.forall_mem_nil _)
    | @point places hplaces =>
      have hpoint : ('.' :: places).filter (· ≠ '_') = '.' :: places.filter (· ≠ '_') := rfl
      rw [hpoint]
      refine parseUnsigned?_of_eq ?_ (.inr (dropWhile_row hrow' (by decide) _)) (hrow places hplaces)
      rw [takeWhile_row hrow' (by decide)]
      simp
  -- a digit is no sign in front of a numeral
  unfold Binary64.parse?
  split
  next heq =>
    rw [(List.cons.inj heq).1] at hc
    exact absurd hc (by decide)
  next heq =>
    rw [(List.cons.inj heq).1] at hc
    exact absurd hc (by decide)
  next => exact hunsigned

/-! ### Strings -/

section Strings

variable {quote : Char} {body value : List Char}

/-- The text between two quotes is read up to the second. -/
theorem readString_of_quoted (hquote : quote = '"' ∨ quote = '\'') (h : Quoted quote body value)
    (rest : List Char) :
    readString quote (body ++ quote :: rest) = ⟨value, body, .quote, [quote], rest⟩ := by
  induction h with
  | nil =>
    rw [List.nil_append, readString.eq_def]
    simp
  | plain hne hbreak hslash _ ih =>
    rw [List.cons_append, readString.eq_def]
    simp only [if_neg hne, if_neg hbreak, if_neg hslash, ih]
    rfl
  | escape he _ ih =>
    have hne : '\\' ≠ quote := by rcases hquote with rfl | rfl <;> decide
    rw [List.cons_append, List.cons_append, readString.eq_def]
    simp only [if_neg hne, if_neg (show '\\' ≠ '\n' by decide), if_true, he, ih]
    rfl

/-- What is read up to a quote is the text between two quotes. -/
theorem quoted_readString (cs : List Char) (h : (readString quote cs).ending = .quote) :
    (readString quote cs).close = [quote] ∧
      Quoted quote (readString quote cs).text (readString quote cs).value := by
  fun_induction readString quote cs with
  | case1 => simp at h
  | case2 cs => exact ⟨rfl, .nil⟩
  | case3 => simp at h
  | case4 => simp at h
  | case5 e cs v hv hquote hbreak ih =>
    obtain ⟨hclose, hbody⟩ := ih h
    exact ⟨hclose, .escape hv hbody⟩
  | case6 => simp at h
  | case7 c cs hquote hbreak hslash ih =>
    obtain ⟨hclose, hbody⟩ := ih h
    exact ⟨hclose, .plain hquote hbreak hslash hbody⟩

end Strings

/-! ### Numbers -/

section Numbers

variable {c : Char}

/-- What is taken of a text as the rest of a number. -/
def numberTail (cs : List Char) : List Char :=
  cs.takeWhile isDigitOrSeparator ++ (splitFraction (cs.dropWhile isDigitOrSeparator)).1

theorem splitFraction_fst (cs : List Char) : Fraction (splitFraction cs).1 := by
  unfold splitFraction
  split
  · exact .point fun d hd => List.all_eq_true.mp List.all_takeWhile d hd
  · exact .none

/-- A number is read from a digit on. -/
theorem munchNumber_eq_token (hc : c.isDigit = true) (cs : List Char) :
    ∃ value, Binary64.parse? ((c :: numberTail cs).filter (· ≠ '_')) = some value ∧
      munchNumber c cs = ⟨.token (.number value), [], c :: numberTail cs,
        (splitFraction (cs.dropWhile isDigitOrSeparator)).2⟩ := by
  obtain ⟨value, hvalue⟩ := parse?_numeral hc
    (fun d hd => List.all_eq_true.mp List.all_takeWhile d hd)
    (splitFraction_fst (cs.dropWhile isDigitOrSeparator))
  refine ⟨value, hvalue, ?_⟩
  unfold munchNumber
  dsimp only
  rw [hvalue]
  rfl

/-- No number of the table goes on behind what is taken. -/
theorem length_le_numberTail {cs digits fraction : List Char} (h : digits ++ fraction <+: cs)
    (hdigits : ∀ d ∈ digits, isDigitOrSeparator d = true) (hfraction : Fraction fraction) :
    (digits ++ fraction).length ≤ (numberTail cs).length := by
  cases hfraction with
  | none =>
    rw [List.append_nil] at h ⊢
    have hle := (prefix_takeWhile h hdigits).length_le
    rw [numberTail, List.length_append]
    omega
  | @point places hplaces =>
    obtain ⟨rest, rfl⟩ := h
    have hplaces' := (prefix_takeWhile (List.prefix_append places rest) hplaces).length_le
    have htail : numberTail (digits ++ '.' :: places ++ rest) =
        digits ++ '.' :: (places ++ rest).takeWhile isDigitOrSeparator := by
      rw [numberTail, List.append_assoc, List.cons_append, takeWhile_row hdigits (by decide),
        dropWhile_row hdigits (by decide)]
      rfl
    rw [htail]
    simp only [List.length_append, List.length_cons]
    omega

end Numbers

/-! ### The piece at hand -/

/-- The text `c :: cs` begins with the mark of a comment. -/
def OpensComment (c : Char) (cs : List Char) : Prop :=
  c = '/' ∧ (cs.head? = some '/' ∨ cs.head? = some '*')

section Piece

variable {c : Char} {cs part other rest : List Char} {t t' : Token}

/-- What is neither a gap nor a comment is read as the part of the table says that its first
character belongs to. -/
theorem munch_eq (hblank : isBlank c = false) (hcomment : ¬OpensComment c cs) :
    munch c cs = match opener c with
      | .quote => munchString c cs
      | .digit => munchNumber c cs
      | .letter => ⟨.token (Token.ofWord (String.ofList (c :: cs.takeWhile isNamePart))), [],
          c :: cs.takeWhile isNamePart, cs.dropWhile isNamePart⟩
      | .sign => match Punctuator.munch? c cs with
        | some (sign, rest) => ⟨.token (.punctuator sign), [], sign.spelling.toList, rest⟩
        | none => ⟨.fault (.unexpectedCharacter c), [], [c], cs⟩ := by
  have hline : ¬(c = '/' ∧ cs.head? = some '/') := fun h => hcomment ⟨h.1, .inl h.2⟩
  have hblock : ¬(c = '/' ∧ cs.head? = some '*') := fun h => hcomment ⟨h.1, .inr h.2⟩
  unfold munch opener
  rw [if_neg (by simp [hblank]), if_neg hline, if_neg hblock]
  split_ifs <;> rfl

/-- A token is neither a gap nor a comment. -/
theorem not_gap_of_token (h : (munch c cs).piece = .token t) :
    isBlank c = false ∧ ¬OpensComment c cs := by
  unfold munch at h
  split_ifs at h with hblank hline hblock
  · unfold munchComment at h
    split at h <;> cases h
  all_goals
    refine ⟨by simpa using hblank, fun hcomment => ?_⟩
    rcases hcomment with ⟨hc, hhead | hhead⟩
    · exact hline ⟨hc, hhead⟩
    · exact hblock ⟨hc, hhead⟩

/-- What is read as a token is its spelling. -/
theorem spelledBy_munch (h : (munch c cs).piece = .token t) :
    (munch c cs).lead = [] ∧ t.SpelledBy (munch c cs).body := by
  obtain ⟨hblank, hcomment⟩ := not_gap_of_token h
  rw [munch_eq hblank hcomment] at h ⊢
  cases ho : opener c with
  | quote =>
    simp only [ho] at h ⊢
    unfold munchString at h ⊢
    dsimp only at h ⊢
    cases hending : (readString c cs).ending with
    | quote =>
      obtain ⟨hclose, hbody⟩ := quoted_readString cs hending
      simp only [hending, hclose] at h ⊢
      cases h
      exact ⟨trivial, .string (quote_of_opener ho) hbody⟩
    | missing =>
      rw [hending] at h
      cases h
    | invalidEscape e =>
      rw [hending] at h
      cases h
  | digit =>
    simp only [ho] at h ⊢
    have hdigit := isDigit_of_opener ho
    obtain ⟨value, hvalue, hmunch⟩ := munchNumber_eq_token hdigit cs
    rw [hmunch] at h ⊢
    cases h
    exact ⟨rfl, .number hdigit (fun d hd => List.all_eq_true.mp List.all_takeWhile d hd)
      (splitFraction_fst _) hvalue⟩
  | letter =>
    simp only [ho] at h ⊢
    cases h
    refine ⟨trivial, .of_listedUnder ?_⟩
    rw [ho]
    exact ⟨fun d hd => List.all_eq_true.mp List.all_takeWhile d hd, rfl⟩
  | sign =>
    simp only [ho] at h ⊢
    split at h
    · cases h
      exact ⟨rfl, .sign _⟩
    · cases h

/-- **What begins with a lexeme is read as a token,** which takes at least as much of the text. -/
theorem exists_token_munch (h : t.SpelledBy other) (hother : other <+: c :: cs)
    (hcomment : ¬OpensComment c cs) :
    ∃ t', (munch c cs).piece = .token t' ∧ other.length ≤ (munch c cs).body.length := by
  obtain ⟨d, ds, rfl⟩ := List.exists_cons_of_ne_nil h.ne_nil
  obtain ⟨rfl, hds⟩ := List.cons_prefix_cons.mp hother
  have hlisted := h.listedUnder
  rw [munch_eq h.isBlank_eq_false hcomment]
  cases ho : opener d with
  | quote =>
    rw [ho] at hlisted
    obtain ⟨body, value, rfl, hbody, -⟩ := hlisted
    obtain ⟨rest, rfl⟩ := hds
    have hread := readString_of_quoted (quote_of_opener ho) hbody rest
    rw [List.append_assoc, List.singleton_append]
    simp only [munchString, hread]
    exact ⟨_, rfl, Nat.le_refl _⟩
  | digit =>
    rw [ho] at hlisted
    obtain ⟨digits, fraction, _, rfl, hdigits, hfraction, -⟩ := hlisted
    obtain ⟨value, -, hmunch⟩ := munchNumber_eq_token (isDigit_of_opener ho) cs
    have hle := length_le_numberTail hds hdigits hfraction
    simp only [hmunch, List.length_cons]
    exact ⟨_, rfl, Nat.succ_le_succ hle⟩
  | letter =>
    rw [ho] at hlisted
    have hle := (prefix_takeWhile hds hlisted.1).length_le
    exact ⟨_, rfl, Nat.succ_le_succ hle⟩
  | sign =>
    rw [ho] at hlisted
    obtain ⟨sign, hsign, -⟩ := hlisted
    rw [hsign] at hother ⊢
    obtain ⟨found, rest, hfound, hle⟩ := Punctuator.longest?_of_prefix hother
    rw [← Punctuator.munch?_eq_longest?] at hfound
    simp only [hfound]
    exact ⟨_, rfl, hle⟩

/-- `part` spells the token and is the longest beginning of the text that spells any token. -/
structure LongestLexeme (t : Token) (part text : List Char) : Prop where
  spelledBy : t.SpelledBy part
  begins : part <+: text
  longest : ∀ t' other, Token.SpelledBy t' other → other <+: text → other.length ≤ part.length

/-- **The longest lexeme is read.** -/
theorem longest_munch (h : (munch c cs).piece = .token t) :
    LongestLexeme t (munch c cs).body (c :: cs) := by
  obtain ⟨hlead, hspelled⟩ := spelledBy_munch h
  have htext := text_munch c cs
  rw [Munch.text, hlead, List.nil_append] at htext
  refine ⟨hspelled, ⟨_, htext⟩, fun t' other hother hfront => ?_⟩
  obtain ⟨-, -, hle⟩ := exists_token_munch hother hfront (not_gap_of_token h).2
  exact hle

/-- **Only the longest lexeme is read.** -/
theorem munch_of_longest (hcomment : ¬OpensComment c cs) (htext : c :: cs = part ++ rest)
    (h : LongestLexeme t part (c :: cs)) : munch c cs = ⟨.token t, [], part, rest⟩ := by
  obtain ⟨t', hpiece, hle⟩ := exists_token_munch h.spelledBy h.begins hcomment
  obtain ⟨hlead, hspelled⟩ := spelledBy_munch hpiece
  have hmunch := longest_munch hpiece
  have hbody : (munch c cs).body = part := by
    refine List.prefix_of_prefix_length_le hmunch.begins h.begins ?_ |>.eq_of_length_le hle
    exact h.longest t' _ hmunch.spelledBy hmunch.begins
  have hrest : (munch c cs).rest = rest := by
    have hall := text_munch c cs
    rw [Munch.text, hlead, List.nil_append, hbody, htext] at hall
    exact List.append_cancel_left hall
  rw [hbody] at hspelled
  rw [← hspelled.unique h.spelledBy, ← hpiece, ← hbody, ← hrest, ← hlead]

/-- No lexeme goes on behind a string. -/
theorem length_le_of_quote (hquote : opener c = .quote) (h : t.SpelledBy (c :: part))
    (h' : t'.SpelledBy (c :: other)) (hfront : part <+: other) : other.length ≤ part.length := by
  have hlisted := h.listedUnder
  have hlisted' := h'.listedUnder
  rw [hquote] at hlisted hlisted'
  obtain ⟨body, value, rfl, hbody, -⟩ := hlisted
  obtain ⟨body', value', rfl, hbody', -⟩ := hlisted'
  obtain ⟨rest, hrest⟩ := hfront
  -- both strings are read from the same text, up to the same quote
  have hread := readString_of_quoted (quote_of_opener hquote) hbody rest
  have hread' := readString_of_quoted (quote_of_opener hquote) hbody' []
  rw [List.append_assoc, List.singleton_append] at hrest
  rw [hrest, hread'] at hread
  rw [(StringText.mk.inj hread).2.1]

/-- What begins with a lexeme that ends in front of `after` begins with no longer one if `after`
closes it. -/
theorem LongestLexeme.append {left after : List Char} (h : LongestLexeme t part (part ++ left))
    (hafter : ∀ x ∈ after.head?, closes x = true) :
    LongestLexeme t part (part ++ (left ++ after)) := by
  refine ⟨h.spelledBy, List.prefix_append _ _, fun t' other hother hfront => ?_⟩
  rw [← List.append_assoc] at hfront
  rcases List.prefix_or_prefix_of_prefix hfront (List.prefix_append (part ++ left) after) with
    hwithin | ⟨more, rfl⟩
  · exact h.longest t' other hother hwithin
  · cases more with
    | nil => exact h.longest t' _ hother (by simp)
    | cons x more =>
      have hhead : after.head? = some x := by
        obtain ⟨rest, rfl⟩ := (List.prefix_append_right_inj _).mp hfront
        rfl
      obtain ⟨c, cs, rfl⟩ := List.exists_cons_of_ne_nil h.spelledBy.ne_nil
      have hquote := hother.quote_of_closes (hafter x hhead) (by simp)
      have hle := length_le_of_quote hquote h.spelledBy hother
        ((List.prefix_append cs left).trans (List.prefix_append (cs ++ left) (x :: more)))
      exact Nat.succ_le_succ hle

/-- A comment is not made by what closes the text before it. -/
theorem not_opensComment_append {after : List Char} (hcomment : ¬OpensComment c cs)
    (hafter : ∀ x ∈ after.head?, closes x = true) : ¬OpensComment c (cs ++ after) := by
  rintro ⟨hc, hhead⟩
  cases cs with
  | cons d ds => exact hcomment ⟨hc, hhead⟩
  | nil =>
    rcases hhead with hhead | hhead
    · exact (ne_of_closes (hafter _ hhead)).2.1 rfl
    · exact (ne_of_closes (hafter _ hhead)).2.2 rfl

/-- **A lexeme is read in front of everything that closes it.** -/
theorem munch_append {left after : List Char} (hcomment : ¬OpensComment c cs)
    (htext : c :: cs = part ++ left) (h : LongestLexeme t part (c :: cs))
    (hafter : ∀ x ∈ after.head?, closes x = true) :
    munch c (cs ++ after) = ⟨.token t, [], part, left ++ after⟩ := by
  have htext' : c :: (cs ++ after) = part ++ (left ++ after) := by
    rw [← List.cons_append, htext, List.append_assoc]
  refine munch_of_longest (not_opensComment_append hcomment hafter) htext' ?_
  rw [htext']
  rw [htext] at h
  exact h.append hafter

/-- No number is at fault. -/
theorem fault_ne_invalidNumber {fault : Fault} (h : (munch c cs).piece = .fault fault)
    (text : String) : fault ≠ .invalidNumber text := by
  rintro rfl
  unfold munch at h
  split_ifs at h
  · unfold munchComment at h
    split at h <;> cases h
  · unfold munchString at h
    dsimp only at h
    split at h <;> cases h
  next hdigit =>
    obtain ⟨value, -, hmunch⟩ := munchNumber_eq_token hdigit cs
    rw [hmunch] at h
    cases h
  · split at h <;> cases h

end Piece

/-! ### What is scanned -/

/-- What is scanned is read somewhere. -/
theorem exists_munch_of_mem_scanFrom {item : Scanned} (cs : List Char) : ∀ before,
    item ∈ scanFrom (byteLength before) cs → ∃ b d ds, before ++ cs = b ++ d :: ds ∧
      (munch d ds).scanned? (byteLength b) = some item := by
  induction cs using munch_induction with
  | nil => simp [scanFrom]
  | cons c cs ih =>
    intro before hmem
    rw [scanFrom_cons, List.mem_append, Option.mem_toList] at hmem
    rcases hmem with hmem | hmem
    · exact ⟨before, c, cs, rfl, hmem⟩
    · rw [← byteLength_append, ← byteLength_append] at hmem
      obtain ⟨b, d, ds, htext, hitem⟩ := ih _ hmem
      refine ⟨b, d, ds, ?_, hitem⟩
      rw [← htext, ← text_munch c cs, Munch.text]
      simp only [List.append_assoc]

/-- **A lexeme stands where the longest lexeme of the rest of the text is.** -/
theorem longest_of_mem_scan {text : String} {w : Lexeme} (h : .ok w ∈ scan text) :
    ∃ before part rest, text.toList = before ++ (part ++ rest) ∧
      w.span = ⟨byteLength before, byteLength part⟩ ∧ LongestLexeme w.token part (part ++ rest) := by
  obtain ⟨before, c, cs, htext, hitem⟩ := exists_munch_of_mem_scanFrom text.toList [] h
  have hpiece : (munch c cs).piece = .token w.token := by
    unfold Munch.scanned? at hitem
    split at hitem
    · cases hitem
    next hpiece =>
      cases hitem
      exact hpiece
    · cases hitem
  have hall := text_munch c cs
  rw [Munch.text, (spelledBy_munch hpiece).1, List.nil_append] at hall
  refine ⟨before, (munch c cs).body, (munch c cs).rest, ?_, ?_, ?_⟩
  · rw [hall]
    exact htext
  · have hspan := Munch.span_scanned? hitem
    rw [(spelledBy_munch hpiece).1] at hspan
    exact hspan
  · rw [hall]
    exact longest_munch hpiece

theorem not_invalidNumber_of_mem_scan {text : String} {e : LexicalError} (h : .error e ∈ scan text)
    (number : String) : e.fault ≠ .invalidNumber number := by
  obtain ⟨before, c, cs, -, hitem⟩ := exists_munch_of_mem_scanFrom text.toList [] h
  unfold Munch.scanned? at hitem
  split at hitem
  · cases hitem
  · cases hitem
  next hpiece =>
    cases hitem
    exact fault_ne_invalidNumber hpiece number

end ScriptLint
