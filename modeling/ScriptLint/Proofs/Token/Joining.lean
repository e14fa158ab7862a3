import ScriptLint.Proofs.Token.Places
import ScriptLint.Proofs.Token.Signs
/-!
# The tokens of joined texts

A line break ends every piece of a text that is not at fault without it: no
token goes on behind it, and of the gaps only comments with an end mark and
rows of blanks do. So a text without lexical errors keeps its tokens when a
line break and more text are put behind it, and what is put behind has the
tokens that it has alone, further on.

Key definitions: `Scanned.shift`.
Key theorems: `scanFrom_append`, `scanFrom_shift`, `scan_joined`, `scan_parted`.
-/

namespace ScriptLint

/-! ### Pieces in front of a line break -/

section LineBreak

variable {rest : List Char}

theorem takeWhile_line {p : Char → Bool} (hp : p '\n' = false) (cs : List Char) :
    (cs ++ '\n' :: rest).takeWhile p = cs.takeWhile p := by
  induction cs with
  | nil => simp [hp]
  | cons c cs ih =>
    by_cases hc : p c = true
    · simp [hc, ih]
    · simp [hc]

theorem dropWhile_line {p : Char → Bool} (hp : p '\n' = false) (cs : List Char) :
    (cs ++ '\n' :: rest).dropWhile p = cs.dropWhile p ++ '\n' :: rest := by
  induction cs with
  | nil => simp [hp]
  | cons c cs ih =>
    by_cases hc : p c = true
    · simp [hc, ih]
    · simp [hc]

/-- A comment that has its end mark ends there. -/
theorem splitComment?_line : ∀ {cs inside left : List Char},
    splitComment? cs = some (inside, left) →
    splitComment? (cs ++ '\n' :: rest) = some (inside, left ++ '\n' :: rest)
  | [], _, _, h => by simp [splitComment?] at h
  | c :: cs, inside, left, h => by
    have hhead : (cs ++ '\n' :: rest).head? = some '/' ↔ cs.head? = some '/' := by
      cases cs <;> simp
    rw [List.cons_append, splitComment?]
    rw [splitComment?] at h
    by_cases hend : c = '*' ∧ cs.head? = some '/'
    · rw [if_pos hend] at h
      rw [if_pos ⟨hend.1, hhead.mpr hend.2⟩]
      cases cs with
      | nil => simp at hend
      | cons d ds =>
        cases h
        rfl
    · rw [if_neg hend] at h
      rw [if_neg fun hc => hend ⟨hc.1, hhead.mp hc.2⟩]
      obtain ⟨⟨i, l⟩, hi, heq⟩ := Option.map_eq_some_iff.mp h
      cases heq
      rw [splitComment?_line hi]
      rfl

/-- A string that has its quote ends there. -/
theorem readString_line {quote : Char} {cs : List Char}
    (h : (readString quote cs).ending = .quote) :
    readString quote (cs ++ '\n' :: rest) =
      { readString quote cs with rest := (readString quote cs).rest ++ '\n' :: rest } := by
  fun_induction readString quote cs with
  | case1 => simp at h
  | case2 cs =>
    rw [List.cons_append, readString.eq_def]
    simp
  | case3 => simp at h
  | case4 => simp at h
  | case5 e cs v hv hquote hbreak ih =>
    rw [List.cons_append, List.cons_append, readString.eq_def]
    simp only [if_neg hquote, if_neg hbreak, if_true, hv, ih h]
    rfl
  | case6 => simp at h
  | case7 c cs hquote hbreak hslash ih =>
    rw [List.cons_append, readString.eq_def]
    simp only [if_neg hquote, if_neg hbreak, if_neg hslash, ih h]
    rfl

theorem splitFraction_line (cs : List Char) :
    splitFraction (cs ++ '\n' :: rest) =
      ((splitFraction cs).1, (splitFraction cs).2 ++ '\n' :: rest) := by
  have hbreak : isDigitOrSeparator '\n' = false := by decide
  cases cs with
  | nil => rfl
  | cons c cs =>
    by_cases hc : c = '.'
    · subst hc
      simp only [List.cons_append, splitFraction, takeWhile_line hbreak, dropWhile_line hbreak]
    · have hnone : ∀ ds, splitFraction (c :: ds) = ([], c :: ds) := by
        intro ds
        unfold splitFraction
        split
        next heq => exact absurd (List.cons.inj heq).1 hc
        next => rfl
      rw [List.cons_append, hnone, hnone, List.cons_append]

theorem afterPrefix?_line : ∀ {ps : List Char}, '\n' ∉ ps → ∀ cs : List Char,
    afterPrefix? ps (cs ++ '\n' :: rest) = (afterPrefix? ps cs).map (· ++ '\n' :: rest)
  | [], _, cs => by simp [afterPrefix?]
  | p :: ps, hps, [] => by
    have hp : '\n' ≠ p := fun h => hps (h ▸ List.mem_cons_self)
    simp [afterPrefix?, eat?, hp]
  | p :: ps, hps, c :: cs => by
    simp only [List.cons_append, afterPrefix?, eat?]
    by_cases h : c = p
    · rw [if_pos h, if_pos h]
      exact afterPrefix?_line (fun hmem => hps (List.mem_cons_of_mem p hmem)) cs
    · rw [if_neg h, if_neg h]
      rfl

theorem longest?_line (cs : List Char) :
    Punctuator.longest? (cs ++ '\n' :: rest) =
      (Punctuator.longest? cs).map fun (sign, left) => (sign, left ++ '\n' :: rest) := by
  have hspelling : ∀ sign : Punctuator, '\n' ∉ sign.spelling.toList := by
    intro sign
    cases sign <;> decide
  unfold Punctuator.longest?
  rw [List.map_findSome?]
  congr 1
  funext sign
  rw [afterPrefix?_line (hspelling sign), Function.comp_apply]
  cases afterPrefix? sign.spelling.toList cs <;> rfl

/-- The same piece, with more text behind it. -/
def Munch.before (m : Munch) (more : List Char) : Munch :=
  { m with rest := m.rest ++ more }

theorem munchComment_line {cs : List Char} (h : ∀ fault, (munchComment cs).piece ≠ .fault fault) :
    munchComment (cs ++ '\n' :: rest) = (munchComment cs).before ('\n' :: rest) := by
  unfold munchComment at h ⊢
  cases hsplit : splitComment? cs with
  | none =>
    rw [hsplit] at h
    exact absurd rfl (h _)
  | some parts =>
    rw [splitComment?_line hsplit]
    rfl

theorem munchString_line {quote : Char} {cs : List Char}
    (h : ∀ fault, (munchString quote cs).piece ≠ .fault fault) :
    munchString quote (cs ++ '\n' :: rest) = (munchString quote cs).before ('\n' :: rest) := by
  have hend : (readString quote cs).ending = .quote := by
    unfold munchString at h
    cases hending : (readString quote cs).ending with
    | quote => rfl
    | missing => simp [hending] at h
    | invalidEscape e => simp [hending] at h
  unfold munchString
  rw [readString_line hend]
  simp only [hend]
  rfl

theorem munchNumber_line (digit : Char) (cs : List Char) :
    munchNumber digit (cs ++ '\n' :: rest) = (munchNumber digit cs).before ('\n' :: rest) := by
  have hbreak : isDigitOrSeparator '\n' = false := by decide
  unfold munchNumber
  rw [dropWhile_line hbreak, takeWhile_line hbreak, splitFraction_line]
  simp only
  split <;> rfl

/-- A piece that is no fault and no row of blanks is the same in front of a line break. -/
theorem munch_line {c : Char} {cs : List Char} (hblank : isBlank c = false)
    (hfault : ∀ fault, (munch c cs).piece ≠ .fault fault) :
    munch c (cs ++ '\n' :: rest) = (munch c cs).before ('\n' :: rest) := by
  have hhead : ∀ d : Char, d ≠ '\n' →
      ((cs ++ '\n' :: rest).head? = some d ↔ cs.head? = some d) := by
    intro d hd
    cases cs with
    | nil => simpa using fun h => hd h.symm
    | cons e es => simp
  unfold munch at hfault ⊢
  simp only [hblank, Bool.false_eq_true, if_false, hhead '/' (by decide), hhead '*' (by decide)]
    at hfault ⊢
  by_cases hline : c = '/' ∧ cs.head? = some '/'
  · simp only [if_pos hline]
    rw [takeWhile_line (by decide), dropWhile_line (by decide)]
    rfl
  simp only [if_neg hline] at hfault ⊢
  by_cases hcomment : c = '/' ∧ cs.head? = some '*'
  · simp only [if_pos hcomment] at hfault ⊢
    cases cs with
    | nil => simp at hcomment
    | cons d ds => exact munchComment_line hfault
  simp only [if_neg hcomment] at hfault ⊢
  by_cases hquote : c = '"' ∨ c = '\''
  · simp only [if_pos hquote] at hfault ⊢
    exact munchString_line hfault
  simp only [if_neg hquote] at hfault ⊢
  by_cases hdigit : c.isDigit = true
  · simp only [if_pos hdigit] at hfault ⊢
    exact munchNumber_line c cs
  simp only [if_neg hdigit] at hfault ⊢
  by_cases hname : isNameStart c = true
  · simp only [if_pos hname] at hfault ⊢
    rw [takeWhile_line (by decide), dropWhile_line (by decide)]
    rfl
  simp only [if_neg hname] at hfault ⊢
  rw [Punctuator.munch?_eq_longest?] at hfault
  rw [Punctuator.munch?_eq_longest?, Punctuator.munch?_eq_longest?, ← List.cons_append,
    longest?_line]
  cases hsign : Punctuator.longest? (c :: cs) with
  | none =>
    rw [hsign] at hfault
    exact absurd rfl (hfault _)
  | some found => rfl

end LineBreak

/-! ### Joined texts -/

/-- Blanks belong to no token. -/
theorem scanFrom_blank {c : Char} (h : isBlank c = true) (offset : Nat) (cs : List Char) :
    scanFrom offset (c :: cs) = scanFrom (offset + c.utf8Size) cs := by
  rw [scanFrom_cons, munch_blank h]
  cases cs with
  | nil => simp [Munch.scanned?]
  | cons d ds =>
    by_cases hd : isBlank d = true
    · rw [scanFrom_cons _ d, munch_blank hd]
      simp [Munch.scanned?, hd, Nat.add_assoc]
    · simp [Munch.scanned?, hd]

theorem scanFrom_blanks {bs : List Char} (h : ∀ b ∈ bs, isBlank b = true) (offset : Nat)
    (cs : List Char) : scanFrom offset (bs ++ cs) = scanFrom (offset + byteLength bs) cs := by
  induction bs generalizing offset with
  | nil => simp
  | cons b bs ih =>
    rw [List.cons_append, scanFrom_blank (h b (by simp)), ih (fun x hx => h x (by simp [hx])),
      byteLength_cons, Nat.add_assoc]

/-- **A line break keeps apart what stands on its two sides,** if there is no lexical error in
front of it. -/
theorem scanFrom_append (cs : List Char) (rest : List Char) : ∀ offset,
    (∀ e, .error e ∉ scanFrom offset cs) →
    scanFrom offset (cs ++ '\n' :: rest) =
      scanFrom offset cs ++ scanFrom (offset + byteLength cs) ('\n' :: rest) := by
  induction cs using munch_induction with
  | nil => simp [scanFrom]
  | cons c cs ih =>
    intro offset hfaults
    have hlen := byteLength_munch c cs
    rw [scanFrom_cons] at hfaults
    have hih := ih (offset + byteLength (munch c cs).lead + byteLength (munch c cs).body)
      fun e he => hfaults e (List.mem_append_right _ he)
    have hend : offset + byteLength (munch c cs).lead + byteLength (munch c cs).body
        + byteLength (munch c cs).rest = offset + byteLength (c :: cs) := by omega
    rw [hend] at hih
    rw [scanFrom_cons offset c cs, List.append_assoc, ← hih, List.cons_append]
    by_cases hblank : isBlank c = true
    · -- the blanks in front of the line break and those behind it are one gap
      have hsplit : c :: (cs ++ '\n' :: rest) =
          (c :: cs.takeWhile isBlank) ++ (cs.dropWhile isBlank ++ '\n' :: rest) := by
        rw [List.cons_append, ← List.append_assoc, List.takeWhile_append_dropWhile]
      rw [munch_blank hblank, hsplit, scanFrom_blanks (isBlank_of_mem_blanks hblank)]
      simp [Munch.scanned?]
    · have hfault : ∀ fault, (munch c cs).piece ≠ .fault fault := by
        intro fault hpiece
        obtain ⟨e, he⟩ := exists_error_of_fault hpiece offset
        rw [scanFrom_cons] at he
        exact hfaults e he
      rw [scanFrom_cons, munch_line (by simpa using hblank) hfault]
      rfl

/-! ### Texts further on -/

/-- A token or a lexical error `count` bytes further on. -/
def Scanned.shift (count : Nat) : Scanned → Scanned
  | .ok w => .ok ⟨w.token, w.span.shift count⟩
  | .error e => .error ⟨e.fault, e.span.shift count⟩

/-- A text that starts further on has its tokens further on. -/
theorem scanFrom_shift (count : Nat) (cs : List Char) : ∀ offset,
    scanFrom (offset + count) cs = (scanFrom offset cs).map (Scanned.shift count) := by
  induction cs using munch_induction with
  | nil => simp [scanFrom]
  | cons c cs ih =>
    intro offset
    have hfirst : ((munch c cs).scanned? (offset + count)).toList =
        ((munch c cs).scanned? offset).toList.map (Scanned.shift count) := by
      unfold Munch.scanned?
      have hstart : offset + count + byteLength (munch c cs).lead =
          offset + byteLength (munch c cs).lead + count := by omega
      split <;> simp [Scanned.shift, Span.shift, hstart]
    have hnext : offset + count + byteLength (munch c cs).lead + byteLength (munch c cs).body =
        offset + byteLength (munch c cs).lead + byteLength (munch c cs).body + count := by omega
    rw [scanFrom_cons, scanFrom_cons offset, hfirst, hnext, ih, List.map_append]

/-! ### Two texts -/

theorem scanFrom_semicolon (offset : Nat) (cs : List Char) : scanFrom offset (';' :: cs) =
    .ok ⟨.punctuator .semicolon, ⟨offset, 1⟩⟩ :: scanFrom (offset + 1) cs := by
  have hmunch : munch ';' cs = ⟨.token (.punctuator .semicolon), [], [';'], cs⟩ := rfl
  rw [scanFrom_cons, hmunch]
  rfl

theorem scanFrom_break (offset : Nat) (cs : List Char) :
    scanFrom offset ('\n' :: cs) = scanFrom (offset + 1) cs :=
  scanFrom_blank (by decide) offset cs

/-- The tokens of a text without lexical errors, and of what stands on the lines behind it. -/
theorem scan_append_line {a : String} {ws : List Lexeme} (h : tokenize a = .ok ws)
    (cs : List Char) : scanFrom 0 (a.toList ++ '\n' :: cs) =
      ws.map .ok ++ scanFrom (a.utf8ByteSize + 1) cs := by
  have hscan : scanFrom 0 a.toList = ws.map .ok := tokenize_eq_ok.mp h
  have hfaults : ∀ e, .error e ∉ scanFrom 0 a.toList := by
    rw [hscan]
    simp
  rw [scanFrom_append _ _ 0 hfaults, hscan, scanFrom_break, Nat.zero_add, utf8ByteSize_eq_byteLength]

/-- **The tokens of two texts with a semicolon on a line of its own between them.** -/
theorem scan_joined {a : String} {ws : List Lexeme} (h : tokenize a = .ok ws) (b : String) :
    scan (a ++ "\n;\n" ++ b) = ws.map .ok ++
      .ok ⟨.punctuator .semicolon, ⟨a.utf8ByteSize + 1, 1⟩⟩ ::
        (scan b).map (Scanned.shift (a.utf8ByteSize + 3)) := by
  have htext : (a ++ "\n;\n" ++ b).toList = a.toList ++ '\n' :: ';' :: '\n' :: b.toList := by
    simp
  unfold scan
  rw [htext, scan_append_line h, scanFrom_semicolon, scanFrom_break, ← scanFrom_shift, Nat.zero_add]

/-- The same with two semicolons on the line. -/
theorem scan_parted {a : String} {ws : List Lexeme} (h : tokenize a = .ok ws) (b : String) :
    scan (a ++ "\n;;\n" ++ b) = ws.map .ok ++
      .ok ⟨.punctuator .semicolon, ⟨a.utf8ByteSize + 1, 1⟩⟩ ::
        .ok ⟨.punctuator .semicolon, ⟨a.utf8ByteSize + 2, 1⟩⟩ ::
          (scan b).map (Scanned.shift (a.utf8ByteSize + 4)) := by
  have htext : (a ++ "\n;;\n" ++ b).toList =
      a.toList ++ '\n' :: ';' :: ';' :: '\n' :: b.toList := by
    simp
  unfold scan
  rw [htext, scan_append_line h, scanFrom_semicolon, scanFrom_semicolon, scanFrom_break,
    ← scanFrom_shift, Nat.zero_add]

end ScriptLint
