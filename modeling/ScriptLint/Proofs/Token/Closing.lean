import ScriptLint.Proofs.Token.Respacing
/-!
# Texts that something closes

A text without comments that is read without error in front of a semicolon
is read in the same way in front of everything else that closes it: its last
lexeme ends where the text ends. Its tokens are therefore those that it has
alone.

Key definitions: `CommentFree`, `ReadAs`.
Key theorems: `ReadAs.append`, `readAs_of_closed`.
-/

namespace ScriptLint

/-- No comment begins where a piece of the text begins. -/
def CommentFree : List Char → Prop
  | [] => True
  | c :: cs => ¬OpensComment c cs ∧ CommentFree (munch c cs).rest
termination_by cs => cs.length
decreasing_by exact Nat.lt_succ_of_le (length_rest_munch_le c cs)

theorem commentFree_cons {c : Char} {cs : List Char} :
    CommentFree (c :: cs) ↔ ¬OpensComment c cs ∧ CommentFree (munch c cs).rest := by
  rw [CommentFree]

/-- Without slashes there are no comments. -/
theorem commentFree_of_notMem {cs : List Char} (h : '/' ∉ cs) : CommentFree cs := by
  induction cs using munch_induction with
  | nil =>
    rw [CommentFree]
    trivial
  | cons c cs ih =>
    have htext := text_munch c cs
    refine commentFree_cons.mpr ⟨fun hcomment => h (by simp [hcomment.1]), ih fun hmem => h ?_⟩
    rw [← htext, Munch.text]
    simp [hmem]

/-- A text closes what stands before it if its first character does. -/
theorem closes_head?_cons {c : Char} {cs : List Char} (h : closes c = true) :
    ∀ x ∈ (c :: cs).head?, closes x = true := by
  simpa using h

/-- A lexeme that begins a text with a last semicolon ends in front of the semicolon. -/
theorem LongestLexeme.ends_before {t : Token} {c : Char} {cs part : List Char}
    (h : LongestLexeme t part (c :: (cs ++ [';']))) :
    ∃ left, c :: cs = part ++ left ∧ LongestLexeme t part (c :: cs) := by
  have hbegins : part <+: (c :: cs) ++ [';'] := h.begins
  rcases List.prefix_or_prefix_of_prefix hbegins (List.prefix_append (c :: cs) [';']) with
    hwithin | ⟨more, hmore⟩
  · obtain ⟨left, hleft⟩ := hwithin
    refine ⟨left, hleft.symm, h.spelledBy, ⟨left, hleft⟩, fun t' other hother hfront => ?_⟩
    exact h.longest t' other hother (hfront.trans (List.prefix_append (c :: cs) [';']))
  · rw [← hmore, List.prefix_append_right_inj] at hbegins
    rcases List.prefix_cons_iff.mp hbegins with rfl | ⟨last, rfl, hlast⟩
    · rw [List.append_nil] at hmore
      refine ⟨[], by rw [hmore, List.append_nil], h.spelledBy, hmore ▸ List.prefix_refl _, ?_⟩
      exact fun t' other hother hfront =>
        h.longest t' other hother (hfront.trans (List.prefix_append (c :: cs) [';']))
    · -- only a string goes on behind its first character with a semicolon, and it ends with its quote
      obtain rfl := List.prefix_nil.mp hlast
      rw [← hmore] at h
      have hspelled : t.SpelledBy (c :: (cs ++ [';'])) := h.spelledBy
      have hopener := hspelled.quote_of_closes (x := ';') rfl (by simp)
      have hlisted := hspelled.listedUnder
      rw [hopener] at hlisted
      obtain ⟨body, value, hcs, -, -⟩ := hlisted
      obtain rfl : ';' = c := by simpa using (List.append_inj' hcs rfl).2
      exact absurd hopener (by decide)

theorem Token.SpelledBy.eq_of_sign {sign : Punctuator} {part : List Char}
    (h : (Token.punctuator sign).SpelledBy part) : part = sign.spelling.toList := by
  cases h
  rfl

/-- What is read in front of a semicolon is a gap, a token of the text, or at fault. -/
theorem munch_closed {c : Char} {cs : List Char} (hblank : isBlank c = false)
    (hcomment : ¬OpensComment c cs)
    (hfault : ∀ fault, (munch c (cs ++ [';'])).piece ≠ .fault fault) :
    ∃ t, (munch c cs).piece = .token t ∧ ∀ after, (∀ x ∈ after.head?, closes x = true) →
      munch c (cs ++ after) =
        ⟨.token t, [], (munch c cs).body, (munch c cs).rest ++ after⟩ := by
  have hclosed : ∀ x ∈ [';'].head?, closes x = true := closes_head?_cons rfl
  have hcomment' := not_opensComment_append hcomment hclosed
  obtain ⟨t, hpiece⟩ : ∃ t, (munch c (cs ++ [';'])).piece = .token t := by
    cases hpiece : (munch c (cs ++ [';'])).piece with
    | gap =>
      rcases opens_of_gap hpiece with h | h
      · rw [hblank] at h
        cases h
      · exact absurd h hcomment'
    | token t => exact ⟨t, rfl⟩
    | fault fault => exact absurd hpiece (hfault fault)
  obtain ⟨left, htext, hlongest⟩ := (longest_munch hpiece).ends_before
  have halone := munch_of_longest hcomment htext hlongest
  refine ⟨t, by rw [halone], fun after hafter => ?_⟩
  rw [munch_append hcomment htext hlongest hafter, halone]

/-- The text has the tokens in front of everything that closes it. -/
def ReadAs (cs : List Char) (ts : List Token) : Prop :=
  ∀ after start, (∀ x ∈ after.head?, closes x = true) → ∃ ws : List Lexeme,
    ws.map Lexeme.token = ts ∧
      scanFrom start (cs ++ after) = ws.map .ok ++ scanFrom (start + byteLength cs) after

namespace ReadAs

variable {cs ds gap : List Char} {ts us : List Token}

theorem nil : ReadAs [] [] :=
  fun after start _ => ⟨[], rfl, by simp⟩

theorem spelled {t : Token} (h : t.SpelledBy cs) : ReadAs cs [t] :=
  fun _ start hafter => ⟨[⟨t, ⟨start, byteLength cs⟩⟩], rfl, scanFrom_spelled h hafter start⟩

/-- Blanks in front of a text change nothing. -/
theorem blanks (hgap : ∀ b ∈ gap, isBlank b = true) (h : ReadAs cs ts) : ReadAs (gap ++ cs) ts := by
  intro after start hafter
  obtain ⟨ws, hws, hscan⟩ := h after (start + byteLength gap) hafter
  refine ⟨ws, hws, ?_⟩
  rw [List.append_assoc, scanFrom_blanks hgap, hscan, byteLength_append, Nat.add_assoc]

theorem space (h : ReadAs cs ts) : ReadAs (' ' :: cs) ts :=
  h.blanks (List.forall_mem_singleton.mpr rfl)

/-- One text behind the other, where the second closes the first. -/
theorem append (h : ReadAs cs ts) (hclosed : ∀ x ∈ ds.head?, closes x = true) (h' : ReadAs ds us) :
    ReadAs (cs ++ ds) (ts ++ us) := by
  intro after start hafter
  have hclosed' : ∀ x ∈ (ds ++ after).head?, closes x = true := by
    cases ds with
    | nil => exact hafter
    | cons d ds => exact hclosed
  obtain ⟨ws, hws, hscan⟩ := h (ds ++ after) start hclosed'
  obtain ⟨vs, hvs, hscan'⟩ := h' after (start + byteLength cs) hafter
  refine ⟨ws ++ vs, by rw [List.map_append, hws, hvs], ?_⟩
  rw [List.append_assoc, hscan, hscan', byteLength_append, List.map_append, List.append_assoc,
    Nat.add_assoc]

/-- One text behind the other, with a space between them. -/
theorem append_space (h : ReadAs cs ts) (h' : ReadAs ds us) :
    ReadAs (cs ++ ' ' :: ds) (ts ++ us) :=
  h.append (closes_head?_cons (by decide)) h'.space

/-- A text with a semicolon behind it. -/
theorem semicolon (h : ReadAs cs ts) : ReadAs (cs ++ [';']) (ts ++ [.punctuator .semicolon]) :=
  h.append (closes_head?_cons (by decide)) (.spelled (.sign .semicolon))

theorem tokenize {text : String} (h : ReadAs text.toList ts) :
    ∃ ws, ScriptLint.tokenize text = .ok ws ∧ ws.map Lexeme.token = ts := by
  obtain ⟨ws, hws, hscan⟩ := h [] 0 (by simp)
  refine ⟨ws, tokenize_eq_ok.mpr ?_, hws⟩
  rw [List.append_nil, scanFrom, List.append_nil] at hscan
  exact hscan

end ReadAs

/-- **The lexemes of a text without comments do not depend on what closes it.** Let the text be
read without error in front of a last semicolon. In front of anything that closes it the text has
the same tokens. -/
theorem readAs_of_closed (cs : List Char) : CommentFree cs → ';' ∉ cs →
    ∀ offset, (∀ e, .error e ∉ scanFrom offset (cs ++ [';'])) →
      ∃ ts : List Token, .punctuator .semicolon ∉ ts ∧ ReadAs cs ts := by
  induction cs using munch_induction with
  | nil => exact fun _ _ _ _ => ⟨[], by simp, .nil⟩
  | cons c cs ih =>
    intro hfree hsemicolon offset hfaults
    obtain ⟨hcomment, hfree⟩ := commentFree_cons.mp hfree
    have hlater : ';' ∉ (munch c cs).rest := fun hmem => hsemicolon (by
      rw [← text_munch c cs, Munch.text]
      simp [hmem])
    by_cases hblank : isBlank c = true
    · -- blanks belong to no token, and what stands behind them goes on in the same way
      have hsplit : c :: cs = (c :: cs.takeWhile isBlank) ++ (munch c cs).rest := by
        rw [munch_blank hblank, List.cons_append, List.takeWhile_append_dropWhile]
      have hblanks : ∀ b ∈ c :: cs.takeWhile isBlank, isBlank b = true :=
        isBlank_of_mem_blanks hblank
      rw [hsplit, List.append_assoc, scanFrom_blanks hblanks] at hfaults
      obtain ⟨ts, hts, hread⟩ := ih hfree hlater _ hfaults
      exact ⟨ts, hts, hsplit ▸ hread.blanks hblanks⟩
    · have hfault : ∀ fault, (munch c (cs ++ [';'])).piece ≠ .fault fault := fun fault hpiece => by
        obtain ⟨e, he⟩ := exists_error_of_fault hpiece offset
        exact hfaults e he
      obtain ⟨t, hpiece, hmunch⟩ := munch_closed (by simpa using hblank) hcomment hfault
      obtain ⟨hlead, hspelled⟩ := spelledBy_munch hpiece
      have htext : (munch c cs).body ++ (munch c cs).rest = c :: cs := by
        rw [← text_munch c cs, Munch.text, hlead, List.nil_append]
      have hsign : t ≠ .punctuator .semicolon := by
        rintro rfl
        refine hsemicolon ?_
        rw [← htext, hspelled.eq_of_sign]
        simp [Punctuator.spelling]
      rw [List.cons_append, scanFrom_cons, hmunch [';'] (closes_head?_cons rfl)] at hfaults
      obtain ⟨ts, hts, hread⟩ := ih hfree hlater _ fun e he => hfaults e (List.mem_append_right _ he)
      refine ⟨t :: ts, by simp [hts, hsign.symm], fun after start hafter => ?_⟩
      obtain ⟨ws, hws, hscan⟩ := hread after (start + byteLength (munch c cs).body) hafter
      refine ⟨⟨t, ⟨start, byteLength (munch c cs).body⟩⟩ :: ws, by rw [List.map_cons, hws], ?_⟩
      rw [List.cons_append, scanFrom_cons, hmunch after hafter, ← htext, byteLength_append,
        ← Nat.add_assoc]
      simp only [Munch.scanned?, byteLength_nil, Nat.add_zero]
      rw [hscan]
      rfl

end ScriptLint
