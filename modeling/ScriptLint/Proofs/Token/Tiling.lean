import ScriptLint.Proofs.Token.LongestMatch
/-!
# Lexemes and gaps make up a text

Between two lexemes, in front of the first and behind the last there is
nothing but blanks and comments. A comment on a line goes up to the line
break, which it does not contain, or to the end of the text; any other
comment goes up to the first end mark behind its beginning.

Key definitions: `Gap`, `Tiled`, `TiledBy`.
Key theorems: `gap_munch`, `tiled_scanFrom`, `lexemes_tile_text`.
-/

namespace ScriptLint

/-! ### Gaps -/

/-- What may stand between two lexemes if `after` follows. -/
inductive Gap (after : List Char) : List Char → Prop
  | nil : Gap after []
  | blank {c : Char} {gap : List Char} : isBlank c = true → Gap after gap → Gap after (c :: gap)
  | line {comment gap : List Char} :
      '\n' ∉ comment → (∀ c ∈ (gap ++ after).head?, c = '\n') → Gap after gap →
      Gap after ('/' :: '/' :: (comment ++ gap))
  | block {comment gap : List Char} :
      ¬['*', '/'] <:+: comment ++ ['*'] → Gap after gap →
      Gap after ('/' :: '*' :: (comment ++ '*' :: '/' :: gap))

theorem Gap.blanks {after gap bs : List Char} (hbs : ∀ b ∈ bs, isBlank b = true)
    (h : Gap after gap) : Gap after (bs ++ gap) := by
  induction bs with
  | nil => exact h
  | cons b bs ih => exact .blank (hbs b (by simp)) (ih fun x hx => hbs x (by simp [hx]))

/-- A comment is split off at its first end mark. -/
theorem splitComment?_first : ∀ {cs comment rest : List Char},
    splitComment? cs = some (comment, rest) →
    ∃ inside, comment = inside ++ ['*', '/'] ∧ ¬['*', '/'] <:+: inside ++ ['*']
  | [], _, _, h => by simp [splitComment?] at h
  | c :: cs, comment, rest, h => by
    unfold splitComment? at h
    split at h
    next =>
      cases h
      exact ⟨[], rfl, by decide⟩
    next hopen =>
      obtain ⟨⟨comment', rest'⟩, hsplit, heq⟩ := Option.map_eq_some_iff.mp h
      obtain ⟨rfl, rfl⟩ := Prod.mk.inj heq
      have htext := splitComment?_eq_some hsplit
      obtain ⟨inside, rfl, hfirst⟩ := splitComment?_first hsplit
      refine ⟨c :: inside, rfl, fun hwithin => ?_⟩
      rw [List.cons_append, List.infix_cons_iff] at hwithin
      refine hwithin.elim (fun hfront => hopen ?_) hfirst
      -- an end mark at the front would have been taken
      obtain ⟨rfl, hslash⟩ := List.cons_prefix_cons.mp hfront
      refine ⟨rfl, ?_⟩
      cases inside with
      | nil => simp at hslash
      | cons d ds =>
        obtain ⟨rfl, -⟩ := List.cons_prefix_cons.mp hslash
        rw [← htext]
        rfl

section Pieces

variable {c : Char} {cs gap after : List Char}

/-- A piece of a gap begins with a blank or with the mark of a comment. -/
theorem opens_of_gap (h : (munch c cs).piece = .gap) : isBlank c = true ∨ OpensComment c cs := by
  by_contra hne
  obtain ⟨hblank, hcomment⟩ := not_or.mp hne
  rw [munch_eq (by simpa using hblank) hcomment] at h
  cases ho : opener c with
  | quote =>
    simp only [ho] at h
    unfold munchString at h
    dsimp only at h
    split at h <;> cases h
  | digit =>
    obtain ⟨value, -, hmunch⟩ := munchNumber_eq_token (isDigit_of_opener ho) cs
    simp only [ho, hmunch] at h
    cases h
  | letter =>
    simp only [ho] at h
    cases h
  | sign =>
    simp only [ho] at h
    split at h <;> cases h

/-- **Every piece that is no token and no fault is part of a gap.** -/
theorem gap_munch (h : (munch c cs).piece = .gap) (hrest : (munch c cs).rest = gap ++ after)
    (hgap : Gap after gap) :
    (munch c cs).lead = [] ∧ Gap after ((munch c cs).body ++ gap) := by
  rcases opens_of_gap h with hblank | ⟨rfl, hhead⟩
  · rw [munch_blank hblank]
    exact ⟨rfl, Gap.blanks (isBlank_of_mem_blanks hblank) hgap⟩
  · obtain ⟨d, ds, rfl⟩ : ∃ d ds, cs = d :: ds := by
      cases cs with
      | nil => simp at hhead
      | cons d ds => exact ⟨d, ds, rfl⟩
    rw [List.head?_cons, Option.some.injEq, Option.some.injEq] at hhead
    rcases hhead with rfl | rfl
    · have hmunch : munch '/' ('/' :: ds) =
          ⟨.gap, [], '/' :: '/' :: ds.takeWhile (· ≠ '\n'), ds.dropWhile (· ≠ '\n')⟩ := rfl
      rw [hmunch] at hrest ⊢
      refine ⟨rfl, .line (fun hbreak => ?_) (fun c hc => ?_) hgap⟩
      · simpa using List.all_eq_true.mp List.all_takeWhile _ hbreak
      · have hstop := List.head?_dropWhile_not (fun c : Char => decide (c ≠ '\n')) ds
        rw [show ds.dropWhile (fun c : Char => decide (c ≠ '\n')) = gap ++ after from hrest,
          Option.mem_def.mp hc] at hstop
        simpa using hstop
    · have hmunch : munch '/' ('*' :: ds) = munchComment ds := rfl
      rw [hmunch] at h hrest ⊢
      unfold munchComment at h hrest ⊢
      cases hsplit : splitComment? ds with
      | none =>
        rw [hsplit] at h
        cases h
      | some parts =>
        obtain ⟨comment, rest⟩ := parts
        obtain ⟨inside, rfl, hfirst⟩ := splitComment?_first hsplit
        have hbody : '/' :: '*' :: (inside ++ ['*', '/']) ++ gap =
            '/' :: '*' :: (inside ++ '*' :: '/' :: gap) := by simp
        refine ⟨rfl, ?_⟩
        show Gap after ('/' :: '*' :: (inside ++ ['*', '/']) ++ gap)
        rw [hbody]
        exact .block hfirst hgap

end Pieces

/-! ### Tiles -/

/-- The lexemes `ws` and the gaps around them are the text `cs`, which starts at `offset`. -/
inductive Tiled : Nat → List Char → List Lexeme → Prop
  | done {offset : Nat} {gap : List Char} : Gap [] gap → Tiled offset gap []
  | lexeme {offset : Nat} {gap part rest : List Char} {t : Token} {ws : List Lexeme} :
      Gap (part ++ rest) gap → Tiled (offset + byteLength gap + byteLength part) rest ws →
      Tiled offset (gap ++ (part ++ rest))
        (⟨t, ⟨offset + byteLength gap, byteLength part⟩⟩ :: ws)

/-- The first gap may be longer. -/
theorem Tiled.prepend {offset : Nat} {front cs : List Char} {ws : List Lexeme}
    (hfront : ∀ gap after, cs = gap ++ after → Gap after gap → Gap after (front ++ gap))
    (h : Tiled (offset + byteLength front) cs ws) : Tiled offset (front ++ cs) ws := by
  generalize hstart : offset + byteLength front = start at h
  cases h with
  | done hgap => exact .done (hfront cs [] (List.append_nil cs).symm hgap)
  | @lexeme _ gap part rest t ws hgap hrest =>
    have hend : offset + byteLength (front ++ gap) = start + byteLength gap := by
      rw [byteLength_append, ← hstart, Nat.add_assoc]
    rw [← List.append_assoc front, ← hend]
    refine .lexeme (hfront gap _ rfl hgap) ?_
    rwa [hend]

/-- A text without lexical errors is made up of its lexemes and of gaps. -/
theorem tiled_scanFrom (cs : List Char) : ∀ offset ws, scanFrom offset cs = ws.map .ok →
    Tiled offset cs ws := by
  induction cs using munch_induction with
  | nil =>
    intro offset ws h
    rw [scanFrom, eq_comm, List.map_eq_nil_iff] at h
    rw [h]
    exact .done .nil
  | cons c cs ih =>
    intro offset ws h
    have htext := text_munch c cs
    rw [scanFrom_cons, Munch.scanned?] at h
    cases hpiece : (munch c cs).piece with
    | gap =>
      have hlead : (munch c cs).lead = [] :=
        (gap_munch hpiece (List.nil_append (munch c cs).rest).symm .nil).1
      rw [Munch.text, hlead, List.nil_append] at htext
      rw [hpiece, hlead] at h
      rw [← htext]
      exact (ih _ ws h).prepend fun gap after hrest hgap => (gap_munch hpiece hrest hgap).2
    | token t =>
      have hlead := (spelledBy_munch hpiece).1
      rw [Munch.text, hlead, List.nil_append] at htext
      rw [hpiece, hlead] at h
      cases ws with
      | nil => cases h
      | cons w ws =>
        obtain ⟨hw, hws⟩ := List.cons.inj h
        cases hw
        rw [← htext]
        exact .lexeme .nil (ih _ ws hws)
    | fault fault =>
      rw [hpiece] at h
      cases ws <;> cases h

/-! ### The spans of the lexemes -/

/-- Between the two spans there is nothing but a gap of the text. -/
def GapBetween (text : List Char) (s t : Span) : Prop :=
  ∃ before gap after, text = before ++ (gap ++ after) ∧ s.stop = byteLength before ∧
    t.start = byteLength (before ++ gap) ∧ Gap after gap

/-- The spans of what was scanned, and the empty one at the end of the text. -/
def spansTo (stop : Nat) (spans : List Span) : List Span :=
  spans ++ [Span.emptyAt stop]

theorem Tiled.isChain {offset : Nat} {cs : List Char} {ws : List Lexeme} (h : Tiled offset cs ws) :
    ∀ (before : List Char) (s : Span), offset = byteLength before → s.stop = offset →
      (s :: spansTo (byteLength (before ++ cs)) (ws.map Lexeme.span)).IsChain
        (GapBetween (before ++ cs)) := by
  induction h with
  | @done offset gap hgap =>
    intro before s hoffset hstop
    refine .cons_cons ⟨before, gap, [], ?_, hstop.trans hoffset, rfl, hgap⟩ (.singleton _)
    rw [List.append_nil]
  | @lexeme offset gap part rest t ws hgap _ ih =>
    intro before s hoffset hstop
    have htext : before ++ (gap ++ (part ++ rest)) = before ++ gap ++ part ++ rest := by simp
    have hend : offset + byteLength gap + byteLength part =
        byteLength (before ++ gap ++ part) := by simp [hoffset, Nat.add_assoc]
    have hlater := ih (before ++ gap ++ part) ⟨offset + byteLength gap, byteLength part⟩ hend rfl
    rw [← htext] at hlater
    refine .cons_cons ⟨before, gap, part ++ rest, rfl, hstop.trans hoffset, ?_, hgap⟩ hlater
    simp [hoffset]

/-- What is scanned of a text follows each other up to its end. -/
theorem pairwise_spans (text : String) :
    (spansTo text.utf8ByteSize ((scan text).map Scanned.span)).Pairwise
      fun s t => s.stop ≤ t.start := by
  rw [spansTo, List.pairwise_append, List.pairwise_map]
  refine ⟨scan_ordered text, List.pairwise_singleton _ _, fun s hs t ht => ?_⟩
  obtain ⟨item, hitem, rfl⟩ := List.mem_map.mp hs
  obtain rfl := List.mem_singleton.mp ht
  have hwithin := (scanFrom_within text.toList 0 item hitem).2
  rw [utf8ByteSize_eq_byteLength]
  simpa [Span.emptyAt] using hwithin

/-- The lexemes of a text are not empty and follow each other, the text has nothing but gaps around
them, and each is the longest lexeme where it stands. The end of the text counts as an empty lexeme
behind the last. -/
structure TiledBy (text : String) (ws : List Lexeme) : Prop where
  length_pos : ∀ w ∈ ws, 0 < w.span.length
  ordered : (spansTo text.utf8ByteSize (ws.map Lexeme.span)).Pairwise fun s t => s.stop ≤ t.start
  gaps : (Span.emptyAt 0 :: spansTo text.utf8ByteSize (ws.map Lexeme.span)).IsChain
    (GapBetween text.toList)
  longest : ∀ w ∈ ws, ∃ before part rest, text.toList = before ++ (part ++ rest) ∧
    w.span = ⟨byteLength before, byteLength part⟩ ∧ LongestLexeme w.token part (part ++ rest)

theorem tiledBy_of_tokenize {text : String} {ws : List Lexeme} (h : tokenize text = .ok ws) :
    TiledBy text ws := by
  have hscan : scan text = ws.map .ok := tokenize_eq_ok.mp h
  refine ⟨fun w hw => (placed_of_tokenize h hw).length_pos, ?_, ?_, fun w hw => ?_⟩
  · have hpairwise := pairwise_spans text
    rw [hscan, List.map_map] at hpairwise
    exact hpairwise
  · rw [utf8ByteSize_eq_byteLength]
    exact (tiled_scanFrom text.toList 0 ws hscan).isChain [] (.emptyAt 0) rfl rfl
  · refine longest_of_mem_scan ?_
    rw [hscan]
    exact List.mem_map_of_mem hw

/-- **Reading a text loses nothing but gaps, and takes the longest lexemes.** If a text has no
lexical error, its lexemes and gaps make it up, and every lexeme is as long as it can be. In every
text, also one with errors, no number is at fault, and whatever is scanned stands behind what was
scanned before. -/
theorem lexemes_tile_text (text : String) :
    (∀ ws, tokenize text = .ok ws → TiledBy text ws) ∧
      (∀ e, .error e ∈ scan text → ∀ number, e.fault ≠ .invalidNumber number) ∧
      (spansTo text.utf8ByteSize ((scan text).map Scanned.span)).Pairwise
        fun s t => s.stop ≤ t.start :=
  ⟨fun _ => tiledBy_of_tokenize, fun _ => not_invalidNumber_of_mem_scan, pairwise_spans text⟩

/-- The theorem at a text in which each lexeme but the last could be taken for a shorter one. -/
theorem lexemes_tile_text_mixed : ∃ ws,
    tokenize "a>>=1._5.lets/***/!== 'x'//" = .ok ws ∧
      ws.map Lexeme.token = [.identifier "a", .punctuator .rightShift, .punctuator .equal,
        .number (.finite false 0x18000000000000 (-52)), .punctuator .dot, .identifier "lets",
        .punctuator .notEqualEqual, .string "x"] ∧
      TiledBy "a>>=1._5.lets/***/!== 'x'//" ws := by
  have htokens : (tokenize "a>>=1._5.lets/***/!== 'x'//").toOption.map (List.map Lexeme.token) =
      some [.identifier "a", .punctuator .rightShift, .punctuator .equal,
        .number (.finite false 0x18000000000000 (-52)), .punctuator .dot, .identifier "lets",
        .punctuator .notEqualEqual, .string "x"] := by
    decide +kernel
  cases h : tokenize "a>>=1._5.lets/***/!== 'x'//" with
  | error e => simp [h, Except.toOption] at htokens
  | ok ws =>
    refine ⟨ws, rfl, ?_, (lexemes_tile_text _).1 ws h⟩
    simpa [h, Except.toOption] using htokens

end ScriptLint
