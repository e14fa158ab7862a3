import ScriptLint.Token.Scan
/-!
# Where the lexemes of a text stand

Lexemes and lexical errors follow each other in the text without
overlapping, and the slice of the text at a lexeme's span is what it was read
from. Where a lexeme serves as a name, that slice is the name.

Key definitions: `Scanned.span`, `Lexeme.Placed`.
Key theorems: `scan_ordered`, `placed_of_mem_scan`, `tokenize_eq_ok`.
-/

namespace ScriptLint

/-- Where a token or a lexical error stands. -/
def Scanned.span : Scanned → Span
  | .ok w => w.span
  | .error e => e.span

/-- The lexeme is a part of the text, and the part is the name if it serves as one. -/
def Lexeme.Placed (w : Lexeme) (text : List Char) : Prop :=
  ∃ before part after, text = before ++ (part ++ after) ∧
    w.span = ⟨byteLength before, byteLength part⟩ ∧ part ≠ [] ∧
    ∀ name, w.token.name? = some name → part = name.toList

/-! ### Words -/

theorem Keyword.ofSpelling?_eq_some {text : String} {word : Keyword}
    (h : Keyword.ofSpelling? text = some word) : word.spelling = text := by
  simpa using List.find?_some h

/-- A word that serves as a name is that name. -/
theorem Token.name?_ofWord {text name : String} (h : (Token.ofWord text).name? = some name) :
    name = text := by
  unfold Token.ofWord at h
  split at h
  next word hword =>
    simp only [Token.name?] at h
    split at h
    · rw [← Keyword.ofSpelling?_eq_some hword]
      exact (Option.some.inj h).symm
    · cases h
  next => exact (Option.some.inj h).symm

/-- The piece of a text that is a name is read from just that name. -/
theorem body_munch_eq {c : Char} {cs : List Char} {token : Token} {name : String}
    (h : (munch c cs).piece = .token token) (hname : token.name? = some name) :
    (munch c cs).body = name.toList := by
  unfold munch at h ⊢
  split at h
  · cases h
  split at h
  · cases h
  split at h
  · unfold munchComment at h
    split at h <;> cases h
  split at h
  · unfold munchString at h
    simp only at h
    split at h
    · cases h
      simp [Token.name?] at hname
    · cases h
    · cases h
  split at h
  · unfold munchNumber at h
    simp only at h
    split at h
    · cases h
      simp [Token.name?] at hname
    · cases h
  split at h
  next h1 h2 h3 h4 h5 h6 =>
    cases h
    simp only [h1, h2, h3, h4, h5, h6]
    rw [Token.name?_ofWord hname]
    simp
  next =>
    split at h
    · cases h
      simp [Token.name?] at hname
    · cases h

/-! ### Pieces -/

namespace Munch

/-- What a piece adds to what is scanned, when the text before it ends at `offset`. -/
def scanned? (offset : Nat) (m : Munch) : Option Scanned :=
  match m.piece with
  | .gap => none
  | .token token => some (.ok ⟨token, ⟨offset + byteLength m.lead, byteLength m.body⟩⟩)
  | .fault fault => some (.error ⟨fault, ⟨offset + byteLength m.lead, byteLength m.body⟩⟩)

theorem span_scanned? {offset : Nat} {m : Munch} {item : Scanned}
    (h : m.scanned? offset = some item) :
    item.span = ⟨offset + byteLength m.lead, byteLength m.body⟩ := by
  unfold scanned? at h
  split at h <;> cases h <;> rfl

end Munch

theorem scanFrom_cons (offset : Nat) (c : Char) (cs : List Char) :
    scanFrom offset (c :: cs) = ((munch c cs).scanned? offset).toList ++
      scanFrom (offset + byteLength (munch c cs).lead + byteLength (munch c cs).body)
        (munch c cs).rest := by
  rw [scanFrom]
  unfold Munch.scanned?
  split <;> simp_all [Span.stop]

/-- A blank begins a row of blanks, and the row is a gap. -/
theorem munch_blank {c : Char} {cs : List Char} (h : isBlank c = true) :
    munch c cs = ⟨.gap, [], c :: cs.takeWhile isBlank, cs.dropWhile isBlank⟩ := by
  rw [munch, if_pos h]

theorem isBlank_of_mem_blanks {c : Char} {cs : List Char} (h : isBlank c = true) :
    ∀ b ∈ c :: cs.takeWhile isBlank, isBlank b = true :=
  List.forall_mem_cons.mpr ⟨h, fun b hb => List.all_eq_true.mp List.all_takeWhile b hb⟩

/-- A fault is listed among the errors. -/
theorem exists_error_of_fault {c : Char} {cs : List Char} {fault : Fault}
    (h : (munch c cs).piece = .fault fault) (offset : Nat) :
    ∃ e, .error e ∈ scanFrom offset (c :: cs) := by
  have hitem : (munch c cs).scanned? offset = some (.error
      ⟨fault, ⟨offset + byteLength (munch c cs).lead, byteLength (munch c cs).body⟩⟩) := by
    simp only [Munch.scanned?, h]
  rw [scanFrom_cons]
  exact ⟨_, List.mem_append_left _ (Option.mem_toList.mpr hitem)⟩

theorem byteLength_munch (c : Char) (cs : List Char) :
    byteLength (munch c cs).lead + byteLength (munch c cs).body + byteLength (munch c cs).rest
      = byteLength (c :: cs) := by
  rw [← text_munch c cs, Munch.text, byteLength_append, byteLength_append, Nat.add_assoc]

/-- Induction along the pieces of a text. -/
theorem munch_induction {P : List Char → Prop} (nil : P [])
    (cons : ∀ c cs, P (munch c cs).rest → P (c :: cs)) : ∀ cs, P cs
  | [] => nil
  | c :: cs => cons c cs (munch_induction nil cons (munch c cs).rest)
termination_by cs => cs.length
decreasing_by exact Nat.lt_succ_of_le (length_rest_munch_le c cs)

/-! ### Order -/

/-- Nothing is scanned outside of the text. -/
theorem scanFrom_within (cs : List Char) : ∀ offset, ∀ item ∈ scanFrom offset cs,
    offset ≤ item.span.start ∧ item.span.stop ≤ offset + byteLength cs := by
  induction cs using munch_induction with
  | nil => simp [scanFrom]
  | cons c cs ih =>
    intro offset item hitem
    have hlen := byteLength_munch c cs
    rw [scanFrom_cons, List.mem_append, Option.mem_toList] at hitem
    rcases hitem with hitem | hitem
    · rw [Munch.span_scanned? hitem]
      simp only [Span.stop]
      omega
    · have := ih _ item hitem
      omega

/-- What is scanned later stands behind what is scanned before. -/
theorem scanFrom_ordered (cs : List Char) : ∀ offset,
    (scanFrom offset cs).Pairwise fun x y => x.span.stop ≤ y.span.start := by
  induction cs using munch_induction with
  | nil => simp [scanFrom]
  | cons c cs ih =>
    intro offset
    rw [scanFrom_cons, List.pairwise_append]
    refine ⟨?_, ih _, fun x hx y hy => ?_⟩
    · cases (munch c cs).scanned? offset <;> simp
    · rw [Munch.span_scanned? (Option.mem_toList.mp hx)]
      exact (scanFrom_within _ _ y hy).1

/-! ### Slices -/

theorem scanFrom_placed (cs : List Char) : ∀ before w,
    .ok w ∈ scanFrom (byteLength before) cs → w.Placed (before ++ cs) := by
  induction cs using munch_induction with
  | nil => simp [scanFrom]
  | cons c cs ih =>
    intro before w hw
    have htext : c :: cs = (munch c cs).lead ++ ((munch c cs).body ++ (munch c cs).rest) :=
      (text_munch c cs).symm
    rw [scanFrom_cons, List.mem_append, Option.mem_toList] at hw
    rcases hw with hw | hw
    · refine ⟨before ++ (munch c cs).lead, (munch c cs).body, (munch c cs).rest, ?_, ?_, ?_, ?_⟩
      · rw [htext, List.append_assoc]
      · rw [byteLength_append]
        exact Munch.span_scanned? hw
      · exact body_munch_ne_nil c cs
      · intro name hname
        refine body_munch_eq ?_ hname
        unfold Munch.scanned? at hw
        split at hw
        · cases hw
        · cases hw
          assumption
        · cases hw
    · rw [← byteLength_append, ← byteLength_append] at hw
      have := ih _ w hw
      rw [htext]
      simpa only [List.append_assoc] using this

/-- **The lexemes of a text follow each other.** -/
theorem scan_ordered (text : String) :
    (scan text).Pairwise fun x y => x.span.stop ≤ y.span.start :=
  scanFrom_ordered _ _

/-- **A lexeme is the slice of the text at its span.** -/
theorem placed_of_mem_scan {text : String} {w : Lexeme} (h : .ok w ∈ scan text) :
    w.Placed text.toList :=
  scanFrom_placed text.toList [] w h

namespace Lexeme.Placed

variable {w : Lexeme} {text : List Char}

theorem length_pos (h : w.Placed text) : 0 < w.span.length := by
  obtain ⟨before, part, after, -, hspan, hne, -⟩ := h
  rw [hspan]
  cases part with
  | nil => exact absurd rfl hne
  | cons c cs => exact Nat.lt_of_lt_of_le c.utf8Size_pos (Nat.le_add_right _ _)

theorem stop_le (h : w.Placed text) : w.span.stop ≤ byteLength text := by
  obtain ⟨before, part, after, rfl, hspan, -, -⟩ := h
  rw [hspan]
  simp only [Span.stop, byteLength_append]
  omega

theorem slice?_eq (h : w.Placed text) {name : String} (hname : w.token.name? = some name) :
    slice? w.span text = some name.toList := by
  obtain ⟨before, part, after, rfl, hspan, -, hpart⟩ := h
  rw [hspan, ← hpart name hname]
  exact slice?_append before part after

end Lexeme.Placed

/-! ### Texts without lexical errors -/

theorem mapM_id_eq_ok {items : List Scanned} {ws : List Lexeme} :
    items.mapM id = .ok ws ↔ items = ws.map .ok := by
  induction items generalizing ws with
  | nil => cases ws <;> simp [pure, Except.pure]
  | cons item items ih =>
    rw [List.mapM_cons]
    cases item with
    | error e => cases ws <;> simp [bind, Except.bind]
    | ok w =>
      cases ws with
      | nil => cases items.mapM id <;> simp [bind, Except.bind, pure, Except.pure]
      | cons v vs =>
        rw [List.map_cons, List.cons.injEq, ← ih]
        cases items.mapM id <;> simp [bind, Except.bind, pure, Except.pure]

/-- A text has tokens just if all that is scanned is a token. -/
theorem tokenize_eq_ok {text : String} {ws : List Lexeme} :
    tokenize text = .ok ws ↔ scan text = ws.map .ok :=
  mapM_id_eq_ok

/-- The lexemes of a text follow each other. -/
theorem ordered_of_tokenize {text : String} {ws : List Lexeme} (h : tokenize text = .ok ws) :
    ws.Pairwise fun v w => v.span.stop ≤ w.span.start := by
  have := scan_ordered text
  rw [tokenize_eq_ok.mp h] at this
  exact List.pairwise_map.mp this

theorem placed_of_tokenize {text : String} {ws : List Lexeme} (h : tokenize text = .ok ws)
    {w : Lexeme} (hw : w ∈ ws) : w.Placed text.toList := by
  refine placed_of_mem_scan ?_
  rw [tokenize_eq_ok.mp h]
  exact List.mem_map_of_mem hw

/-- Each lexeme of a text starts behind the start of the one before. -/
theorem starts_of_tokenize {text : String} {ws : List Lexeme} (h : tokenize text = .ok ws) :
    ws.Pairwise fun v w => v.span.start < w.span.start := by
  refine (List.Pairwise.and_mem.mp (ordered_of_tokenize h)).imp fun {v w} hvw => ?_
  have hpos := (placed_of_tokenize h hvw.1).length_pos
  have hle := hvw.2.2
  simp only [Span.stop] at hle
  omega

end ScriptLint
