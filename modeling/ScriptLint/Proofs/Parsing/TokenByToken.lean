import ScriptLint.Proofs.Parsing.Run
import ScriptLint.Proofs.Token.Partial
/-!
# Taking the tokens one by one

A reader need not scan the whole text before it begins. It can ask for what
is met next whenever it moves on: gaps are passed over for as long as there
are any, and lexical errors are collected up to the next lexeme. Neither of
the two repetitions counts anything. They are given by rules, one for each
turn that they can take, so it has to be shown that the rules always lead
somewhere. They do, because whatever is met takes at least one character of
the text; and a reader that moves on in this way sees what a reader of the
scanned text sees.

Key definitions: `NextItem`, `Parse.NextLexeme`, `Parse.State.HasMet`.
Key theorems: `nextItem_cases`, `Parse.nextLexeme_iff`, `Parse.State.HasMet.advance`.
-/

namespace ScriptLint

/-- A token or a lexical error that was met in a text, where it ends, and what follows it. -/
structure Met (α : Type) where
  item : α
  stop : Nat
  rest : List Char

/-- What is met next in a text that goes on from `offset` with the given characters: nothing at its
end, else what the first piece is, or what is met behind it if that is a gap. -/
inductive NextItem : Nat → List Char → Option (Met Scanned) → Prop
  | finished {offset : Nat} : NextItem offset [] none
  | item {offset : Nat} {c : Char} {cs : List Char} {item : Scanned}
      (hitem : (munch c cs).scanned? offset = some item) :
      NextItem offset (c :: cs) (some ⟨item, (munch c cs).next offset, (munch c cs).rest⟩)
  | gap {offset : Nat} {c : Char} {cs : List Char} {next : Option (Met Scanned)}
      (hgap : (munch c cs).scanned? offset = none)
      (hnext : NextItem ((munch c cs).next offset) (munch c cs).rest next) :
      NextItem offset (c :: cs) next

theorem nextItem_nil {offset : Nat} {r : Option (Met Scanned)} :
    NextItem offset [] r ↔ r = none := by
  constructor
  · rintro ⟨⟩
    rfl
  · rintro rfl
    exact .finished

theorem nextItem_cons {offset : Nat} {c : Char} {cs : List Char} {r : Option (Met Scanned)} :
    NextItem offset (c :: cs) r ↔
      match (munch c cs).scanned? offset with
      | some item => r = some ⟨item, (munch c cs).next offset, (munch c cs).rest⟩
      | none => NextItem ((munch c cs).next offset) (munch c cs).rest r := by
  constructor
  · intro h
    cases h with
    | item hitem => rw [hitem]
    | gap hgap hnext =>
      rw [hgap]
      exact hnext
  · intro h
    cases hitem : (munch c cs).scanned? offset with
    | some item =>
      rw [hitem] at h
      exact h ▸ .item hitem
    | none =>
      rw [hitem] at h
      exact .gap hitem h

/-- At least one character is taken before what is met ends, and the rest of the text is left. -/
def Met.Takes {α : Type} (met : Met α) (offset : Nat) (cs : List Char) : Prop :=
  ∃ taken, taken ≠ [] ∧ cs = taken ++ met.rest ∧ met.stop = offset + byteLength taken

/-- What is met behind something else takes all the more characters from there on. -/
theorem Met.Takes.behind {α β : Type} {met : Met α} {first : Met β} {offset : Nat}
    {cs : List Char} (h : met.Takes first.stop first.rest) (hfirst : first.Takes offset cs) :
    met.Takes offset cs := by
  obtain ⟨front, hfront, rfl, hstop⟩ := hfirst
  obtain ⟨back, -, hback, hend⟩ := h
  refine ⟨front ++ back, by simp [hfront], by rw [hback, List.append_assoc], ?_⟩
  rw [hend, hstop, byteLength_append, Nat.add_assoc]

theorem Met.Takes.length_lt {α : Type} {met : Met α} {offset : Nat} {cs : List Char}
    (h : met.Takes offset cs) : met.rest.length < cs.length := by
  obtain ⟨taken, hne, rfl, -⟩ := h
  have := List.length_pos_iff.mpr hne
  rw [List.length_append]
  omega

/-- A piece takes at least one character. -/
theorem takes_munch {α : Type} (item : α) (offset : Nat) (c : Char) (cs : List Char) :
    (⟨item, (munch c cs).next offset, (munch c cs).rest⟩ : Met α).Takes offset (c :: cs) := by
  refine ⟨(munch c cs).lead ++ (munch c cs).body, by simp [body_munch_ne_nil], ?_, ?_⟩
  · rw [List.append_assoc]
    exact (text_munch c cs).symm
  · rw [byteLength_append, ← Nat.add_assoc]
    rfl

/-- **Something definite is always met next.** It is the first thing that is scanned from here on,
with at least one character, and at the end of the text there is none. -/
theorem nextItem_cases (cs : List Char) : ∀ offset,
    (∀ r, NextItem offset cs r ↔ r = none) ∧ scanFrom offset cs = [] ∨
      ∃ met, (∀ r, NextItem offset cs r ↔ r = some met) ∧ met.Takes offset cs ∧
        scanFrom offset cs = met.item :: scanFrom met.stop met.rest := by
  induction cs using munch_induction with
  | nil => exact fun offset => .inl ⟨fun _ => nextItem_nil, by simp [scanFrom]⟩
  | cons c cs ih =>
    intro offset
    simp only [nextItem_cons]
    rw [scanFrom_cons, ← Munch.next]
    cases hitem : (munch c cs).scanned? offset with
    | some item => exact .inr ⟨_, fun _ => Iff.rfl, takes_munch item offset c cs, rfl⟩
    | none =>
      -- a gap takes its characters and adds nothing
      obtain hend | ⟨met, hnext, hmet, hscan⟩ := ih ((munch c cs).next offset)
      · exact .inl hend
      · exact .inr ⟨met, hnext, hmet.behind (takes_munch () offset c cs), hscan⟩

namespace Parse

/-- The next lexeme, if there is one, and the lexical errors that are met in front of it. -/
inductive NextLexeme : Nat → List Char → List LexicalError → Option (Met Lexeme) → Prop
  | finished {offset : Nat} {cs : List Char} (hitem : NextItem offset cs none) :
      NextLexeme offset cs [] none
  | lexeme {offset stop : Nat} {cs rest : List Char} {w : Lexeme}
      (hitem : NextItem offset cs (some ⟨.ok w, stop, rest⟩)) :
      NextLexeme offset cs [] (some ⟨w, stop, rest⟩)
  | error {offset stop : Nat} {cs rest : List Char} {e : LexicalError} {errors : List LexicalError}
      {next : Option (Met Lexeme)} (hitem : NextItem offset cs (some ⟨.error e, stop, rest⟩))
      (hnext : NextLexeme stop rest errors next) : NextLexeme offset cs (e :: errors) next

section

variable {offset stop : Nat} {cs rest : List Char} {errors : List LexicalError}
  {r : Option (Met Lexeme)}

theorem nextLexeme_of_none (hitem : ∀ r, NextItem offset cs r ↔ r = none) :
    NextLexeme offset cs errors r ↔ errors = [] ∧ r = none := by
  constructor
  · intro h
    cases h with
    | finished h => exact ⟨rfl, rfl⟩
    | lexeme h => simp [hitem] at h
    | error h _ => simp [hitem] at h
  · rintro ⟨rfl, rfl⟩
    exact .finished ((hitem _).mpr rfl)

theorem nextLexeme_of_ok {w : Lexeme}
    (hitem : ∀ r, NextItem offset cs r ↔ r = some ⟨.ok w, stop, rest⟩) :
    NextLexeme offset cs errors r ↔ errors = [] ∧ r = some ⟨w, stop, rest⟩ := by
  constructor
  · intro h
    cases h with
    | finished h => simp [hitem] at h
    | lexeme h =>
      cases (hitem _).mp h
      exact ⟨rfl, rfl⟩
    | error h _ => simp [hitem] at h
  · rintro ⟨rfl, rfl⟩
    exact .lexeme ((hitem _).mpr rfl)

theorem nextLexeme_of_error {e : LexicalError}
    (hitem : ∀ r, NextItem offset cs r ↔ r = some ⟨.error e, stop, rest⟩) :
    NextLexeme offset cs errors r ↔ ∃ later, errors = e :: later ∧ NextLexeme stop rest later r := by
  constructor
  · intro h
    cases h with
    | finished h => simp [hitem] at h
    | lexeme h => simp [hitem] at h
    | error h hnext =>
      cases (hitem _).mp h
      exact ⟨_, rfl, hnext⟩
  · rintro ⟨later, rfl, hnext⟩
    exact .error ((hitem _).mpr rfl) hnext

end

/-- What is ahead of a reader that has met this. -/
def aheadOf : Option (Met Lexeme) → List Scanned
  | none => []
  | some met => .ok met.item :: scanFrom met.stop met.rest

/-- **Every run of lexical errors ends,** at a lexeme or at the end of the text. -/
theorem nextLexeme_iff (offset : Nat) (cs : List Char) : ∃ next,
    (∀ errors r, NextLexeme offset cs errors r ↔
      errors = leadingErrors (scanFrom offset cs) ∧ r = next) ∧
      dropErrors (scanFrom offset cs) = aheadOf next ∧ ∀ met ∈ next, met.Takes offset cs := by
  -- by induction on what is left of the text, of which every error takes a character
  induction hn : cs.length using Nat.strongRecOn generalizing offset cs with
  | ind n ih =>
    obtain ⟨hitem, hscan⟩ | ⟨⟨item, stop, rest⟩, hitem, hmet, hscan⟩ := nextItem_cases cs offset
    · rw [hscan]
      exact ⟨none, fun _ _ => nextLexeme_of_none hitem, rfl, by simp⟩
    · rw [hscan]
      cases item with
      | ok w =>
        refine ⟨some ⟨w, stop, rest⟩, fun _ _ => nextLexeme_of_ok hitem, rfl, ?_⟩
        rintro _ ⟨⟩
        exact hmet
      | error e =>
        obtain ⟨next, hlater, hahead, htakes⟩ := ih rest.length (hn ▸ hmet.length_lt) stop rest rfl
        refine ⟨next, fun errors r => ?_, hahead, fun met h => (htakes met h).behind hmet⟩
        rw [nextLexeme_of_error hitem]
        simp only [hlater, leadingErrors]
        constructor
        · rintro ⟨_, rfl, rfl, rfl⟩
          exact ⟨rfl, rfl⟩
        · rintro ⟨rfl, rfl⟩
          exact ⟨_, rfl, rfl, rfl⟩

namespace State

/-- The reader has met this, and the text behind it has not been looked at. -/
def HasMet (s : State) (next : Option (Met Lexeme)) : Prop :=
  s.ahead = aheadOf next

/-- At the start of a text the reader has met what comes first. -/
theorem hasMet_ofText (text : String) : ∃ errors next,
    NextLexeme 0 text.toList errors next ∧ (ofText text).HasMet next ∧
      (ofText text).log = (errors.map SyntaxError.ofLexical).reverse := by
  obtain ⟨next, hnext, hahead, -⟩ := nextLexeme_iff 0 text.toList
  exact ⟨_, next, (hnext _ _).mpr ⟨rfl, rfl⟩, hahead, List.append_nil _⟩

/-- **Moving on asks for one lexeme more,** and notes the lexical errors in front of it. -/
theorem HasMet.advance {s : State} {met : Met Lexeme} (h : s.HasMet (some met)) : ∃ errors next,
    NextLexeme met.stop met.rest errors next ∧ s.advance.HasMet next ∧
      s.advance.log = (errors.map SyntaxError.ofLexical).reverse ++ s.log := by
  obtain ⟨next, hnext, hahead, -⟩ := nextLexeme_iff met.stop met.rest
  have hadvance : s.advance = settle { s with
      ahead := scanFrom met.stop met.rest, consumedTo := met.item.span.stop } := by
    rw [HasMet, aheadOf] at h
    simp only [State.advance, h]
  refine ⟨_, next, (hnext _ _).mpr ⟨rfl, rfl⟩, ?_, ?_⟩
  · rw [hadvance]
    exact hahead
  · rw [hadvance]
    rfl

end State

end Parse

end ScriptLint
