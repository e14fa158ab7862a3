import Mathlib.Data.List.Forall2
import ScriptLint.Proofs.Token.Joining
import ScriptLint.Proofs.Token.Tiling
/-!
# Lexemes with other gaps between them

A lexeme depends on nothing but its own characters, as long as what stands
behind it closes it. So the lexemes of a text can be taken out of it, each
alone is the same token, and with any blanks between them they are the same
tokens again.

Key definitions: `spaced`.
Key theorems: `scanFrom_spelled`, `scanFrom_spaced`, `tokenize_spaced`.
-/

namespace ScriptLint

/-! ### One lexeme -/

section Lexeme

variable {t : Token} {c : Char} {cs part : List Char}

theorem Token.SpelledBy.longest (h : t.SpelledBy part) : LongestLexeme t part part :=
  ⟨h, List.prefix_refl part, fun _ _ _ hfront => hfront.length_le⟩

/-- The signs that could open a comment with what follows are no signs. -/
theorem Token.SpelledBy.not_opensComment (h : t.SpelledBy (c :: cs)) : ¬OpensComment c cs := by
  rintro ⟨rfl, hhead⟩
  have hlisted : t.ListedUnder '/' cs .sign := h.listedUnder
  obtain ⟨sign, hsign, -⟩ := hlisted
  have hslash : sign.spelling.toList.head? = some '/' → sign.spelling.toList.tail = [] := by
    cases sign <;> decide
  have htail := hslash (by rw [← hsign]; rfl)
  rw [← hsign, List.tail_cons] at htail
  simp [htail] at hhead

/-- **A lexeme in front of what closes it is read.** -/
theorem scanFrom_spelled (h : t.SpelledBy part) {after : List Char}
    (hafter : ∀ x ∈ after.head?, closes x = true) (offset : Nat) :
    scanFrom offset (part ++ after) =
      .ok ⟨t, ⟨offset, byteLength part⟩⟩ :: scanFrom (offset + byteLength part) after := by
  obtain ⟨c, cs, rfl⟩ := List.exists_cons_of_ne_nil h.ne_nil
  have hmunch := munch_append h.not_opensComment (List.append_nil _).symm h.longest hafter
  rw [List.cons_append, scanFrom_cons, hmunch]
  rfl

/-- A lexeme alone is a text of one token. -/
theorem tokenize_spelled (h : t.SpelledBy part) :
    tokenize (String.ofList part) = .ok [⟨t, ⟨0, byteLength part⟩⟩] := by
  have hclosed : ∀ x ∈ ([] : List Char).head?, closes x = true := by simp
  have hscan := scanFrom_spelled h hclosed 0
  rw [List.append_nil, scanFrom] at hscan
  rw [tokenize_eq_ok, scan, String.toList_ofList, hscan]
  rfl

end Lexeme

/-! ### Many lexemes -/

/-- The parts with the given gaps in front of them, and a gap behind the last. -/
def spaced : List (List Char) → List (List Char) → List Char → List Char
  | gap :: gaps, part :: parts, trail => gap ++ (part ++ spaced gaps parts trail)
  | [], _, trail => trail
  | _ :: _, [], trail => trail

/-- Blanks only. -/
def AllBlank (gap : List Char) : Prop :=
  ∀ c ∈ gap, isBlank c = true

section Spaced

variable {gaps parts : List (List Char)} {trail : List Char}

/-- Where no gap is empty, a blank comes first. -/
theorem isBlank_head_spaced (hblank : ∀ gap ∈ gaps, AllBlank gap) (hne : ∀ gap ∈ gaps, gap ≠ [])
    (htrail : AllBlank trail) : ∀ x ∈ (spaced gaps parts trail).head?, isBlank x = true := by
  intro x hx
  cases gaps with
  | nil => exact htrail x (List.mem_of_mem_head? hx)
  | cons gap gaps =>
    cases parts with
    | nil => exact htrail x (List.mem_of_mem_head? hx)
    | cons part parts =>
      obtain ⟨b, bs, rfl⟩ := List.exists_cons_of_ne_nil (hne gap (by simp))
      obtain rfl : b = x := Option.some.inj hx
      exact hblank (b :: bs) (by simp) b (by simp)

/-- **Lexemes with blanks between them are their tokens.** -/
theorem scanFrom_spaced {ts : List Token} (hspelled : List.Forall₂ Token.SpelledBy ts parts)
    (hlength : gaps.length = parts.length) (hblank : ∀ gap ∈ gaps, AllBlank gap)
    (hne : ∀ gap ∈ gaps.tail, gap ≠ []) (htrail : AllBlank trail) :
    ∀ offset, ∃ ws : List Lexeme,
      scanFrom offset (spaced gaps parts trail) = ws.map .ok ∧ ws.map Lexeme.token = ts := by
  induction hspelled generalizing gaps with
  | nil =>
    intro offset
    obtain rfl := List.eq_nil_of_length_eq_zero hlength
    refine ⟨[], ?_, rfl⟩
    have hscan := scanFrom_blanks htrail offset []
    rw [List.append_nil, scanFrom] at hscan
    exact hscan
  | @cons t part ts parts ht _ ih =>
    intro offset
    obtain ⟨gap, gaps, rfl⟩ := List.exists_cons_of_length_eq_add_one hlength
    have hlater : ∀ g ∈ gaps, AllBlank g := fun g hg => hblank g (List.mem_cons_of_mem gap hg)
    have hclosed : ∀ x ∈ (spaced gaps parts trail).head?, closes x = true := fun x hx =>
      closes_of_isBlank (isBlank_head_spaced hlater hne htrail x hx)
    obtain ⟨ws, hscan, htokens⟩ := ih (Nat.succ.inj hlength) hlater
      (fun g hg => hne g (List.mem_of_mem_tail hg)) (offset + byteLength gap + byteLength part)
    refine ⟨⟨t, ⟨offset + byteLength gap, byteLength part⟩⟩ :: ws, ?_, ?_⟩
    · rw [spaced, scanFrom_blanks (hblank gap (by simp)), scanFrom_spelled ht hclosed, hscan]
      rfl
    · rw [List.map_cons, htokens]

end Spaced

/-! ### The lexemes of a text -/

/-- The characters at the spans of the lexemes spell their tokens. -/
theorem exists_parts {text : String} {ws : List Lexeme} (h : tokenize text = .ok ws) :
    ∃ parts : List (List Char), ws.map (fun w => slice? w.span text.toList) = parts.map some ∧
      List.Forall₂ (fun w part => w.token.SpelledBy part) ws parts := by
  have hpart : ∀ w ∈ ws, ∃ part, slice? w.span text.toList = some part ∧ w.token.SpelledBy part := by
    intro w hw
    obtain ⟨before, part, rest, htext, hspan, hlongest⟩ := (tiledBy_of_tokenize h).longest w hw
    refine ⟨part, ?_, hlongest.spelledBy⟩
    rw [hspan, htext, slice?_append]
  clear h
  induction ws with
  | nil => exact ⟨[], rfl, .nil⟩
  | cons w ws ih =>
    obtain ⟨part, hslice, hspelled⟩ := hpart w (by simp)
    obtain ⟨parts, hslices, hall⟩ := ih fun v hv => hpart v (List.mem_cons_of_mem w hv)
    exact ⟨part :: parts, by simp [hslice, hslices], .cons hspelled hall⟩

/-- **A text keeps its tokens when other blanks are put between its lexemes.** The lexemes of a
text without lexical errors are cut out of it. With blanks in front of them, of which only the
first may be none, and behind the last, they are a text with the same tokens; and each of them
alone is a text of its own token. -/
theorem tokenize_spaced {text : String} {ws : List Lexeme} (h : tokenize text = .ok ws) :
    ∃ parts : List (List Char), ws.map (fun w => slice? w.span text.toList) = parts.map some ∧
      (∀ gaps trail, gaps.length = parts.length → (∀ gap ∈ gaps, AllBlank gap) →
        (∀ gap ∈ gaps.tail, gap ≠ []) → AllBlank trail →
        ∃ us, tokenize (String.ofList (spaced gaps parts trail)) = .ok us ∧
          us.map Lexeme.token = ws.map Lexeme.token) ∧
      List.Forall₂ (fun w part =>
        tokenize (String.ofList part) = .ok [⟨w.token, ⟨0, byteLength part⟩⟩]) ws parts := by
  obtain ⟨parts, hslices, hspelled⟩ := exists_parts h
  refine ⟨parts, hslices, fun gaps trail hlength hblank hne htrail => ?_, ?_⟩
  · have htokens : List.Forall₂ Token.SpelledBy (ws.map Lexeme.token) parts :=
      List.forall₂_map_left_iff.mpr hspelled
    obtain ⟨us, hscan, hus⟩ := scanFrom_spaced htokens hlength hblank hne htrail 0
    refine ⟨us, ?_, hus⟩
    rw [tokenize_eq_ok, scan, String.toList_ofList, hscan]
  · exact hspelled.imp fun w part => tokenize_spelled

/-- The theorem at a text with a sign and a string that must not become a comment. -/
theorem tokenize_spaced_slashes : ∃ ws us, tokenize "a/'//'" = .ok ws ∧
    tokenize "\n a / '//'" = .ok us ∧ us.map Lexeme.token = ws.map Lexeme.token ∧
    tokenize "'//'" = .ok [⟨.string "//", ⟨0, 4⟩⟩] := by
  have hws : tokenize "a/'//'" = .ok [⟨.identifier "a", ⟨0, 1⟩⟩, ⟨.punctuator .slash, ⟨1, 1⟩⟩,
      ⟨.string "//", ⟨2, 4⟩⟩] := by
    decide +kernel
  obtain ⟨parts, hslices, hspaced, halone⟩ := tokenize_spaced hws
  have hparts : parts = [['a'], ['/'], ['\'', '/', '/', '\'']] := by
    have hmap : parts.map some = [['a'], ['/'], ['\'', '/', '/', '\'']].map some :=
      hslices.symm.trans (by decide +kernel)
    exact List.map_injective_iff.mpr (Option.some_injective _) hmap
  subst hparts
  obtain ⟨us, hus, htokens⟩ := hspaced [['\n', ' '], [' '], [' ']] [] rfl
    (by simp [AllBlank]; decide) (by simp) (by simp [AllBlank])
  cases halone with
  | cons _ halone =>
    cases halone with
    | cons _ halone =>
      cases halone with
      | cons hstring _ => exact ⟨_, us, hws, hus, htokens, hstring⟩

end ScriptLint
