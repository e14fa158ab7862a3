import ScriptLint.Proofs.Syntax.Derivation
import ScriptLint.Proofs.Syntax.Levels
/-!
# Types as they are written

The tree of a type has lost its parentheses, but the levels that are needed
to read a type depend on them: a pair of brackets holds its level until the
parentheses around it are closed. So the levels are counted along the row of
tokens. A counter goes up at each opening parenthesis and at each pair of
brackets, and at a closing parenthesis it goes back to where it was outside.
How high it climbs over a row is what the row needs, and where it ends is
what the row holds.

Key definitions: `MemberRow`, `UnionRow`, `Climb`, `climb`.
Key theorems: `TypeExpr.Spells.exists_row`, `UnionRow.climb_eq`, `tolls_need_le`.
-/

namespace ScriptLint

/-! ### Rows -/

/-- The token is a type of its own. -/
def Token.IsType (token : Token) : Prop :=
  token = .keyword .trueWord ∨ token = .keyword .falseWord ∨
    (Parse.typeKeyword? token).isSome = true ∨ ∃ name, token = .identifier name

/-- The row is a type that can be the member of a union or have brackets behind it, and reading it
takes the toll. -/
inductive MemberRow : List Token → Toll → Prop
  | word {token : Token} : token.IsType → MemberRow [token] .free
  | parenthesized {rows : List (List Token × Toll)} :
      rows ≠ [] → (∀ row ∈ rows, MemberRow row.1 row.2) →
      MemberRow (.punctuator .leftParen :: (joined .bar (rows.map Prod.fst) ++ [.punctuator .rightParen]))
        (tolls Prod.snd rows).within
  | array {ts : List Token} {c : Toll} :
      MemberRow ts c →
      MemberRow (ts ++ [.punctuator .leftBracket, .punctuator .rightBracket]) (c.andThen .level)

/-- The row is a type as it stands alone: members with bars between them. -/
inductive UnionRow : List Token → Toll → Prop
  | mk {rows : List (List Token × Toll)} :
      rows ≠ [] → (∀ row ∈ rows, MemberRow row.1 row.2) →
      UnionRow (joined .bar (rows.map Prod.fst)) (tolls Prod.snd rows)

theorem joined_append {sign : Punctuator} {rows : List (List Token)} (h : rows ≠ [])
    (more : List (List Token)) :
    joined sign (rows ++ more) = joined sign rows ++ more.flatMap (.punctuator sign :: ·) := by
  obtain ⟨ts, rows, rfl⟩ := List.exists_cons_of_ne_nil h
  simp [joined]

theorem flatMap_eq_joined {sign : Punctuator} {rows : List (List Token)} (h : rows ≠ []) :
    rows.flatMap (.punctuator sign :: ·) = .punctuator sign :: joined sign rows := by
  obtain ⟨ts, rows, rfl⟩ := List.exists_cons_of_ne_nil h
  simp [joined]

theorem tolls_append {α : Type} (toll : α → Toll) (as bs : List α) :
    tolls toll (as ++ bs) = (tolls toll as).andThen (tolls toll bs) := by
  induction as with
  | nil => ext <;> simp [tolls, Toll.free, Toll.andThen]
  | cons a as ih => rw [List.cons_append, tolls, ih, tolls, Toll.andThen_assoc]

namespace UnionRow

variable {ts us : List Token} {c d : Toll}

theorem one (h : MemberRow ts c) : UnionRow ts c := by
  have hrow : UnionRow (joined .bar ([(ts, c)].map Prod.fst)) (tolls Prod.snd [(ts, c)]) :=
    .mk (by simp) (by simpa using h)
  simpa [joined, tolls] using hrow

theorem append (h : UnionRow ts c) (h' : UnionRow us d) :
    UnionRow (ts ++ .punctuator .bar :: us) (c.andThen d) := by
  obtain ⟨hne, hrows⟩ := h
  obtain ⟨hne', hrows'⟩ := h'
  rw [← flatMap_eq_joined (by simpa using hne'), ← joined_append (by simpa using hne),
    ← List.map_append, ← tolls_append]
  refine .mk (by simp [hne]) fun row hrow => ?_
  rcases List.mem_append.mp hrow with hrow | hrow
  · exact hrows row hrow
  · exact hrows' row hrow

theorem parenthesized (h : UnionRow ts c) :
    MemberRow (.punctuator .leftParen :: (ts ++ [.punctuator .rightParen])) c.within := by
  obtain ⟨hne, hrows⟩ := h
  exact .parenthesized hne hrows

/-- Unions with bars between them are a union. -/
theorem join {β : Type} {tokens : β → List Token} {toll : β → Toll} {xs : List β} (hne : xs ≠ [])
    (h : ∀ x ∈ xs, UnionRow (tokens x) (toll x)) :
    UnionRow (joined .bar (xs.map tokens)) (tolls toll xs) := by
  induction xs with
  | nil => exact absurd rfl hne
  | cons x xs ih =>
    have hx := h x (by simp)
    by_cases hxs : xs = []
    · subst hxs
      simpa [joined, tolls] using hx
    · have hlater := ih hxs fun y hy => h y (List.mem_cons_of_mem x hy)
      rw [List.map_cons, joined, flatMap_eq_joined (by simpa using hxs), tolls]
      exact hx.append hlater

end UnionRow

/-! ### Semicolons -/

theorem eq_or_mem_of_mem_joined {sign : Punctuator} {rows : List (List Token)} {t : Token}
    (h : t ∈ joined sign rows) : t = .punctuator sign ∨ ∃ row ∈ rows, t ∈ row := by
  cases rows with
  | nil => cases h
  | cons row rows =>
    rw [joined, List.mem_append, List.mem_flatMap] at h
    rcases h with h | ⟨other, hother, h⟩
    · exact .inr ⟨row, by simp, h⟩
    · rcases List.mem_cons.mp h with h | h
      · exact .inl h
      · exact .inr ⟨other, List.mem_cons_of_mem row hother, h⟩

/-- Where no member has a semicolon, the union has none. -/
theorem semicolon_notMem_joined {rows : List (List Token × Toll)}
    (h : ∀ row ∈ rows, .punctuator .semicolon ∉ row.1) :
    .punctuator .semicolon ∉ joined .bar (rows.map Prod.fst) := by
  intro hmem
  rcases eq_or_mem_of_mem_joined hmem with heq | ⟨ts, hts, hmem⟩
  · cases heq
  · obtain ⟨row, hrow, rfl⟩ := List.mem_map.mp hts
    exact h row hrow hmem

theorem MemberRow.semicolon_notMem {ts : List Token} {c : Toll} (h : MemberRow ts c) :
    .punctuator .semicolon ∉ ts := by
  induction h with
  | word htoken =>
    intro hmem
    rcases htoken with rfl | rfl | hword | ⟨name, rfl⟩
    · simp at hmem
    · simp at hmem
    · rw [← List.mem_singleton.mp hmem] at hword
      cases hword
    · simp at hmem
  | parenthesized _ _ ih => simpa using semicolon_notMem_joined ih
  | array _ ih => simpa using ih

theorem UnionRow.semicolon_notMem {ts : List Token} {c : Toll} (h : UnionRow ts c) :
    .punctuator .semicolon ∉ ts := by
  obtain ⟨-, hrows⟩ := h
  exact semicolon_notMem_joined fun row hrow => (hrows row hrow).semicolon_notMem

/-! ### What spells a type is a row -/

/-- The lexemes of the members of a union, from what is known of short rows. -/
theorem Separated.exists_row {n : Nat} {ts : List TypeExpr} {ws : List Lexeme}
    (hmember : ∀ (t : TypeExpr) (us : List Lexeme), us.length ≤ n → t.SpellsMember us →
      ∃ c, MemberRow (us.map Lexeme.token) c) (hn : ws.length ≤ n)
    (h : Separated .bar TypeExpr.SpellsMember ts ws) : ∃ c, UnionRow (ws.map Lexeme.token) c := by
  induction h with
  | @one t ws ht =>
    obtain ⟨c, hrow⟩ := hmember t ws hn ht
    exact ⟨c, .one hrow⟩
  | @more t ts ws us w ht hw _ ih =>
    have hlength : (ws ++ w :: us).length = ws.length + us.length + 1 := by simp; omega
    obtain ⟨c, hrow⟩ := hmember t ws (by omega) ht
    obtain ⟨d, hrows⟩ := ih (by omega)
    rw [List.map_append, List.map_cons, show w.token = .punctuator .bar from hw]
    exact ⟨c.andThen d, (UnionRow.one hrow).append hrows⟩

theorem TypeExpr.Spells.exists_row_of_members {n : Nat}
    (hmember : ∀ (t : TypeExpr) (us : List Lexeme), us.length ≤ n → t.SpellsMember us →
      ∃ c, MemberRow (us.map Lexeme.token) c) {t : TypeExpr} {ws : List Lexeme} (hn : ws.length ≤ n)
    (h : t.Spells ws) : ∃ c, UnionRow (ws.map Lexeme.token) c := by
  cases h with
  | one h =>
    obtain ⟨c, hrow⟩ := hmember t ws hn h
    exact ⟨c, .one hrow⟩
  | union hts _ => exact hts.exists_row hmember hn

/-- A type in parentheses leaves no node, so the induction is on the number of lexemes. -/
theorem TypeExpr.SpellsMember.exists_row (n : Nat) : ∀ (t : TypeExpr) (ws : List Lexeme),
    ws.length ≤ n → t.SpellsMember ws → ∃ c, MemberRow (ws.map Lexeme.token) c := by
  induction n with
  | zero =>
    intro t ws hn h
    exact absurd (List.length_eq_zero_iff.mp (Nat.le_zero.mp hn)) h.ne_nil
  | succ n ih =>
    intro t ws hn h
    cases h with
    | keyword hword => exact ⟨.free, .word (.inr (.inr (.inl (by rw [hword]; rfl))))⟩
    | literalTrue hw => exact ⟨.free, .word (.inl hw)⟩
    | literalFalse hw => exact ⟨.free, .word (.inr (.inl hw))⟩
    | reference hw _ => exact ⟨.free, .word (.inr (.inr (.inr ⟨_, hw⟩)))⟩
    | @parenthesized t ws l r hl h hr =>
      have hlength : (l :: (ws ++ [r])).length = ws.length + 2 := by simp
      obtain ⟨c, hrow⟩ := h.exists_row_of_members ih (by omega)
      have hsigns : (l :: (ws ++ [r])).map Lexeme.token =
          .punctuator .leftParen :: (ws.map Lexeme.token ++ [.punctuator .rightParen]) := by
        rw [List.map_cons, List.map_append, List.map_singleton,
          show l.token = .punctuator .leftParen from hl, show r.token = .punctuator .rightParen from hr]
      rw [hsigns]
      exact ⟨c.within, hrow.parenthesized⟩
    | @array t ws l r h hl hr =>
      have hlength : (ws ++ [l, r]).length = ws.length + 2 := by simp
      obtain ⟨c, hrow⟩ := ih t ws (by omega) h
      have hsigns : (ws ++ [l, r]).map Lexeme.token =
          ws.map Lexeme.token ++ [.punctuator .leftBracket, .punctuator .rightBracket] := by
        rw [List.map_append, List.map_cons, List.map_singleton,
          show l.token = .punctuator .leftBracket from hl,
          show r.token = .punctuator .rightBracket from hr]
      rw [hsigns]
      exact ⟨_, .array hrow⟩

/-- **What spells a type is a row of members with bars between them.** -/
theorem TypeExpr.Spells.exists_row {t : TypeExpr} {ws : List Lexeme} (h : t.Spells ws) :
    ∃ c, UnionRow (ws.map Lexeme.token) c :=
  h.exists_row_of_members (TypeExpr.SpellsMember.exists_row ws.length) (Nat.le_refl _)

/-! ### Counting levels along a row -/

/-- How far a counter of levels has come: the levels entered now, those entered outside of each
open parenthesis, the innermost first, and the most that were ever entered. -/
structure Climb where
  level : Nat
  outside : List Nat
  peak : Nat

namespace Climb

/-- One level more. -/
def enter (k : Climb) : Climb :=
  { k with level := k.level + 1, peak := max k.peak (k.level + 1) }

/-- A parenthesis gives back all levels entered inside of it; a pair of brackets gives none back. -/
def step (k : Climb) : Token → Climb
  | .punctuator .leftParen => { k.enter with outside := k.level :: k.outside }
  | .punctuator .rightParen =>
    match k.outside with
    | level :: outside => { k with level := level, outside := outside }
    | [] => k
  | .punctuator .leftBracket => k.enter
  | _ => k

end Climb

/-- The counter behind a row of tokens. -/
def climb (k : Climb) (ts : List Token) : Climb :=
  ts.foldl Climb.step k

/-- The counter behind something that takes the toll. -/
def Climb.pay (k : Climb) (c : Toll) : Climb :=
  ⟨k.level + c.held, k.outside, max k.peak (k.level + c.need)⟩

theorem climb_append (k : Climb) (ts us : List Token) :
    climb k (ts ++ us) = climb (climb k ts) us :=
  List.foldl_append

theorem climb_cons (k : Climb) (t : Token) (ts : List Token) :
    climb k (t :: ts) = climb (k.step t) ts := rfl

theorem Climb.pay_free {k : Climb} (h : k.level ≤ k.peak) : k.pay .free = k := by
  simp [Climb.pay, Toll.free, h]

theorem Climb.pay_pay (k : Climb) (c d : Toll) : (k.pay c).pay d = k.pay (c.andThen d) := by
  simp only [Climb.pay, Toll.andThen, Climb.mk.injEq, true_and]
  omega

theorem Climb.level_le_peak_pay (k : Climb) (c : Toll) : (k.pay c).level ≤ (k.pay c).peak := by
  have := c.held_le
  simp only [Climb.pay]
  omega

/-- Rows with bars between them are climbed one after the other. -/
theorem climb_joined {rows : List (List Token × Toll)}
    (h : ∀ row ∈ rows, ∀ k : Climb, k.level ≤ k.peak → climb k row.1 = k.pay row.2) :
    ∀ k : Climb, k.level ≤ k.peak →
      climb k (joined .bar (rows.map Prod.fst)) = k.pay (tolls Prod.snd rows) := by
  induction rows with
  | nil => exact fun k hk => (k.pay_free hk).symm
  | cons row rows ih =>
    intro k hk
    have hrow := h row (by simp) k hk
    have ih := ih fun r hr => h r (List.mem_cons_of_mem row hr)
    rw [List.map_cons, joined, climb_append, hrow]
    by_cases hrows : rows = []
    · subst hrows
      simp [climb, tolls]
    · rw [flatMap_eq_joined (by simpa using hrows), climb_cons]
      show climb (k.pay row.2) _ = _
      rw [ih _ (k.level_le_peak_pay row.2), Climb.pay_pay, tolls]

/-- **The counter climbs over a row by its toll.** -/
theorem MemberRow.climb_eq {ts : List Token} {c : Toll} (h : MemberRow ts c) :
    ∀ k : Climb, k.level ≤ k.peak → climb k ts = k.pay c := by
  induction h with
  | @word token htoken =>
    intro k hk
    rw [k.pay_free hk]
    rcases htoken with rfl | rfl | hword | ⟨name, rfl⟩
    · rfl
    · rfl
    · show k.step token = k
      unfold Climb.step
      split
      · cases hword
      · cases hword
      · cases hword
      · rfl
    · rfl
  | @parenthesized rows _ _ ih =>
    intro k hk
    have hentered : (k.step (.punctuator .leftParen)).level ≤ (k.step (.punctuator .leftParen)).peak :=
      Nat.le_max_right _ _
    rw [climb_cons, climb_append, climb_joined ih _ hentered]
    simp only [climb, List.foldl_cons, List.foldl_nil, Climb.step, Climb.enter, Climb.pay,
      Toll.within, Climb.mk.injEq, true_and]
    omega
  | @array ts c _ ih =>
    intro k hk
    rw [climb_append, ih k hk, ← Climb.pay_pay]
    simp [climb, Climb.step, Climb.enter, Climb.pay, Toll.level]

theorem UnionRow.climb_eq {ts : List Token} {c : Toll} (h : UnionRow ts c) :
    ∀ k : Climb, k.level ≤ k.peak → climb k ts = k.pay c := by
  obtain ⟨-, hrows⟩ := h
  exact climb_joined fun row hrow => (hrows row hrow).climb_eq

/-! ### Members that follow each other -/

/-- **What a list needs** is what one of its items needs on top of all that the items before it
hold. -/
theorem tolls_need_le {α : Type} (toll : α → Toll) {n : Nat} {as : List α} :
    (tolls toll as).need ≤ n ↔ ∀ before a after, as = before ++ a :: after →
      (tolls toll before).held + (toll a).need ≤ n := by
  induction as generalizing n with
  | nil => simp [tolls, Toll.free]
  | cons a as ih =>
    have hheld := (toll a).held_le
    have hfirst : (tolls toll (a :: as)).need ≤ n ↔
        (toll a).need ≤ n ∧ (tolls toll as).need ≤ n - (toll a).held := by
      simp only [tolls, Toll.andThen]
      omega
    rw [hfirst, ih]
    constructor
    · rintro ⟨ha, has⟩ before b after hsplit
      rcases List.cons_eq_append_iff.mp hsplit with ⟨rfl, hb⟩ | ⟨before, rfl, hbefore⟩
      · cases hb
        simpa [tolls, Toll.free] using ha
      · have hb := has before b after hbefore
        simp only [tolls, Toll.andThen]
        omega
    · intro h
      refine ⟨by simpa [tolls, Toll.free] using h [] a as rfl, fun before b after hsplit => ?_⟩
      have hb := h (a :: before) b after (by rw [hsplit, List.cons_append])
      simp only [tolls, Toll.andThen] at hb
      omega

end ScriptLint
