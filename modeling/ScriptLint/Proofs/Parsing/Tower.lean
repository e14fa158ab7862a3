import ScriptLint.Proofs.Parsing.CompleteStatement
import ScriptLint.Proofs.Parsing.Depth
/-!
# The deepest trees

The limit bounds the levels on a way that has no free ones. On other ways
there may be many more, up to the triangle below the limit, and that bound is
reached. A tower of height `n + 1` is a tower of height `n` in parentheses
that is then called `n + 1` times, as in `((a)())()()`. When the parentheses
are read, all levels inside are given back, so the calls behind them can use
every level once more: a tower of height `n` is read with `n` levels and has
`triangle n + n` of them.

Key definitions: `calls`, `tower`, `towerText`.
Key theorems: `tokens_towerText`, `toll_tower`, `levels_tower`, `Script.parse_towerScript`,
`Script.levelsOn_recover_le`, `Script.levels_attained`.
-/

namespace ScriptLint

/-! ### Towers -/

/-- An expression that is called `n` times without arguments. -/
def calls (place : Span) (e : Expr) : Nat → Expr
  | 0 => e
  | n + 1 => .call (calls place e n) [] place

/-- The tower of height `n`, all at one place. -/
def tower (place : Span) : Nat → Expr
  | 0 => .identifier ⟨"a", place⟩
  | n + 1 => calls place (.parenthesized (tower place n) place) (n + 1)

variable {place : Span}

theorem isObject_calls {e : Expr} (h : e.IsObject) : ∀ n, (calls place e n).IsObject
  | 0 => h
  | _ + 1 => Nat.le_refl 12

theorem grouped_calls {e : Expr} (hobject : e.IsObject) (h : e.Grouped) : ∀ n,
    (calls place e n).Grouped
  | 0 => h
  | n + 1 => ⟨isObject_calls hobject n, grouped_calls hobject h n, trivial⟩

theorem readable_calls {e : Expr} (h : e.Readable) : ∀ n, (calls place e n).Readable
  | 0 => h
  | n + 1 => ⟨readable_calls h n, trivial⟩

/-- Each call holds a level. -/
theorem toll_calls {e : Expr} (h : e.toll.held = 0) (n : Nat) :
    (calls place e n).toll.need = max e.toll.need n ∧ (calls place e n).toll.held = n := by
  induction n with
  | zero => simp [calls, h]
  | succ n ih =>
    obtain ⟨hneed, hheld⟩ := ih
    simp only [calls, Expr.toll, Expr.tollAll, Toll.andThen_free]
    simp only [Toll.andThen, Toll.level, hneed, hheld]
    exact ⟨by omega, trivial⟩

theorem grouped_tower : ∀ n, (tower place n).Grouped
  | 0 => trivial
  | n + 1 => by
    have hobject : (Expr.parenthesized (tower place n) place).IsObject := Nat.le_refl 12
    exact grouped_calls hobject (grouped_tower n) (n + 1)

theorem readable_tower : ∀ n, (tower place n).Readable
  | 0 => by rfl
  | n + 1 => by
    have hinner : (Expr.parenthesized (tower place n) place).Readable := readable_tower n
    exact readable_calls hinner (n + 1)

/-- A tower is read with as many levels as it is high. -/
theorem toll_tower (n : Nat) : (tower place n).toll.need = n := by
  induction n with
  | zero => rfl
  | succ n ih =>
    have hheld : (Expr.parenthesized (tower place n) place).toll.held = 0 := rfl
    rw [tower, (toll_calls hheld (n + 1)).1]
    simp only [Expr.toll, Toll.within, ih, Nat.max_self]

/-! ### Levels of a tower -/

/-- What is like an expression with calls is like it without them, with a level for each call. -/
theorem levels_of_alike_calls {e f : Expr} {n : Nat} (h : (calls place e n).Alike anyPlace f) :
    ∃ g, e.Alike anyPlace g ∧ f.outline.levels = n + g.outline.levels := by
  induction n generalizing f with
  | zero => exact ⟨f, h, by simp⟩
  | succ n ih =>
    cases h with
    | call hcallee harguments _ =>
      cases harguments
      obtain ⟨g, hg, hlevels⟩ := ih hcallee
      refine ⟨g, hg, ?_⟩
      simp only [Expr.outline, Expr.outlines, Outline.levels_node, Outline.levelsAll_cons,
        Outline.levelsAll_nil, Node.level, Form.isLevel, if_true]
      omega

/-- A tower has many more levels than it is high, wherever its parts stand. -/
theorem levels_tower {n : Nat} {f : Expr} (h : (tower place n).Alike anyPlace f) :
    f.outline.levels = triangle n + n := by
  induction n generalizing f with
  | zero =>
    cases h with
    | identifier _ => rfl
  | succ n ih =>
    obtain ⟨g, hg, hlevels⟩ := levels_of_alike_calls h
    cases hg with
    | parenthesized hinner _ =>
      have hinside := ih hinner
      simp only [Expr.outline, Outline.levels_node, Outline.levelsAll_cons, Outline.levelsAll_nil,
        Node.level, Form.isLevel, if_true] at hlevels
      rw [triangle]
      omega

/-! ### The text of a tower -/

/-- The text of `n` calls. -/
def callText : Nat → List Char
  | 0 => []
  | n + 1 => callText n ++ ['(', ')']

/-- The text of a tower. -/
def towerText : Nat → List Char
  | 0 => ['a']
  | n + 1 => '(' :: (towerText n ++ ')' :: callText (n + 1))

/-- The token that a character is alone. Of words there is only the name `a`. -/
def charToken (c : Char) : Token :=
  if c = '(' then .punctuator .leftParen
  else if c = ')' then .punctuator .rightParen
  else if c = ';' then .punctuator .semicolon
  else .identifier "a"

/-- Every character is a token of its own. -/
def Legible : List Char → Prop
  | [] => True
  | c :: cs => (c ∈ ['(', ')', ';'] ∨ c = 'a' ∧ cs.head? ≠ some 'a') ∧ Legible cs

theorem munch_sign {c : Char} (h : c ∈ ['(', ')', ';']) (cs : List Char) :
    munch c cs = ⟨.token (charToken c), [], [c], cs⟩ := by
  simp only [List.mem_cons, List.not_mem_nil, or_false] at h
  rcases h with rfl | rfl | rfl
  · rfl
  · rfl
  · rfl

theorem munch_name {cs : List Char} (h : ∀ c ∈ cs.head?, isNamePart c = false) :
    munch 'a' cs = ⟨.token (charToken 'a'), [], ['a'], cs⟩ := by
  cases cs with
  | nil => rfl
  | cons c cs =>
    have hc : isNamePart c = false := h c rfl
    have htake : (c :: cs).takeWhile isNamePart = [] := by simp [hc]
    have hdrop : (c :: cs).dropWhile isNamePart = c :: cs := by simp [hc]
    have hmunch : munch 'a' (c :: cs) = ⟨.token (Token.ofWord
      (String.ofList ('a' :: (c :: cs).takeWhile isNamePart))), [],
        'a' :: (c :: cs).takeWhile isNamePart, (c :: cs).dropWhile isNamePart⟩ := rfl
    rw [hmunch, htake, hdrop]
    rfl

theorem Legible.head {c : Char} {cs : List Char} (h : Legible (c :: cs)) (hc : c ≠ 'a') :
    isNamePart c = false := by
  have hsign : c ∈ ['(', ')', ';'] := h.1.resolve_right fun ⟨ha, _⟩ => hc ha
  simp only [List.mem_cons, List.not_mem_nil, or_false] at hsign
  rcases hsign with rfl | rfl | rfl
  · rfl
  · rfl
  · rfl

/-- A legible text is read character by character. -/
theorem scanFrom_legible {cs : List Char} (h : Legible cs) (offset : Nat) :
    ∃ ws : List Lexeme, scanFrom offset cs = ws.map .ok ∧ ws.map Lexeme.token = cs.map charToken := by
  induction cs generalizing offset with
  | nil => exact ⟨[], by simp [scanFrom], rfl⟩
  | cons c cs ih =>
    have hmunch : munch c cs = ⟨.token (charToken c), [], [c], cs⟩ := by
      rcases h.1 with hsign | ⟨rfl, hnext⟩
      · exact munch_sign hsign cs
      · refine munch_name fun d hd => ?_
        cases cs with
        | nil => simp at hd
        | cons e es =>
          cases hd
          exact h.2.head (by simpa using hnext)
    obtain ⟨ws, hws, htokens⟩ := ih h.2 (offset + byteLength [] + byteLength [c])
    rw [scanFrom_cons, hmunch]
    exact ⟨⟨charToken c, ⟨offset + byteLength [], byteLength [c]⟩⟩ :: ws,
      by simpa [Munch.scanned?] using hws, by simp [htokens]⟩

theorem Legible.append {cs ds : List Char} (hcs : Legible cs) (hds : Legible ds)
    (hhead : ds.head? ≠ some 'a') : Legible (cs ++ ds) := by
  induction cs with
  | nil => exact hds
  | cons c cs ih =>
    refine ⟨hcs.1.imp_right fun ⟨hc, hnext⟩ => ⟨hc, ?_⟩, ih hcs.2⟩
    cases cs with
    | nil => exact hhead
    | cons d cs => exact hnext

theorem legible_callText : ∀ n, Legible (callText n) ∧ (callText n).head? ≠ some 'a'
  | 0 => by simp [callText, Legible]
  | n + 1 => by
    obtain ⟨hlegible, hhead⟩ := legible_callText n
    refine ⟨hlegible.append (by simp [Legible]) (by simp), ?_⟩
    rw [callText]
    cases h : callText n with
    | nil => simp
    | cons c cs => simpa [h] using hhead

theorem legible_towerText : ∀ n, Legible (towerText n)
  | 0 => by simp [towerText, Legible]
  | n + 1 => by
    have hcalls : Legible (')' :: callText (n + 1)) :=
      ⟨.inl (by simp), (legible_callText (n + 1)).1⟩
    exact ⟨.inl (by simp), (legible_towerText n).append hcalls (by simp)⟩

theorem tokens_callText (e : Expr) : ∀ n,
    (calls place e n).tokens = e.tokens ++ (callText n).map charToken
  | 0 => by simp [calls, callText]
  | n + 1 => by
    simp [calls, callText, Expr.tokens, Expr.rows, joined, tokens_callText e n, charToken]

theorem tokens_towerText : ∀ n, (tower place n).tokens = (towerText n).map charToken
  | 0 => by
    simp only [tower, Expr.tokens]
    rfl
  | n + 1 => by
    rw [tower, tokens_callText, Expr.tokens, tokens_towerText n, towerText]
    simp [charToken]

/-! ### The exact bound -/

/-- A tower as a statement. -/
def towerStmt (n : Nat) : Stmt :=
  .expression (tower (.emptyAt 0) n) (.emptyAt 0)

/-- A text with a tower as its only statement. -/
def towerScript (n : Nat) : String :=
  String.ofList (towerText n ++ [';'])

theorem tokenize_towerScript (n : Nat) : ∃ ws, tokenize (towerScript n) = .ok ws ∧
    ws.map Lexeme.token = Stmt.tokensAll [towerStmt n] := by
  have hlegible : Legible (towerText n ++ [';']) :=
    (legible_towerText n).append (by simp [Legible]) (by simp)
  obtain ⟨ws, hscan, htokens⟩ := scanFrom_legible hlegible 0
  refine ⟨ws, ?_, ?_⟩
  · rw [tokenize_eq_ok, scan, towerScript, String.toList_ofList]
    exact hscan
  · rw [htokens]
    simp [towerStmt, Stmt.tokensAll, Stmt.tokens, tokens_towerText, charToken]

theorem levels_towerStmt {n : Nat} {body : List Stmt}
    (h : List.Forall₂ (Stmt.Alike anyPlace) [towerStmt n] body) :
    Outline.levelsAll (Stmt.outlines body) = triangle n + n + 1 := by
  cases h with
  | cons hstmt hnil =>
    cases hnil
    cases hstmt with
    | expression he _ =>
      simp only [Stmt.outlines, Stmt.outline, Outline.levelsAll_cons, Outline.levelsAll_nil,
        Outline.levels_node, Node.level, Form.isLevel, if_true, levels_tower he]
      omega

namespace Script

/-- A tower is read without error if there is a level for each of its stages, one for the
expression and one for the statement. -/
theorem parse_towerScript (name : String) {n : Nat} (hn : n + 2 ≤ nestingLimit) :
    ∃ script, parse name (towerScript n) = .ok script ∧
      script.outline.levels = triangle n + n + 1 := by
  obtain ⟨ws, htext, htokens⟩ := tokenize_towerScript n
  have hneed : (Stmt.tollAll [towerStmt n]).need = n + 2 := by
    simp [towerStmt, Stmt.tollAll, Stmt.toll, Expr.wholeToll, Toll.within, toll_tower]
  have hgrouped : Stmt.GroupedAll [towerStmt n] := ⟨grouped_tower n, trivial⟩
  have hreadable : Stmt.ReadableAll [towerStmt n] := ⟨readable_tower n, trivial⟩
  obtain ⟨hlog, hrun⟩ := completes_rendering hgrouped hreadable htext htokens
  obtain ⟨body, hparse, hbody⟩ := (parse_of_completes name hlog hrun).1 (hneed ▸ hn)
  refine ⟨_, hparse, ?_⟩
  simpa [outline, Node.level, Form.isLevel] using levels_towerStmt hbody

/-- **On a way without free levels the limit holds.** A way through the tree of a text, from the root
down, meets no more levels than the limit and its free levels together: a level goes beyond the limit
only for a link around a part that has given its levels back, or for a function that shares a level
with its body. On no way does it come to more than 4950. -/
theorem levelsOn_recover_le (name text : String) (way : List Nat) :
    let tree := (recover name text).1.outline
    (tree.along way).countP (·.form.isLevel) ≤ nestingLimit + tree.freeOn way ∧
      (tree.along way).countP (·.form.isLevel) ≤ 4950 := by
  have hbound : triangle (nestingLimit - 1) = 4950 := by decide
  have hwithin := within_recover name text
  rw [hbound] at hwithin
  exact ⟨hwithin.levelsOn_le way, Nat.le_trans (Outline.levelsOn_le_levels _ way) hwithin.levels_le⟩

/-- In `a.b.c` every level is held, and in `((a)).b` the two pairs of parentheses were left. -/
example : (recover "main.ts" "a.b.c;").1.outline.freeOn [0, 0, 0, 0] = 0 ∧
    (recover "main.ts" "((a)).b;").1.outline.freeOn [0, 0, 0, 0, 0] = 1 := by
  decide +kernel

/-- **The bound is reached.** Some text is read without error to a tree with 4950 levels on a way to a
leaf. -/
theorem levels_attained (name : String) : ∃ text script way, parse name text = .ok script ∧
    script.outline.LeadsToLeaf way ∧ (script.outline.along way).countP (·.form.isLevel) = 4950 := by
  obtain ⟨script, hparse, hlevels⟩ := parse_towerScript name (n := 98) (by decide)
  obtain ⟨way, hleaf, hcount⟩ := script.outline.exists_leadsToLeaf
  have hheight : triangle 98 + 98 + 1 = 4950 := by decide
  exact ⟨towerScript 98, script, way, hparse, hleaf, hcount.trans (hlevels.trans hheight)⟩

/-- A tower of height 13, as it is written. -/
def tallText : String :=
  "(((((((((((((a)())()())()()())()()()())()()()()())()()()()()())()()()()()()())()" ++
  "()()()()()()())()()()()()()()()())()()()()()()()()()())()()()()()()()()()()())()" ++
  "()()()()()()()()()()())()()()()()()()()()()()()();"

/-- The limit does not bound the levels of a tree: this text is read without error, and a way to a
leaf of its tree meets 105 levels. -/
theorem levels_exceed_limit : ∃ script way, parse "main.ts" tallText = .ok script ∧
    script.outline.LeadsToLeaf way ∧
    nestingLimit < (script.outline.along way).countP (·.form.isLevel) := by
  have htext : tallText = towerScript 13 := by decide +kernel
  rw [htext]
  obtain ⟨script, hparse, hlevels⟩ := parse_towerScript "main.ts" (n := 13) (by decide)
  obtain ⟨way, hleaf, hcount⟩ := script.outline.exists_leadsToLeaf
  have hheight : nestingLimit < triangle 13 + 13 + 1 := by decide
  exact ⟨script, way, hparse, hleaf, Nat.lt_of_lt_of_eq hheight (hcount.trans hlevels).symm⟩

end Script

end ScriptLint
