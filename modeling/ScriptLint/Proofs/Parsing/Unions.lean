import ScriptLint.Proofs.Parsing.CompleteStatement
import ScriptLint.Proofs.Syntax.TypeRows
import ScriptLint.Proofs.Token.Closing
/-!
# The levels of a union

A pair of brackets holds its level until the type around it has been read.
So the levels that one member of a union holds are missing for the members
behind it: of members that can all be read alone, those that come late may
be too many. The union is read exactly if no member needs more levels than
its predecessors leave.

Key definitions: `Script.DeclaresOne`, `levelsNeeded`, `levelsHeld`.
Key theorems: `Parse.delivers_rows`, `Script.declaresOne_iff`, `Script.union_taken_iff`.
-/

namespace ScriptLint

/-- The statement declares one variable, and gives it no first value. -/
def Stmt.DeclaresOne (x : Stmt) : Prop :=
  ∃ kind d declarationSpan span, d.initializer = none ∧
    x = .variables ⟨kind, [d], declarationSpan⟩ span

/-- The strict reading takes the text, as one declaration of one variable without a first value. -/
def Script.DeclaresOne (name text : String) : Prop :=
  ∃ x, parse name text = .ok ⟨name, text, [x]⟩ ∧ x.DeclaresOne

namespace Parse

variable {limit : Nat} {s : State} {rest : List Token}

/-! ### Rows of types are read -/

/-- The reader reads rows of members with bars between them. -/
def ReadsRows (limit : Nat) (inner : Parse TypeExpr) : Prop :=
  ∀ ts c, UnionRow ts c → ∀ s rest, EndsType rest → s.Faces limit (ts ++ rest) →
    Delivers limit s inner (fun _ => True) rest c.within

section Types

variable {inner : Parse TypeExpr} {ts : List Token} {c : Toll}

theorem delivers_typeWord {token : Token} (htoken : token.IsType)
    (hs : s.Faces limit (token :: rest)) :
    Delivers limit s (simpleType inner) (fun _ => True) rest .free := by
  refine Yields.currentSpan_bind (Yields.peek_cons_bind hs ?_)
  have hadvance : ∀ t : TypeExpr, Delivers limit s (do advance; return t) (fun _ => True) rest .free :=
    fun t => Yields.advance_bind hs fun u hu => Yields.pure hu trivial
  rcases htoken with rfl | rfl | hword | ⟨name, rfl⟩
  · exact hadvance _
  · exact hadvance _
  · obtain ⟨word, hword⟩ := Option.isSome_iff_exists.mp hword
    split
    next => exact hadvance _
    next => exact hadvance _
    next heq => cases heq; cases hword
    next heq =>
      cases heq
      rw [hword]
      exact hadvance _
    next heq => cases heq
  · simp only
    split
    · exact hadvance _
    · exact hadvance _

/-- A row is read up to its last brackets, and then reading goes on as the loop for brackets does. -/
theorem delivers_row (hinner : ReadsRows limit inner) (start : Nat) (h : MemberRow ts c) :
    ∀ {s : State} {rest final : List Token} {R : TypeExpr → Prop} {d : Toll},
      s.Faces limit (ts ++ rest) →
      (∀ a u, u.Faces limit rest → Delivers limit u (loop (bracketRound start) a) R final d) →
      Delivers limit s (simpleType inner >>= loop (bracketRound start)) R final (c.andThen d) := by
  induction h with
  | word htoken => exact fun hs hnext => Yields.bind (delivers_typeWord htoken hs) fun a u _ => hnext a u
  | @parenthesized rows hne hrows _ =>
    intro s rest final R d hs hnext
    simp only [List.cons_append, List.append_assoc] at hs
    have hends : EndsType (.punctuator .rightParen :: rest) := ⟨by simp, by simp⟩
    have hsimple : Delivers limit s (simpleType inner) (fun _ => True) rest
        (tolls Prod.snd rows).within := by
      refine Yields.currentSpan_bind (Yields.peek_bind hs (Yields.advance_bind hs fun u hu => ?_))
      have hunion := hinner _ _ (.mk hne hrows) u _ hends hu
      refine Yields.of_eq (Yields.bind hunion fun a v ha hv => ?_) (Toll.andThen_free _)
      exact Yields.expect_bind hv fun w hw => Yields.pure hw ha
    exact Yields.bind hsimple fun a u _ => hnext a u
  | @array ts c _ ih =>
    intro s rest final R d hs hnext
    rw [List.append_assoc] at hs
    refine Yields.of_eq (ih hs fun a u hu => ?_) (Toll.andThen_assoc c .level d).symm
    have hlt : rest.length < (rest.length + 1) + 1 := by omega
    exact Yields.loop_again hu (delivers_bracketPair hu) hlt fun b v _ => hnext b v

theorem delivers_memberRow (hinner : ReadsRows limit inner) (h : MemberRow ts c)
    (hrest : rest.head? ≠ some (.punctuator .leftBracket)) (hs : s.Faces limit (ts ++ rest)) :
    Delivers limit s (arrayType inner) (fun _ => True) rest c := by
  refine Yields.currentSpan_bind ?_
  refine Yields.of_eq (delivers_row hinner s.span.start h hs fun a u hu => ?_) (Toll.andThen_free _)
  refine Yields.loop_done (Yields.peek_bind hu ?_)
  rw [if_neg hrest]
  exact Yields.pure hu trivial

theorem delivers_unionRow (hinner : ReadsRows limit inner) (h : UnionRow ts c)
    (hrest : EndsType rest) (hs : s.Faces limit (ts ++ rest)) :
    Delivers limit s (unionType inner) (fun _ => True) rest c := by
  obtain @⟨rows, hne, hrows⟩ := h
  refine Yields.currentSpan_bind ?_
  have hlist : Delivers limit s (separated .bar (arrayType inner))
      (List.Forall₂ (fun _ _ => True) rows) rest (tolls Prod.snd rows) := by
    refine delivers_separated hne (fun row hrow u us hus hu => ?_) hrest.bar hs
    refine delivers_memberRow hinner (hrows row hrow) ?_ hu
    rcases hus with hbar | rfl
    · simp [hbar]
    · exact hrest.bracket
  refine Yields.of_eq (Yields.bind hlist fun as u _ hu => ?_) (Toll.andThen_free _)
  split
  · exact Yields.pure hu trivial
  · exact Yields.spanFrom_bind (Yields.pure hu trivial)

end Types

/-- **Rows of types are read,** however deep. -/
theorem delivers_rows : ∀ depth, ReadsRows depth (typeExpr depth)
  | 0 => fun _ _ _ _ _ _ hs => Yields.fail hs rfl
  | depth + 1 => fun _ _ h _ _ hrest hs =>
    Yields.nested hs fun _ hu => delivers_unionRow (delivers_rows depth) h hrest hu

/-! ### A declaration with an annotation -/

/-- The tokens of a statement that declares a variable with an annotation. -/
def annotated (ts : List Token) : List Token :=
  .keyword .letWord :: .identifier "x" :: .punctuator .colon :: (ts ++ [.punctuator .semicolon])

section Declarations

variable {inner : Parts} {ts : List Token} {c : Toll}

/-- A list of one item, which no sign follows. -/
theorem delivers_single {α : Type} {item : Parse α} {sign : Punctuator} {Q : α → Prop}
    (hitem : Delivers limit s item Q rest c) (hrest : rest.head? ≠ some (.punctuator sign)) :
    Delivers limit s (separated sign item) (fun as => ∃ a, as = [a] ∧ Q a) rest c := by
  refine Yields.of_eq (Yields.bind hitem fun a t ha ht => ?_) (Toll.andThen_free c)
  exact Yields.loop_done (Yields.eat_bind_no ht hrest (Yields.pure ht ⟨a, rfl, ha⟩))

/-- A variable with an annotation. -/
theorem delivers_annotated (hinner : ReadsRows limit inner.typeExpr) (h : UnionRow ts c)
    (hs : s.Faces limit (.identifier "x" :: .punctuator .colon :: (ts ++ [.punctuator .semicolon]))) :
    Delivers limit s (declarator inner) (fun d => d.initializer = none) [.punctuator .semicolon]
      c.within := by
  have hname : Ident.Readable ⟨"x", .emptyAt 0⟩ := rfl
  have hends : EndsType [.punctuator .semicolon] := ⟨by simp, by simp⟩
  refine Yields.ident_bind hname hs fun name t _ ht => ?_
  have htype : Delivers limit t (optionalAfter .colon inner.typeExpr) (fun _ => True)
      [.punctuator .semicolon] c.within := by
    refine Yields.eat_bind ht fun u hu => ?_
    refine Yields.of_eq (Yields.bind (hinner ts c h u _ hends hu) fun a v _ hv => ?_)
      (Toll.andThen_free _)
    exact Yields.pure hv trivial
  refine Yields.of_eq (Yields.bind htype fun type u _ hu => ?_) (Toll.andThen_free _)
  have hvalue : Delivers limit u (optionalAfter .equal inner.expression) (fun e => e = none)
      [.punctuator .semicolon] .free :=
    Yields.eat_bind_no hu (by simp) (Yields.pure hu rfl)
  refine Yields.of_eq (Yields.bind hvalue fun value v hnone hv => ?_) (Toll.andThen_free _)
  exact Yields.spanFrom_bind (Yields.pure hv hnone)

theorem completes_annotated (hinner : ReadsRows limit inner.typeExpr) (h : UnionRow ts c)
    (hs : s.Faces limit (annotated ts)) :
    Completes limit s (statementWith inner) Stmt.DeclaresOne [] c.within := by
  have hdeclaration : Delivers limit s (declaration inner .letKind)
      (fun d => ∃ v, d.declarators = [v] ∧ v.initializer = none) [.punctuator .semicolon]
      c.within := by
    refine Yields.currentSpan_bind (Yields.advance_bind hs fun t ht => ?_)
    have hlist : Delivers limit t (separated .comma (declarator inner))
        (fun ds => ∃ v, ds = [v] ∧ v.initializer = none) [.punctuator .semicolon] c.within :=
      delivers_single (delivers_annotated hinner h ht) (by simp)
    refine Yields.of_eq (Yields.bind hlist fun ds u hds hu => ?_) (Toll.andThen_free _)
    exact Yields.spanFrom_bind (Yields.pure hu hds)
  refine Yields.peek_cons_bind hs (Yields.currentSpan_bind ?_)
  refine Yields.of_eq (Yields.bind hdeclaration fun d t hd ht => ?_) (Toll.andThen_free _)
  refine Yields.eat_bind ht fun u hu => Yields.spanFrom_bind (Yields.pure hu ?_)
  obtain ⟨kind, ds, span⟩ := d
  obtain ⟨v, rfl, hnone⟩ := hd
  exact ⟨kind, v, span, _, hnone, rfl⟩

/-- **A text of nothing but the declaration.** The statement and its type take a level each. -/
theorem completes_annotatedStatements (depth : Nat) (h : UnionRow ts c)
    (hs : s.Faces (depth + 1) (annotated ts)) :
    Completes (depth + 1) s (statements (statement (depth + 1)) none)
      (fun body => ∃ x, body = [x] ∧ x.DeclaresOne) [] c.within.within := by
  have hkept := keeps_statement (depth + 1)
  have hparts : partsStatements (.keyword .letWord) = false := rfl
  have hstatement : Completes (depth + 1) s (statement (depth + 1)) Stmt.DeclaresOne []
      c.within.within :=
    Yields.nested hs fun _ ht => completes_annotated (delivers_rows depth) h ht
  have hround := completes_round hkept (.inl rfl) hparts [] hs hstatement
  refine Yields.of_eq ?_ (Toll.andThen_free _)
  refine Yields.loop_again_noted hs hround (keeps_statementsRound hkept) (by simp [annotated]) ?_
  rintro body t ⟨x, rfl, hx⟩ ht
  exact Yields.loop_done (Yields.peek_bind ht (Yields.pure ht ⟨x, rfl, hx⟩))

end Declarations

end Parse

/-! ### Only rows of types can stand in the annotation -/

section Inversion

variable {ts : List Token} {ws us : List Lexeme}

/-- Nothing but semicolons is passed over without an error. -/
theorem Stmt.SpellsAll.semicolons (h : Stmt.SpellsAll False [] ws) :
    ∀ w ∈ ws, w.token = .punctuator .semicolon := by
  induction ws with
  | nil => simp
  | cons w ws ih =>
    cases h with
    | pass hw hlater => exact List.forall_mem_cons.mpr ⟨hw.resolve_right id, ih hlater⟩

/-- Behind the end of a row there may be a semicolon. -/
theorem Ended.exists_tail (h : Ended ws us) :
    ∃ tail, us = ws ++ tail ∧ ∀ w ∈ tail, w.token = .punctuator .semicolon := by
  cases h with
  | bare => exact ⟨[], by simp, by simp⟩
  | @semicolon w hw => exact ⟨[w], rfl, List.forall_mem_singleton.mpr hw⟩

/-- Rows without the mark that differ only in how many marks stand behind them are equal. -/
theorem eq_of_marks {as bs tail tail' : List Token} {mark : Token} (ha : mark ∉ as)
    (hb : mark ∉ bs) (htail : ∀ t ∈ tail, t = mark) (htail' : ∀ t ∈ tail', t = mark)
    (h : as ++ tail = bs ++ tail') : as = bs := by
  have hfilter := congrArg (List.filter (fun t => !decide (t = mark))) h
  have hnone : ∀ ts : List Token, (∀ t ∈ ts, t = mark) → ts.filter (fun t => !decide (t = mark)) = [] := by
    intro ts hts
    simpa using hts
  have hall : ∀ ts : List Token, mark ∉ ts → ts.filter (fun t => !decide (t = mark)) = ts := by
    intro ts hts
    refine List.filter_eq_self.mpr fun t ht => ?_
    simpa using fun heq : t = mark => hts (heq ▸ ht)
  rwa [List.filter_append, List.filter_append, hnone _ htail, hnone _ htail', hall _ ha, hall _ hb,
    List.append_nil, List.append_nil] at hfilter

/-- The annotation stands behind the name, and nothing but semicolons behind the annotation. -/
theorem Stmt.DeclaresOne.exists_annotation {x : Stmt} (hx : x.DeclaresOne)
    (h : Stmt.Spells False x ws) : ∃ keyword name type row tail,
      ws = keyword :: name :: (row ++ tail) ∧ Behind .colon TypeExpr.Spells type row ∧
      ∀ w ∈ tail, w.token = .punctuator .semicolon := by
  obtain ⟨kind, d, declarationSpan, span, hnone, rfl⟩ := hx
  cases h with
  | «variables» hdeclaration hended =>
    obtain ⟨tail, rfl, htail⟩ := hended.exists_tail
    cases hdeclaration with
    | @mk _ _ keyword _ hkind hlist =>
      cases hlist with
      | more _ _ hnothing => cases hnothing
      | one hvariable =>
        cases hvariable with
        | @mk _ type _ name row _ hname htype hvalue =>
          obtain rfl := hnone
          cases hvalue
          exact ⟨keyword, name, type, row, tail, by simp, htype, htail⟩

theorem Stmt.DeclaresOne.exists_row {x : Stmt} (hx : x.DeclaresOne)
    (h : Stmt.SpellsAll False [x] ws) (hsemicolon : .punctuator .semicolon ∉ ts)
    (hws : ws.map Lexeme.token = Parse.annotated ts) : ∃ c, UnionRow ts c := by
  cases h with
  | pass hw _ =>
    have hfirst := (List.cons.inj hws).1
    rw [show _ = Token.punctuator .semicolon from hw.resolve_right id] at hfirst
    cases hfirst
  | @cons _ _ _ later hstatement hlater =>
    obtain ⟨keyword, name, type, row, tail, rfl, htype, htail⟩ := hx.exists_annotation hstatement
    have hrest : ∀ t ∈ (tail ++ later).map Lexeme.token, t = .punctuator .semicolon := by
      intro t ht
      obtain ⟨w, hw, rfl⟩ := List.mem_map.mp ht
      exact (List.mem_append.mp hw).elim (htail w) (hlater.semicolons w)
    have htokens : (row ++ (tail ++ later)).map Lexeme.token =
        .punctuator .colon :: (ts ++ [.punctuator .semicolon]) := by
      simp only [Parse.annotated, List.cons_append, List.map_cons, List.append_assoc] at hws
      exact (List.cons.inj (List.cons.inj hws).2).2
    cases htype with
    | none =>
      -- without an annotation a semicolon would stand where the colon is
      rw [List.nil_append] at htokens
      have hcolon := hrest (.punctuator .colon) (htokens ▸ List.mem_cons_self)
      cases hcolon
    | some _ htype =>
      obtain ⟨c, hrow⟩ := htype.exists_row
      rw [List.cons_append, List.map_cons, List.map_append] at htokens
      have heq := eq_of_marks hrow.semicolon_notMem hsemicolon hrest (by simp)
        (List.cons.inj htokens).2
      exact ⟨c, heq ▸ hrow⟩

end Inversion

/-! ### Texts -/

/-- The text of a declaration with the given annotation. -/
def annotatedText (t : String) : String :=
  "let x: " ++ t ++ ";"

section Texts

variable {t : String} {ts : List Token} {c : Toll}

theorem toList_annotatedText (t : String) :
    (annotatedText t).toList = "let x:".toList ++ ' ' :: (t.toList ++ [';']) := by
  simp [annotatedText]

theorem readAs_header :
    ReadAs "let x:".toList [.keyword .letWord, .identifier "x", .punctuator .colon] := by
  have hlet : ReadAs "let".toList [.keyword .letWord] := .spelled (.reserved .letWord)
  have hcolon : ReadAs ":".toList [.punctuator .colon] := .spelled (.sign .colon)
  have hname : ReadAs "x".toList [.identifier "x"] :=
    .spelled (.name rfl (by simp) fun word => by cases word <;> decide)
  exact hlet.append_space (hname.append (closes_head?_cons rfl) hcolon)

theorem ReadAs.annotated (h : ReadAs t.toList ts) :
    ReadAs (annotatedText t).toList (Parse.annotated ts) := by
  rw [toList_annotatedText]
  exact readAs_header.append_space h.semicolon

/-- What is taken as an annotation has the tokens of a type, in front of everything that closes
it. -/
theorem Script.DeclaresOne.exists_row {name : String} (hfree : CommentFree t.toList)
    (hsemicolon : ';' ∉ t.toList) (h : Script.DeclaresOne name (annotatedText t)) :
    ∃ ts c, ReadAs t.toList ts ∧ UnionRow ts c := by
  obtain ⟨x, hparse, hx⟩ := h
  obtain ⟨hscript, hlog⟩ := Script.parse_eq_ok.mp hparse
  have hbody : [x] = (Script.readBody (annotatedText t)).1 := congrArg Script.body hscript
  obtain ⟨ws, htext, hspells, -⟩ := Script.spells_readBody hlog
  rw [← hbody] at hspells
  -- behind the colon the text is read without an error
  have hscan : scanFrom 0 (annotatedText t).toList = ws.map .ok := tokenize_eq_ok.mp htext
  obtain ⟨vs, -, hheader⟩ := readAs_header (' ' :: (t.toList ++ [';'])) 0 (closes_head?_cons rfl)
  rw [toList_annotatedText, hheader, scanFrom_blank rfl] at hscan
  obtain ⟨ts, hts, hread⟩ := readAs_of_closed t.toList hfree hsemicolon _ fun e he => by
    have hmem := List.mem_append_right (vs.map Except.ok) he
    rw [hscan] at hmem
    simp at hmem
  obtain ⟨us, hus, htokens⟩ := hread.annotated.tokenize
  obtain rfl : us = ws := Except.ok.inj (hus.symm.trans htext)
  obtain ⟨c, hrow⟩ := hx.exists_row hspells hts htokens
  exact ⟨ts, c, hread, hrow⟩

/-- Texts with bars between them have their tokens with bars between them. -/
theorem readAs_intercalate {texts : List String} {tokens : String → List Token}
    (hne : texts ≠ []) (h : ∀ t ∈ texts, ReadAs t.toList (tokens t)) :
    ReadAs (" | ".intercalate texts).toList (joined .bar (texts.map tokens)) := by
  have hbar : ReadAs ['|'] [.punctuator .bar] := .spelled (.sign .bar)
  induction texts with
  | nil => exact absurd rfl hne
  | cons t texts ih =>
    have ht := h t (by simp)
    by_cases htexts : texts = []
    · subst htexts
      simpa [joined] using ht
    · have hlater := ih htexts fun u hu => h u (List.mem_cons_of_mem t hu)
      have htext : (" | ".intercalate (t :: texts)).toList =
          t.toList ++ ' ' :: (['|'] ++ ' ' :: (" | ".intercalate texts).toList) := by
        rw [String.intercalate_cons_of_ne_nil htexts, String.toList_append, String.toList_append,
          List.append_assoc]
        rfl
      rw [htext, List.map_cons, joined, flatMap_eq_joined (by simpa using htexts)]
      exact ht.append_space (hbar.append_space hlater)

/-- The counter of levels behind the tokens of a text. -/
def climbOf (t : String) : Climb :=
  match tokenize t with
  | .ok ws => climb ⟨0, [], 0⟩ (ws.map Lexeme.token)
  | .error _ => ⟨0, [], 0⟩

/-- The levels that are needed to read the text as a type. -/
def levelsNeeded (t : String) : Nat :=
  (climbOf t).peak

/-- The levels that the text still holds when it has been read as a member of a union. -/
def levelsHeld (t : String) : Nat :=
  (climbOf t).level

/-- **The counter tells the toll** of a text that has the tokens of a type. -/
theorem levels_eq (hread : ReadAs t.toList ts) (hrow : UnionRow ts c) :
    levelsNeeded t = c.need ∧ levelsHeld t = c.held := by
  obtain ⟨ws, htext, rfl⟩ := hread.tokenize
  have hclimb : climbOf t = Climb.pay ⟨0, [], 0⟩ c := by
    rw [climbOf, htext]
    exact hrow.climb_eq _ (Nat.le_refl 0)
  simp [levelsNeeded, levelsHeld, hclimb, Climb.pay]

/-- The brackets in the parentheses hold nothing in the end. -/
example : levelsNeeded "(a[][] | b)[]" = 3 ∧ levelsHeld "(a[][] | b)[]" = 1 := by
  decide +kernel

end Texts

/-! ### Unions -/

/-- The levels that parts hold add up. -/
theorem held_tolls {α : Type} (toll : α → Toll) (as : List α) :
    (tolls toll as).held = (as.map fun a => (toll a).held).sum := by
  induction as with
  | nil => rfl
  | cons a as ih => exact congrArg ((toll a).held + ·) ih

/-- The levels of texts that follow each other, as their tokens tell them. -/
theorem tolls_levels_le {toll : String → Toll} {texts : List String} {n : Nat}
    (h : ∀ t ∈ texts, levelsNeeded t = (toll t).need ∧ levelsHeld t = (toll t).held) :
    (tolls toll texts).need ≤ n ↔ ∀ before t after, texts = before ++ t :: after →
      (before.map levelsHeld).sum + levelsNeeded t ≤ n := by
  rw [tolls_need_le]
  refine forall_congr' fun before => forall_congr' fun t => forall_congr' fun after =>
    forall_congr' fun hsplit => ?_
  have hheld : before.map levelsHeld = before.map fun t => (toll t).held :=
    List.map_congr_left fun u hu => (h u (by simp [hsplit, hu])).2
  rw [held_tolls, hheld, (h t (by simp [hsplit])).1]

namespace Script

/-- **An annotation is taken exactly if its levels suffice,** together with one for the statement
and one for the type. -/
theorem declaresOne_iff (name : String) {t : String} {ts : List Token} {c : Toll}
    (hread : ReadAs t.toList ts) (hrow : UnionRow ts c) :
    (DeclaresOne name (annotatedText t) ↔ c.need ≤ nestingLimit - 2) ∧
    (¬DeclaresOne name (annotatedText t) → ∃ errors, parse name (annotatedText t) = .error errors ∧
      ∃ e ∈ errors, e.problem = .nestedTooDeeply) := by
  obtain ⟨ws, htext, htokens⟩ := hread.annotated.tokenize
  obtain ⟨hfaces, hlog⟩ := Parse.State.faces_ofText htext
  rw [htokens] at hfaces
  have hrun := Parse.completes_annotatedStatements (nestingLimit - 1) hrow hfaces
  obtain ⟨hfits, htooDeep⟩ := parse_of_completes name hlog hrun
  have hneed : c.within.within.need ≤ nestingLimit ↔ c.need ≤ nestingLimit - 2 := by
    simp only [Toll.within, nestingLimit]
    omega
  have htaken : c.need ≤ nestingLimit - 2 → DeclaresOne name (annotatedText t) := fun hle => by
    obtain ⟨_, hparse, x, rfl, hx⟩ := hfits (hneed.mpr hle)
    exact ⟨x, hparse, hx⟩
  refine ⟨⟨?_, htaken⟩, fun hnot => htooDeep ?_⟩
  · rintro ⟨x, hparse, -⟩
    by_contra hlt
    obtain ⟨errors, herror, -⟩ := htooDeep (Nat.lt_of_not_le fun hle => hlt (hneed.mp hle))
    rw [hparse] at herror
    cases herror
  · exact Nat.lt_of_not_le fun hle => hnot (htaken (hneed.mp hle))

/-- **What the nesting limit means for a union.** Let every text of the list be taken as the
annotation of a variable. All of them with bars between them are taken as well exactly if for each
of them the levels that it needs are left by those that the texts before it hold, with one level
more for the statement and one for the type; otherwise the nesting is among the errors. -/
theorem union_taken_iff (name : String) {texts : List String} (hne : texts ≠ [])
    (hfree : ∀ t ∈ texts, CommentFree t.toList) (hsemicolon : ∀ t ∈ texts, ';' ∉ t.toList)
    (htaken : ∀ t ∈ texts, DeclaresOne name (annotatedText t)) :
    (DeclaresOne name (annotatedText (" | ".intercalate texts)) ↔
      ∀ before t after, texts = before ++ t :: after →
        (before.map levelsHeld).sum + levelsNeeded t ≤ nestingLimit - 2) ∧
    (¬DeclaresOne name (annotatedText (" | ".intercalate texts)) →
      ∃ errors, parse name (annotatedText (" | ".intercalate texts)) = .error errors ∧
        ∃ e ∈ errors, e.problem = .nestedTooDeeply) := by
  have hrow : ∀ t ∈ texts, ∃ row : List Token × Toll, ReadAs t.toList row.1 ∧ UnionRow row.1 row.2 :=
    fun t ht => by
      obtain ⟨ts, c, hread, hrow⟩ := (htaken t ht).exists_row (hfree t ht) (hsemicolon t ht)
      exact ⟨(ts, c), hread, hrow⟩
  have hnonempty : Nonempty (List Token × Toll) := ⟨([], .free)⟩
  choose! row hread hrow using hrow
  have hlevels : ∀ t ∈ texts, levelsNeeded t = (row t).2.need ∧ levelsHeld t = (row t).2.held :=
    fun t ht => levels_eq (hread t ht) (hrow t ht)
  rw [← tolls_levels_le hlevels]
  exact declaresOne_iff name (readAs_intercalate hne hread) (UnionRow.join hne hrow)

/-! ### Arrays in a union -/

/-- The tokens of the type `a[]`. -/
def arrayTokens : List Token :=
  [.identifier "a"] ++ [.punctuator .leftBracket, .punctuator .rightBracket]

/-- An array takes one level, which it holds. -/
theorem memberRow_array : MemberRow arrayTokens (Toll.free.andThen .level) :=
  .array (.word (.inr (.inr (.inr ⟨"a", rfl⟩))))

theorem readAs_array : ReadAs "a[]".toList arrayTokens := by
  have hname : ReadAs "a".toList [.identifier "a"] :=
    .spelled (.name rfl (by simp) fun word => by cases word <;> decide)
  have hleft : ReadAs "[".toList [.punctuator .leftBracket] := .spelled (.sign .leftBracket)
  have hright : ReadAs "]".toList [.punctuator .rightBracket] := .spelled (.sign .rightBracket)
  exact hname.append (closes_head?_cons rfl) (hleft.append (closes_head?_cons rfl) hright)

theorem readAs_parenthesizedArray : ReadAs "( a[])".toList
    (.punctuator .leftParen :: (arrayTokens ++ [.punctuator .rightParen])) := by
  have hleft : ReadAs "(".toList [.punctuator .leftParen] := .spelled (.sign .leftParen)
  have hright : ReadAs ")".toList [.punctuator .rightParen] := .spelled (.sign .rightParen)
  exact hleft.append_space (readAs_array.append (closes_head?_cons rfl) hright)

theorem declaresOne_array : DeclaresOne "a.ts" (annotatedText "a[]") :=
  (declaresOne_iff "a.ts" readAs_array (.one memberRow_array)).1.mpr (by decide)

theorem declaresOne_parenthesizedArray : DeclaresOne "a.ts" (annotatedText "( a[])") :=
  (declaresOne_iff "a.ts" readAs_parenthesizedArray
    (.one (UnionRow.one memberRow_array).parenthesized)).1.mpr (by decide)

/-- The theorem at an array in parentheses, which holds nothing, in front of one without. -/
theorem union_taken_iff_parenthesized :
    annotatedText (" | ".intercalate ["( a[])", "a[]"]) = "let x: ( a[]) | a[];" ∧
      DeclaresOne "a.ts" "let x: ( a[]) | a[];" := by
  have htext : annotatedText (" | ".intercalate ["( a[])", "a[]"]) = "let x: ( a[]) | a[];" := by
    decide +kernel
  have hfree : ∀ t ∈ ["( a[])", "a[]"], CommentFree t.toList := by
    simp only [List.forall_mem_cons]
    exact ⟨commentFree_of_notMem (by decide), commentFree_of_notMem (by decide), by simp⟩
  have htaken : ∀ t ∈ ["( a[])", "a[]"], DeclaresOne "a.ts" (annotatedText t) := by
    simp only [List.forall_mem_cons]
    exact ⟨declaresOne_parenthesizedArray, declaresOne_array, by simp⟩
  have hlevels : levelsNeeded "( a[])" = 2 ∧ levelsHeld "( a[])" = 0 ∧ levelsNeeded "a[]" = 1 := by
    decide +kernel
  have hunion := (union_taken_iff "a.ts" (by simp) hfree (by decide) htaken).1
  rw [htext] at hunion
  refine ⟨htext, hunion.mpr fun before t after hsplit => ?_⟩
  rcases before with _ | ⟨b, _ | ⟨b', before⟩⟩
  · obtain rfl : "( a[])" = t := (List.cons.inj hsplit).1
    rw [hlevels.1]
    decide
  · obtain ⟨rfl, hlater⟩ := List.cons.inj hsplit
    obtain rfl : "a[]" = t := (List.cons.inj hlater).1
    simp [hlevels, nestingLimit]
  · simp at hsplit

/-- **Ninety-nine arrays are too many members,** though each of them can be read alone: the levels
of their brackets add up. -/
theorem union_refused : ¬∀ (name : String) (texts : List String), texts ≠ [] →
    (∀ t ∈ texts, CommentFree t.toList) → (∀ t ∈ texts, ';' ∉ t.toList) →
    (∀ t ∈ texts, DeclaresOne name (annotatedText t)) →
    DeclaresOne name (annotatedText (" | ".intercalate texts)) := by
  intro hall
  have hne : List.replicate 99 "a[]" ≠ [] := by simp
  have hmem : ∀ t ∈ List.replicate 99 "a[]", t = "a[]" := fun t ht => List.eq_of_mem_replicate ht
  have htaken := hall "a.ts" (List.replicate 99 "a[]") hne
    (fun t ht => hmem t ht ▸ commentFree_of_notMem (by decide))
    (fun t ht => hmem t ht ▸ (by decide)) (fun t ht => hmem t ht ▸ declaresOne_array)
  have hread : ReadAs (" | ".intercalate (List.replicate 99 "a[]")).toList
      (joined .bar ((List.replicate 99 "a[]").map fun _ => arrayTokens)) :=
    readAs_intercalate hne fun t ht => hmem t ht ▸ readAs_array
  have hrow : UnionRow (joined .bar ((List.replicate 99 "a[]").map fun _ => arrayTokens))
      (tolls (fun _ => Toll.free.andThen .level) (List.replicate 99 "a[]")) :=
    .join hne fun _ _ => .one memberRow_array
  have hle := (declaresOne_iff "a.ts" hread hrow).1.mp htaken
  revert hle
  decide +kernel

end Script

end ScriptLint
