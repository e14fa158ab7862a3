import ScriptLint.Proofs.Parsing.Faults
import ScriptLint.Proofs.Syntax.Sites
import ScriptLint.Proofs.Token.Table
import ScriptLint.Proofs.Types.OneLine
import Mathlib.Data.List.TakeWhile
/-!
# Where the texts of a tree come from

Besides numbers a tree holds two kinds of texts: names and the values of
strings. Whatever was passed over while the tree was read, each of its texts is
the text of a token. A name is made of letters, numerals and two signs, so it
has no newline. The value of a string has one where it is written as an escape.

Of the texts that a lexical error shows only one can have a newline: that of
an escape sequence at which a line of the source ends.

Key definitions: `Token.text?`, `Expr.texts`, `Site.texts`, `DrawnFrom`.
Key theorems: `Stmt.SpellsAll.texts_drawn`, `oneLine_name`, `oneLine_fault_iff`,
`Script.text_cases`.
-/

namespace ScriptLint

/-! ### Texts -/

/-- The name or the value of a string that a token stands for. -/
def Token.text? : Token → Option String
  | .string value => some value
  | token => token.name?

mutual

/-- The names and the values of strings in an expression, at any depth. -/
def Expr.texts : Expr → List String
  | .number _ _ => []
  | .string value _ => [value]
  | .boolean _ _ => []
  | .null _ => []
  | .identifier name => [name.name]
  | .binary _ left right _ => left.texts ++ right.texts
  | .unary _ operand _ => operand.texts
  | .typeOf operand _ => operand.texts
  | .assignment _ target value _ => target.texts ++ value.texts
  | .conditional condition whenTrue whenFalse _ =>
    condition.texts ++ (whenTrue.texts ++ whenFalse.texts)
  | .call callee arguments _ => callee.texts ++ Expr.textsAll arguments
  | .property object name _ => object.texts ++ [name.name]
  | .element object index _ => object.texts ++ index.texts
  | .parenthesized inner _ => inner.texts
  | .array elements _ => Expr.textsAll elements

/-- The names and the values of strings in the expressions of a list. -/
def Expr.textsAll : List Expr → List String
  | [] => []
  | e :: es => e.texts ++ Expr.textsAll es

end

/-- The names and the values of strings at a site. -/
def Site.texts (site : Site) : List String :=
  site.name?.toList.map Ident.name ++
    (site.references.map Ident.name ++ site.expression?.toList.flatMap Expr.texts)

/-- The names and the values of strings in a script. -/
def Script.texts (script : Script) : List String :=
  script.sites.flatMap Site.texts

/-! ### Where they stand -/

/-- Each of the texts is that of one of the lexemes. -/
def DrawnFrom (ws : List Lexeme) (texts : List String) : Prop :=
  ∀ text ∈ texts, ∃ w ∈ ws, w.token.text? = some text

namespace DrawnFrom

variable {ws us : List Lexeme} {xs ys : List String}

theorem nil : DrawnFrom ws [] := nofun

theorem mono (h : DrawnFrom ws xs) (hsub : ws ⊆ us) : DrawnFrom us xs := fun text htext =>
  let ⟨w, hw, hdrawn⟩ := h text htext
  ⟨w, hsub hw, hdrawn⟩

theorem append (h : DrawnFrom ws xs) (h' : DrawnFrom us ys) : DrawnFrom (ws ++ us) (xs ++ ys) := by
  intro text htext
  rcases List.mem_append.mp htext with htext | htext
  · exact h.mono (List.subset_append_left ws us) text htext
  · exact h'.mono (List.subset_append_right ws us) text htext

theorem skip (h : DrawnFrom ws xs) (w : Lexeme) : DrawnFrom (w :: ws) xs :=
  h.mono (List.subset_cons_self w ws)

theorem before (h : DrawnFrom ws xs) (us : List Lexeme) : DrawnFrom (ws ++ us) xs :=
  h.mono (List.subset_append_left ws us)

theorem single {w : Lexeme} {text : String} (h : w.token.text? = some text) :
    DrawnFrom [w] [text] := by
  intro other hother
  rw [List.mem_singleton.mp hother]
  exact ⟨w, List.mem_singleton_self w, h⟩

end DrawnFrom

theorem Token.text?_of_name? {token : Token} {name : String} (h : token.name? = some name) :
    token.text? = some name := by
  cases token with
  | string _ => cases h
  | _ => exact h

theorem Ident.SpelledBy.drawn {name : Ident} {w : Lexeme} (h : name.SpelledBy w) :
    DrawnFrom [w] [name.name] :=
  .single (Token.text?_of_name? h.1)

theorem NamesWithin.drawn {names : List Ident} {ws : List Lexeme} (h : NamesWithin names ws) :
    DrawnFrom ws (names.map Ident.name) := by
  intro text htext
  obtain ⟨name, hname, rfl⟩ := List.mem_map.mp htext
  obtain ⟨w, hw, hspelled⟩ := h.spelled name hname
  exact ⟨w, hw, Token.text?_of_name? hspelled.1⟩

mutual

theorem Expr.Spells.texts_drawn : ∀ {e : Expr} {ws : List Lexeme}, e.Spells ws →
    DrawnFrom ws e.texts
  | .number _ _, _, _ | .boolean _ _, _, _ | .null _, _, _ => by
    rw [Expr.texts]
    exact .nil
  | .string _ _, _, .string h => .single (by rw [h]; rfl)
  | .identifier _, _, .identifier h => h.drawn
  | .binary _ _ _ _, _, .binary h _ h' | .assignment _ _ _ _, _, .assignment h _ h' => by
    rw [Expr.texts]
    exact h.texts_drawn.append (h'.texts_drawn.skip _)
  | .unary _ _ _, _, .unary _ h | .typeOf _ _, _, .typeOf _ h => by
    rw [Expr.texts]
    exact h.texts_drawn.skip _
  | .conditional _ _ _ _, _, .conditional hc _ h _ h' => by
    rw [Expr.texts]
    refine hc.texts_drawn.append (DrawnFrom.skip ?_ _)
    exact h.texts_drawn.append (h'.texts_drawn.skip _)
  | .call _ _ _, _, .call h _ hs _ => by
    rw [Expr.texts]
    exact h.texts_drawn.append (((Expr.textsAll_drawn hs).before _).skip _)
  | .property _ _ _, _, .property h _ hname => by
    rw [Expr.texts]
    exact h.texts_drawn.append (hname.drawn.skip _)
  | .element _ _ _, _, .element h _ h' _ => by
    rw [Expr.texts]
    exact h.texts_drawn.append ((h'.texts_drawn.before _).skip _)
  | .parenthesized _ _, _, .parenthesized _ h _ => by
    rw [Expr.texts]
    exact (h.texts_drawn.before _).skip _
  | .array _ _, _, .array _ hs _ => by
    rw [Expr.texts]
    exact ((Expr.textsAll_drawn hs).before _).skip _

theorem Expr.textsAll_drawn : ∀ {es : List Expr} {ws : List Lexeme},
    Listed Expr.Spells es ws → DrawnFrom ws (Expr.textsAll es)
  | [], _, .nil => .nil
  | [_], _, .last h => by
    rw [Expr.textsAll, Expr.textsAll, List.append_nil]
    exact h.texts_drawn
  | _ :: _, _, .more h _ hs => by
    rw [Expr.textsAll]
    exact h.texts_drawn.append ((Expr.textsAll_drawn hs).skip _)

end

section Parts

variable {ws : List Lexeme} {sign : Punctuator}

theorem Behind.references_drawn {type : Option TypeExpr}
    (h : Behind sign TypeExpr.Spells type ws) :
    DrawnFrom ws ((type.toList.flatMap TypeExpr.references).map Ident.name) :=
  (h.names_within fun _ _ ht => ht.references_within).drawn

theorem Behind.texts_drawn {value : Option Expr} (h : Behind sign Expr.Spells value ws) :
    DrawnFrom ws (value.toList.flatMap Expr.texts) := by
  cases h with
  | none => exact .nil
  | some _ he => simpa using he.texts_drawn.skip _

theorem Perhaps.texts_drawn {value : Option Expr} (h : Perhaps Expr.Spells value ws) :
    DrawnFrom ws ((value.toList.map Site.expression).flatMap Site.texts) := by
  cases h with
  | none => exact .nil
  | some he => simpa [Site.texts, Site.name?, Site.references, Site.type?, Site.expression?]
      using he.texts_drawn

/-- What stands at a site that is an expression. -/
theorem Expr.Spells.site_drawn {e : Expr} (h : e.Spells ws) :
    DrawnFrom ws (Site.texts (.expression e)) := by
  simpa [Site.texts, Site.name?, Site.references, Site.type?, Site.expression?] using h.texts_drawn

theorem Declarator.Spells.texts_drawn {kind : DeclKind} {d : Declarator} (h : d.Spells ws) :
    DrawnFrom ws (Site.texts (.declarator kind d)) := by
  cases h with
  | mk hname htype hvalue =>
    exact hname.drawn.append (htype.references_drawn.append hvalue.texts_drawn)

theorem Parameter.Spells.texts_drawn {p : Parameter} (h : p.Spells ws) :
    DrawnFrom ws (Site.texts (.parameter p)) := by
  cases h with
  | mk hname htype =>
    have hboth := hname.drawn.append htype.references_drawn
    simpa [Site.texts, Site.name?, Site.references, Site.type?, Site.expression?] using hboth

theorem Separated.texts_drawn {α : Type} {P : α → List Lexeme → Prop} {f : α → Site}
    (hP : ∀ a us, P a us → DrawnFrom us (f a).texts) {as : List α} (h : Separated sign P as ws) :
    DrawnFrom ws ((as.map f).flatMap Site.texts) := by
  induction h with
  | one ha => simpa using hP _ _ ha
  | more ha _ _ ih =>
    rw [List.map_cons, List.flatMap_cons]
    exact (hP _ _ ha).append (ih.skip _)

theorem Declaration.Spells.texts_drawn {d : Declaration} (h : d.Spells ws) :
    DrawnFrom ws (d.sites.flatMap Site.texts) := by
  cases h with
  | mk _ hds => exact (hds.texts_drawn fun _ _ hd => hd.texts_drawn).skip _

theorem ForStart.texts_drawn {start : Option ForStart} (h : Perhaps ForStart.Spells start ws) :
    DrawnFrom ws ((start.toList.flatMap ForStart.sites).flatMap Site.texts) := by
  cases h with
  | none => exact .nil
  | some h =>
    cases h with
    | declaration hd => simpa [ForStart.sites] using hd.texts_drawn
    | expression he => simpa [ForStart.sites] using he.site_drawn

theorem Signature.Spells.texts_drawn {f : Signature} (h : f.Spells ws) :
    DrawnFrom ws (f.sites.flatMap Site.texts) := by
  cases h with
  | @mk name ps type fn w l r ps' ts _ hname _ hps _ htype =>
    have hparameters : DrawnFrom ps' ((ps.map Site.parameter).flatMap Site.texts) := by
      cases hps with
      | nil => exact .nil
      | some hps => exact hps.texts_drawn fun _ _ hp => hp.texts_drawn
    have hhead := hname.drawn.append htype.references_drawn
    rw [Signature.sites, List.flatMap_append]
    intro text htext
    rcases List.mem_append.mp htext with htext | htext
    · obtain ⟨v, hv, hdrawn⟩ := hparameters text htext
      exact ⟨v, by simp [hv], hdrawn⟩
    · have hsite : text ∈ [name.name] ++ (type.toList.flatMap TypeExpr.references).map Ident.name := by
        simpa [Site.texts, Site.name?, Site.references, Site.type?, Site.expression?] using htext
      obtain ⟨v, hv, hdrawn⟩ := hhead text hsite
      refine ⟨v, ?_, hdrawn⟩
      rcases List.mem_append.mp hv with hv | hv
      · simp [List.mem_singleton.mp hv]
      · simp [hv]

theorem Ended.subset {us : List Lexeme} (h : Ended ws us) : ws ⊆ us := by
  cases h with
  | bare => exact List.Subset.refl ws
  | semicolon _ => exact List.subset_append_left ws _

end Parts

mutual

theorem Stmt.Spells.texts_drawn {junk : Prop} : ∀ {s : Stmt} {ws : List Lexeme},
    Stmt.Spells junk s ws → DrawnFrom ws (s.sites.flatMap Site.texts)
  | _, _, .variables hd he => by
    rw [Stmt.sites]
    exact hd.texts_drawn.mono he.subset
  | _, _, .function hf _ hb _ => by
    rw [Stmt.sites, List.flatMap_append]
    exact hf.texts_drawn.append ((hb.texts_drawn.before _).skip _)
  | _, _, .block _ hb _ => by
    rw [Stmt.sites]
    exact (hb.texts_drawn.before _).skip _
  | _, _, .ifThen _ _ hc _ hs | _, _, .whileLoop _ _ hc _ hs => by
    rw [Stmt.sites, List.flatMap_cons]
    exact ((hc.site_drawn.append (hs.texts_drawn.skip _)).skip _).skip _
  | _, _, .ifElse _ _ hc _ hs _ hs' => by
    rw [Stmt.sites, List.flatMap_cons, List.flatMap_append]
    refine ((hc.site_drawn.append (DrawnFrom.skip ?_ _)).skip _).skip _
    exact hs.texts_drawn.append (hs'.texts_drawn.skip _)
  | _, _, .forLoop _ _ ha _ hc _ hu _ hs => by
    rw [Stmt.sites, List.flatMap_append, List.flatMap_append, List.flatMap_append]
    refine (((ForStart.texts_drawn ha).append (DrawnFrom.skip ?_ _)).skip _).skip _
    refine hc.texts_drawn.append (DrawnFrom.skip ?_ _)
    exact hu.texts_drawn.append (hs.texts_drawn.skip _)
  | _, _, .returns _ hv he => by
    rw [Stmt.sites]
    exact (hv.texts_drawn.skip _).mono he.subset
  | _, _, .expression h he => by
    rw [Stmt.sites, List.flatMap_cons, List.flatMap_nil, List.append_nil]
    exact h.site_drawn.mono he.subset

/-- **The texts of statements are those of their lexemes.** -/
theorem Stmt.SpellsAll.texts_drawn {junk : Prop} : ∀ {body : List Stmt} {ws : List Lexeme},
    Stmt.SpellsAll junk body ws → DrawnFrom ws ((Stmt.sitesAll body).flatMap Site.texts)
  | _, _, .nil => .nil
  | _, _, .pass _ hb => hb.texts_drawn.skip _
  | _, _, .cons hs hb => by
    rw [Stmt.sitesAll, List.flatMap_append]
    exact hs.texts_drawn.append hb.texts_drawn

end

/-! ### Texts without a newline -/

theorem isNamePart_newline : isNamePart '\n' = false := by
  decide +kernel

/-- **A name has no newline.** -/
theorem oneLine_ofWord {word : List Char} (h : ∀ c ∈ word, isNamePart c = true) {name : String}
    (hname : (Token.ofWord (String.ofList word)).name? = some name) : OneLine name := by
  unfold Token.ofWord at hname
  split at hname
  · rename_i keyword _
    have hall : ∀ keyword ∈ Keyword.all, OneLine keyword.spelling := by decide
    have hmem : keyword ∈ Keyword.all := by cases keyword <;> decide
    unfold Token.name? at hname
    dsimp only at hname
    split at hname
    · exact Option.some.inj hname ▸ hall keyword hmem
    · cases hname
  · obtain rfl := Option.some.inj hname
    exact oneLine_of_forall h isNamePart_newline

/-- What a piece says shows a newline only if it is the value of a string, or an escape sequence at
which a line ends. -/
def Piece.OneLine : Piece → Prop
  | .gap => True
  | .token word => ∀ name, word.name? = some name → ScriptLint.OneLine name
  | .fault reason => reason = .invalidEscape '\n' ∨ ScriptLint.OneLine reason.message

theorem Char.oneLine_toString {c : Char} (h : c ≠ '\n') : OneLine c.toString := by
  have htext : c.toString.toList = [c] := by simp [Char.toString]
  rw [OneLine, htext]
  simpa using Ne.symm h

theorem munchString_oneLine (quote : Char) (cs : List Char) :
    (munchString quote cs).piece.OneLine := by
  unfold munchString
  dsimp only
  split
  · exact nofun
  · exact .inr (by decide)
  · rename_i e _
    by_cases he : e = '\n'
    · exact .inl (by rw [he])
    · exact .inr (oneLine_quoted (by decide) (Char.oneLine_toString he) (by decide))

theorem newline_notMem_splitFraction (cs : List Char) : '\n' ∉ (splitFraction cs).1 := by
  unfold splitFraction
  split
  · rw [List.mem_cons, not_or]
    refine ⟨by decide, fun hmem => ?_⟩
    have hdigit : isDigitOrSeparator '\n' = true := List.mem_takeWhile_imp hmem
    exact absurd hdigit (by decide)
  · exact List.not_mem_nil

theorem munchNumber_oneLine {digit : Char} (hdigit : digit.isDigit = true) (cs : List Char) :
    (munchNumber digit cs).piece.OneLine := by
  have hfirst : '\n' ≠ digit := by
    rintro rfl
    exact absurd hdigit (by decide)
  have hdigits : '\n' ∉ cs.takeWhile isDigitOrSeparator := by
    intro hmem
    have hnewline : isDigitOrSeparator '\n' = true := List.mem_takeWhile_imp hmem
    exact absurd hnewline (by decide)
  have hfraction := newline_notMem_splitFraction (cs.dropWhile isDigitOrSeparator)
  unfold munchNumber
  dsimp only
  split
  · exact nofun
  · refine .inr (oneLine_quoted (by decide) ?_ (by decide))
    rw [oneLine_ofList, List.mem_cons, List.mem_append, not_or, not_or]
    exact ⟨hfirst, hdigits, hfraction⟩

theorem munch_oneLine (c : Char) (cs : List Char) : (munch c cs).piece.OneLine := by
  unfold munch
  split
  · trivial
  next hblank =>
    have hc : c ≠ '\n' := by
      rintro rfl
      exact hblank (by decide)
    split
    · trivial
    split
    · unfold munchComment
      split
      · trivial
      · exact .inr (by decide)
    split
    · exact munchString_oneLine c cs
    split
    next hdigit => exact munchNumber_oneLine hdigit cs
    split
    next hstart =>
      intro name hname
      refine oneLine_ofWord (fun d hd => ?_) hname
      rcases List.mem_cons.mp hd with rfl | hd
      · exact isNamePart_of_isNameStart hstart
      · exact List.mem_takeWhile_imp hd
    · split
      · exact nofun
      · exact .inr (oneLine_quoted (by decide) (Char.oneLine_toString hc) (by decide))

/-- The piece that was scanned. -/
def Scanned.piece : Scanned → Piece
  | .ok w => .token w.token
  | .error e => .fault e.fault

theorem Munch.piece_scanned? {offset : Nat} {m : Munch} {item : Scanned}
    (h : m.scanned? offset = some item) : item.piece = m.piece := by
  unfold scanned? at h
  split at h
  next => cases h
  next heq =>
    cases h
    exact heq.symm
  next heq =>
    cases h
    exact heq.symm

/-- Nothing that is scanned shows a newline unless a piece of the text does. -/
theorem scanFrom_oneLine (cs : List Char) : ∀ offset, ∀ item ∈ scanFrom offset cs,
    item.piece.OneLine := by
  induction cs using munch_induction with
  | nil => simp [scanFrom]
  | cons c cs ih =>
    intro offset item hitem
    rw [scanFrom_cons, List.mem_append, Option.mem_toList] at hitem
    rcases hitem with hitem | hitem
    · rw [Munch.piece_scanned? hitem]
      exact munch_oneLine c cs
    · exact ih _ item hitem

/-- The name that a token stands for is one line. -/
theorem oneLine_name {text name : String} {w : Lexeme} (hw : Except.ok w ∈ scan text)
    (hname : w.token.name? = some name) : OneLine name :=
  scanFrom_oneLine text.toList 0 _ hw name hname

/-- **A lexical error says one line,** unless a line of the source ends at a backslash in a
string. -/
theorem oneLine_fault_iff {text : String} {e : LexicalError} (he : Except.error e ∈ scan text) :
    OneLine e.fault.message ↔ e.fault ≠ .invalidEscape '\n' := by
  constructor
  · intro hline hfault
    rw [hfault] at hline
    exact absurd hline (by decide)
  · exact (scanFrom_oneLine text.toList 0 _ he).resolve_left

theorem Parse.scanned_of_mem_lexemesOf {items : List Scanned} {w : Lexeme}
    (h : w ∈ lexemesOf items) : Except.ok w ∈ items := by
  obtain ⟨item, hitem, hok⟩ := List.mem_filterMap.mp h
  cases item with
  | error e => cases hok
  | ok v =>
    cases hok
    exact hitem

/-- **A text in a tree is one line or the value of a string** that was scanned. -/
theorem Script.text_cases {name text shown : String}
    (h : shown ∈ (recover name text).1.texts) :
    OneLine shown ∨ ∃ w, Except.ok w ∈ scan text ∧ w.token = .string shown := by
  obtain ⟨w, hw, hshown⟩ := (derives_readBody text).2.1.1.texts_drawn shown h
  have hscanned := Parse.scanned_of_mem_lexemesOf hw
  cases htoken : w.token with
  | string value =>
    rw [htoken] at hshown
    obtain rfl := Option.some.inj hshown
    exact .inr ⟨w, hscanned, htoken⟩
  | _ =>
    rw [htoken] at hshown
    refine .inl (oneLine_name hscanned ?_)
    rw [htoken]
    exact hshown

end ScriptLint
