import ScriptLint.Proofs.Parsing.SoundExpression
import ScriptLint.Proofs.Parsing.Yields
/-!
# Types and expressions are read back

A reader of types or expressions that faces the canonical tokens of a tree
yields that tree, up to the places of its nodes, as long as what follows
does not belong to it. The readers of one level are shown complete from the
readers one level deeper.

Trees that lean to the left are read by loops: brackets behind a type,
accesses behind an object, operators behind an operand. Each loop is followed
along the left spine of the tree. The lemma for a spine says that the reader
comes to the loop with the whole spine as its value, whatever the loop does
from there on.

Key definitions: `EndsType`, `Rank.Ends`, `ReadsTypes`, `ReadsExprs`.
Key theorems: `delivers_typeExpr`, `delivers_expression`.
-/

namespace ScriptLint

/-! ### Lists of trees -/

theorem TypeExpr.rows_eq (ts : List TypeExpr) : TypeExpr.rows ts = ts.map TypeExpr.memberTokens := by
  induction ts with
  | nil => rfl
  | cons t ts ih => rw [TypeExpr.rows, ih, List.map_cons]

theorem TypeExpr.tollAll_eq (ts : List TypeExpr) : TypeExpr.tollAll ts = tolls TypeExpr.toll ts := by
  induction ts with
  | nil => rfl
  | cons t ts ih => rw [TypeExpr.tollAll, ih, tolls]

theorem TypeExpr.readable_of_mem {ts : List TypeExpr} (h : TypeExpr.ReadableAll ts) :
    ∀ t ∈ ts, t.Readable := by
  induction ts with
  | nil => simp
  | cons t ts ih =>
    intro u hu
    rcases List.mem_cons.mp hu with rfl | hu
    · exact h.1
    · exact ih h.2 u hu

theorem Expr.rows_eq (es : List Expr) : Expr.rows es = es.map Expr.tokens := by
  induction es with
  | nil => rfl
  | cons e es ih => rw [Expr.rows, ih, List.map_cons]

theorem Expr.tollAll_eq (es : List Expr) : Expr.tollAll es = tolls Expr.wholeToll es := by
  induction es with
  | nil => rfl
  | cons e es ih => rw [Expr.tollAll, ih, tolls, Expr.wholeToll]

/-- What holds of the expressions of a list holds of each of them. -/
theorem Expr.of_mem {es : List Expr} (hg : Expr.GroupedAll es) (hr : Expr.ReadableAll es) :
    ∀ e ∈ es, e.Grouped ∧ e.Readable := by
  induction es with
  | nil => simp
  | cons e es ih =>
    intro f hf
    rcases List.mem_cons.mp hf with rfl | hf
    · exact ⟨hg.1, hr.1⟩
    · exact ih hg.2 hr.2 f hf

namespace Parse

variable {limit : Nat} {s : State} {rest : List Token}

/-! ### Types -/

/-- What follows belongs to no type. -/
structure EndsType (rest : List Token) : Prop where
  bracket : rest.head? ≠ some (.punctuator .leftBracket)
  bar : rest.head? ≠ some (.punctuator .bar)

/-- The reader reads types back. -/
def ReadsTypes (limit : Nat) (inner : Parse TypeExpr) : Prop :=
  ∀ t : TypeExpr, t.Readable → ∀ s rest, EndsType rest → s.Faces limit (t.tokens ++ rest) →
    Delivers limit s inner (t.Alike anyPlace) rest t.wholeToll

section Types

variable {inner : Parse TypeExpr}

theorem delivers_keywordType (word : TypeKeyword) {span : Span}
    (hs : s.Faces limit (word.token :: rest)) :
    Delivers limit s (simpleType inner) ((TypeExpr.keyword word span).Alike anyPlace) rest .free := by
  refine Yields.currentSpan_bind (Yields.peek_bind hs ?_)
  cases word <;> exact Yields.advance_bind hs fun t ht => Yields.pure ht (.keyword trivial)

theorem delivers_simpleType (hinner : ReadsTypes limit inner) {t : TypeExpr} (ht : t.Readable)
    (hne : ∀ e span, t ≠ .array e span) (hs : s.Faces limit (t.memberTokens ++ rest)) :
    Delivers limit s (simpleType inner) (t.Alike anyPlace) rest t.toll := by
  cases t with
  | keyword word span => exact delivers_keywordType word hs
  | literal value span =>
    refine Yields.currentSpan_bind (Yields.peek_bind hs ?_)
    cases value <;> exact Yields.advance_bind hs fun u hu => Yields.pure hu (.literal trivial)
  | reference name =>
    obtain ⟨htoken, hname⟩ := ht
    have hs' : s.Faces limit (.identifier name.name :: rest) := by
      rw [← htoken]
      exact hs
    refine Yields.currentSpan_bind (Yields.peek_bind hs' ?_)
    have hkeyword : typeKeyword? (.identifier name.name) = none := by
      unfold typeKeyword?
      split <;> simp_all
    simp only [List.head?_cons, hkeyword]
    exact Yields.advance_bind hs' fun u hu => Yields.pure hu (.reference ⟨rfl, trivial⟩)
  | array e span => exact absurd rfl (hne e span)
  | union members span =>
    simp only [TypeExpr.memberTokens, List.cons_append, List.append_assoc] at hs
    refine Yields.currentSpan_bind (Yields.peek_bind hs (Yields.advance_bind hs fun u hu => ?_))
    have hends : EndsType (.punctuator .rightParen :: rest) := ⟨by simp, by simp⟩
    have hunion := hinner (.union members span) ht u _ hends hu
    refine Yields.of_eq (Yields.bind hunion fun a v ha hv => ?_) (Toll.andThen_free _)
    exact Yields.expect_bind hv fun w hw => Yields.pure hw ha

/-- A round of the loop for brackets. -/
def bracketRound (start : Nat) (element : TypeExpr) : Parse (Round TypeExpr) := do
  if (← peek) = some (.punctuator .leftBracket) then
    descend
    advance
    expect .rightBracket
    return .again (.array element (← spanFrom start))
  else return .done element

/-- A pair of brackets makes an array, and holds its level. -/
theorem delivers_bracketPair {start : Nat} {a : TypeExpr}
    (hs : s.Faces limit (.punctuator .leftBracket :: .punctuator .rightBracket :: rest)) :
    Delivers limit s (bracketRound start a) (Yields.GoesOn fun b => ∃ span, b = .array a span) rest
      .level := by
  refine Yields.peek_cons_bind hs ?_
  rw [if_pos rfl]
  refine Yields.of_eq (Yields.descend_bind hs fun u hu => ?_) (Toll.andThen_free _)
  refine Yields.advance_bind hu fun v hv => Yields.expect_bind hv fun w hw => ?_
  exact Yields.spanFrom_bind (Yields.pure hw ⟨_, rfl⟩)

/-- The spine of an array type: its innermost element, and then all brackets. -/
theorem delivers_brackets (hinner : ReadsTypes limit inner) (start : Nat) :
    ∀ (t : TypeExpr) {s : State} {rest final : List Token} {R : TypeExpr → Prop} {c : Toll},
      t.Readable → s.Faces limit (t.memberTokens ++ rest) →
      (∀ a u, t.Alike anyPlace a → u.Faces limit rest →
        Delivers limit u (loop (bracketRound start) a) R final c) →
      Delivers limit s (simpleType inner >>= loop (bracketRound start)) R final (t.toll.andThen c)
  | .array e span, s, rest, final, R, c, ht, hs, hnext => by
    simp only [TypeExpr.memberTokens, List.append_assoc] at hs
    refine Yields.of_eq (delivers_brackets hinner start e ht hs fun a u ha hu => ?_)
      (Toll.andThen_assoc _ .level c).symm
    have hlt : rest.length < (rest.length + 1) + 1 := by omega
    refine Yields.loop_again hu (delivers_bracketPair hu) hlt ?_
    rintro b v ⟨span', rfl⟩ hv
    exact hnext _ v (.array ha trivial) hv
  | .keyword word span, _, _, _, _, _, ht, hs, hnext =>
    Yields.bind (delivers_simpleType hinner ht (by simp) hs) hnext
  | .literal value span, _, _, _, _, _, ht, hs, hnext =>
    Yields.bind (delivers_simpleType hinner ht (by simp) hs) hnext
  | .reference name, _, _, _, _, _, ht, hs, hnext =>
    Yields.bind (delivers_simpleType hinner ht (by simp) hs) hnext
  | .union members span, _, _, _, _, _, ht, hs, hnext =>
    Yields.bind (delivers_simpleType hinner ht (by simp) hs) hnext

theorem delivers_arrayType (hinner : ReadsTypes limit inner) {t : TypeExpr} (ht : t.Readable)
    (hrest : rest.head? ≠ some (.punctuator .leftBracket))
    (hs : s.Faces limit (t.memberTokens ++ rest)) :
    Delivers limit s (arrayType inner) (t.Alike anyPlace) rest t.toll := by
  refine Yields.currentSpan_bind ?_
  refine Yields.of_eq (delivers_brackets hinner s.span.start t ht hs fun a u ha hu => ?_)
    (Toll.andThen_free _)
  refine Yields.loop_done (Yields.peek_bind hu ?_)
  rw [if_neg hrest]
  exact Yields.pure hu ha

theorem members_of_readable {t : TypeExpr} (ht : t.Readable) :
    t.members ≠ [] ∧ ∀ m ∈ t.members, m.Readable := by
  cases t with
  | union members span =>
    refine ⟨?_, TypeExpr.readable_of_mem ht.2⟩
    have hlength : 2 ≤ members.length := ht.1
    intro hnil
    rw [show members = [] from hnil] at hlength
    simp at hlength
  | _ => simpa [TypeExpr.members] using ht

theorem delivers_unionType (hinner : ReadsTypes limit inner) {t : TypeExpr} (ht : t.Readable)
    (hrest : EndsType rest) (hs : s.Faces limit (t.tokens ++ rest)) :
    Delivers limit s (unionType inner) (t.Alike anyPlace) rest (TypeExpr.tollAll t.members) := by
  obtain ⟨hne, hmembers⟩ := members_of_readable ht
  rw [TypeExpr.tokens, TypeExpr.rows_eq] at hs
  rw [TypeExpr.tollAll_eq]
  refine Yields.currentSpan_bind ?_
  have hlist : Delivers limit s (separated .bar (arrayType inner))
      (List.Forall₂ (TypeExpr.Alike anyPlace) t.members) rest (tolls TypeExpr.toll t.members) := by
    refine delivers_separated hne (fun m hm u us hus hu => ?_) hrest.bar hs
    refine delivers_arrayType hinner (hmembers m hm) ?_ hu
    rcases hus with hbar | rfl
    · simp [hbar]
    · exact hrest.bracket
  refine Yields.of_eq (Yields.bind hlist fun as u has hu => ?_) (Toll.andThen_free _)
  cases t with
  | union members span =>
    rcases has with _ | ⟨hab, _ | ⟨hcd, hmore⟩⟩
    · simp [TypeExpr.Readable] at ht
    · simp [TypeExpr.Readable] at ht
    · exact Yields.spanFrom_bind (Yields.pure hu (.union (.cons hab (.cons hcd hmore)) trivial))
  | _ =>
    rcases has with _ | ⟨hab, _ | _⟩
    exact Yields.pure hu hab

end Types

/-- A type is read back, however deep. -/
theorem delivers_typeExpr : ∀ depth, ReadsTypes depth (typeExpr depth)
  | 0 => fun _ _ _ _ _ hs => Yields.fail hs rfl
  | depth + 1 => fun _ ht _ _ hrest hs =>
    Yields.nested hs fun _ hu => delivers_unionType (delivers_typeExpr depth) ht hrest hu

/-! ### Expressions -/

/-- The tokens that begin an access to what stands before them. -/
def opensAccess : Token → Bool
  | .punctuator .leftParen => true
  | .punctuator .dot => true
  | .punctuator .leftBracket => true
  | _ => false

/-- No access follows, and no binary operator of precedence `least` or higher. -/
structure EndsOperand (least : Nat) (rest : List Token) : Prop where
  access : ∀ token ∈ rest.head?, opensAccess token = false
  operator : ∀ op, rest.head?.bind BinaryOp.ofToken? = some op → op.precedence < least

/-- What follows belongs to no expression of the rank. All precedences lie below 11. -/
def Rank.Ends : Rank → List Token → Prop
  | .unary, rest => EndsOperand 11 rest
  | .binary least, rest => EndsOperand least rest
  | .assignment, rest => EndsOperand 1 rest ∧ rest.head? ≠ some (.punctuator .question) ∧
      rest.head?.bind AssignOp.ofToken? = none

/-- A reader of the rank comes to the expression. -/
def Rank.Admits : Rank → Expr → Prop
  | .unary, e => e.IsOperand
  | .binary least, e => 0 < e.strength ∧ min least 11 ≤ e.strength
  | .assignment, _ => True

/-- The readers of all ranks read expressions back. -/
def ReadsExprs (limit : Nat) (inner : Rank → Parse Expr) : Prop :=
  ∀ rank (e : Expr), e.Grouped → e.Readable → rank.Admits e → ∀ s rest,
    rank.Ends rest → s.Faces limit (e.tokens ++ rest) →
      Delivers limit s (inner rank) (e.Alike anyPlace) rest e.wholeToll

/-- A token that is no access and no binary operator ends every operand. -/
theorem endsOperand_of_token {token : Token} {ts : List Token} (haccess : opensAccess token = false)
    (hoperator : BinaryOp.ofToken? token = none) (least : Nat) : EndsOperand least (token :: ts) :=
  ⟨by simpa using haccess, by simp [hoperator]⟩

/-- A sign that ends every expression before it. -/
theorem ends_of_sign {sign : Punctuator} {ts : List Token} (rank : Rank)
    (h : sign ∈ [.semicolon, .comma, .colon, .rightParen, .rightBracket]) :
    rank.Ends (.punctuator sign :: ts) := by
  have hsign : opensAccess (.punctuator sign) = false ∧
      BinaryOp.ofToken? (.punctuator sign) = none ∧ sign ≠ .question ∧
      AssignOp.ofToken? (.punctuator sign) = none := by
    simp only [List.mem_cons, List.not_mem_nil, or_false] at h
    rcases h with rfl | rfl | rfl | rfl | rfl <;> decide
  obtain ⟨haccess, hoperator, hquestion, hassign⟩ := hsign
  have hends : ∀ least, EndsOperand least (.punctuator sign :: ts) :=
    endsOperand_of_token haccess hoperator
  cases rank with
  | assignment => exact ⟨hends 1, by simpa using hquestion, by simpa using hassign⟩
  | binary least => exact hends least
  | unary => exact hends 11

section Expressions

variable {inner : Rank → Parse Expr}

/-- The tokens that begin an expression without an operator in front. -/
def startsPrimary : Token → Bool
  | .number _ => true
  | .string _ => true
  | .identifier _ => true
  | .keyword word => word.isName || [.trueWord, .falseWord, .nullWord].contains word
  | .punctuator sign => [.leftParen, .leftBracket].contains sign

theorem startsPrimary_of_readable {name : Ident} (h : name.Readable) :
    startsPrimary name.token = true := by
  unfold Ident.Readable at h
  generalize name.token = token at h ⊢
  cases token with
  | identifier _ => rfl
  | keyword word => cases word <;> simp_all [Token.name?, Keyword.isName, startsPrimary]
  | _ => simp [Token.name?] at h

/-- An object begins with no operator. -/
theorem first_of_isObject : ∀ e : Expr, e.IsObject → e.Grouped → e.Readable →
    ∃ token ts, e.tokens = token :: ts ∧ startsPrimary token = true
  | .number value _, _, _, _ => ⟨_, _, rfl, rfl⟩
  | .string value _, _, _, _ => ⟨_, _, rfl, rfl⟩
  | .boolean value _, _, _, _ => ⟨_, _, rfl, by cases value <;> rfl⟩
  | .null _, _, _, _ => ⟨_, _, rfl, rfl⟩
  | .identifier name, _, _, hr => ⟨_, _, rfl, startsPrimary_of_readable hr⟩
  | .parenthesized inner _, _, _, _ => ⟨_, _, rfl, rfl⟩
  | .array elements _, _, _, _ => ⟨_, _, rfl, rfl⟩
  | .call callee arguments _, _, hg, hr => by
    obtain ⟨token, ts, htokens, hstarts⟩ := first_of_isObject callee hg.1 hg.2.1 hr.1
    exact ⟨token, _, by rw [Expr.tokens, htokens, List.cons_append], hstarts⟩
  | .property object name _, _, hg, hr => by
    obtain ⟨token, ts, htokens, hstarts⟩ := first_of_isObject object hg.1 hg.2 hr.1
    exact ⟨token, _, by rw [Expr.tokens, htokens, List.cons_append], hstarts⟩
  | .element object index _, _, hg, hr => by
    obtain ⟨token, ts, htokens, hstarts⟩ := first_of_isObject object hg.1 hg.2.1 hr.1
    exact ⟨token, _, by rw [Expr.tokens, htokens, List.cons_append], hstarts⟩
  | .binary op _ _ _, ho, _, _ => by
    have := op.precedence_le
    simp only [Expr.IsObject, Expr.strength] at ho
    omega
  | .unary _ _ _, ho, _, _ => by simp [Expr.IsObject, Expr.strength] at ho
  | .typeOf _ _, ho, _, _ => by simp [Expr.IsObject, Expr.strength] at ho
  | .assignment _ _ _ _, ho, _, _ => by simp [Expr.IsObject, Expr.strength] at ho
  | .conditional _ _ _ _, ho, _, _ => by simp [Expr.IsObject, Expr.strength] at ho

/-- The tokens that begin an expression. -/
def startsExpression (token : Token) : Bool :=
  startsPrimary token || (UnaryOp.ofToken? token).isSome || token == .keyword .typeofWord

/-- A row of tokens begins as an expression does. -/
def BeginsExpr (ts : List Token) : Prop :=
  ∃ token us, ts = token :: us ∧ startsExpression token = true

theorem BeginsExpr.append {ts : List Token} (h : BeginsExpr ts) (us : List Token) :
    BeginsExpr (ts ++ us) := by
  obtain ⟨token, vs, rfl, hstarts⟩ := h
  exact ⟨token, vs ++ us, rfl, hstarts⟩

theorem beginsExpr_of_isObject {e : Expr} (ho : e.IsObject) (hg : e.Grouped) (hr : e.Readable) :
    BeginsExpr e.tokens := by
  obtain ⟨token, ts, htokens, hstarts⟩ := first_of_isObject e ho hg hr
  exact ⟨token, ts, htokens, by simp [startsExpression, hstarts]⟩

theorem beginsExpr : ∀ e : Expr, e.Grouped → e.Readable → BeginsExpr e.tokens
  | .binary _ left _ _, hg, hr => (beginsExpr left hg.2.2.1 hr.1).append _
  | .assignment _ target _ _, hg, hr => (beginsExpr target hg.2.1 hr.1).append _
  | .conditional condition _ _ _, hg, hr => (beginsExpr condition hg.2.1 hr.1).append _
  | .unary op _ _, _, _ => ⟨_, _, rfl, by cases op <;> rfl⟩
  | .typeOf _ _, _, _ => ⟨_, _, rfl, rfl⟩
  | .number _ _, hg, hr | .string _ _, hg, hr | .boolean _ _, hg, hr | .null _, hg, hr
  | .identifier _, hg, hr | .call _ _ _, hg, hr | .property _ _ _, hg, hr
  | .element _ _ _, hg, hr | .parenthesized _ _, hg, hr | .array _ _, hg, hr =>
    beginsExpr_of_isObject (Nat.le_refl 12) hg hr

/-- Expressions in a list are read back one by one. -/
theorem delivers_exprs (hinner : ReadsExprs limit inner) {close : Punctuator}
    (hclose : close ∈ [.rightParen, .rightBracket]) {es : List Expr} (hg : Expr.GroupedAll es)
    (hr : Expr.ReadableAll es)
    (hs : s.Faces limit (joined .comma (Expr.rows es) ++ .punctuator close :: rest)) :
    Delivers limit s (listUntil close (inner .assignment)) (List.Forall₂ (Expr.Alike anyPlace) es)
      (.punctuator close :: rest) (Expr.tollAll es) := by
  rw [Expr.rows_eq] at hs
  rw [Expr.tollAll_eq]
  have hcomma : close ≠ .comma := by
    rintro rfl
    simp at hclose
  have hfirst : ∀ e ∈ es, ∃ token ts, e.tokens = token :: ts ∧ token ≠ .punctuator close := by
    intro e he
    obtain ⟨hge, hre⟩ := Expr.of_mem hg hr e he
    obtain ⟨token, ts, htokens, hstarts⟩ := beginsExpr e hge hre
    refine ⟨token, ts, htokens, ?_⟩
    rintro rfl
    simp only [List.mem_cons, List.not_mem_nil, or_false] at hclose
    rcases hclose with rfl | rfl <;> simp [startsExpression, startsPrimary, UnaryOp.ofToken?] at hstarts
  refine delivers_listUntil hcomma (fun e he u us hus hu => ?_) hfirst hs
  obtain ⟨hge, hre⟩ := Expr.of_mem hg hr e he
  refine hinner .assignment e hge hre trivial u us ?_ hu
  obtain ⟨next, vs, rfl, hnext⟩ := sign_of_next hus
  refine ends_of_sign _ ?_
  simp only [List.mem_cons, List.not_mem_nil, or_false] at hclose hnext ⊢
  rcases hnext with rfl | rfl
  · simp
  · rcases hclose with rfl | rfl <;> simp

theorem delivers_name {name : Ident} (hname : name.Readable)
    (hs : s.Faces limit (name.token :: rest)) :
    Delivers limit s (primary inner) ((Expr.identifier name).Alike anyPlace) rest .free := by
  have hnamed : (some name.token).bind Token.name? = some name.name := hname
  refine Yields.currentSpan_bind (Yields.peek_cons_bind hs ?_)
  generalize some name.token = next at hnamed
  -- no name is a literal, a parenthesis or a bracket
  split
  · cases hnamed
  · cases hnamed
  · cases hnamed
  · cases hnamed
  · cases hnamed
  · cases hnamed
  · cases hnamed
  · rw [hnamed]
    exact Yields.advance_bind hs fun t ht => Yields.pure ht (.identifier ⟨rfl, trivial⟩)

/-! #### Objects and what is accessed on them -/

/-- The argument list of a call, behind the object. -/
theorem delivers_call (hinner : ReadsExprs limit inner) {start : Nat} {e a : Expr}
    (ha : e.Alike anyPlace a) {es : List Expr} {span : Span} (hg : Expr.GroupedAll es)
    (hr : Expr.ReadableAll es)
    (hs : s.Faces limit (.punctuator .leftParen :: (joined .comma (Expr.rows es) ++
      .punctuator .rightParen :: rest))) :
    Delivers limit s (access inner start a) (Yields.GoesOn ((Expr.call e es span).Alike anyPlace))
      rest (Toll.level.andThen (Expr.tollAll es)) := by
  refine Yields.peek_cons_bind hs (Yields.descend_bind hs fun t ht => ?_)
  refine Yields.advance_bind ht fun u hu => ?_
  have hlist := delivers_exprs hinner (by simp) hg hr hu
  refine Yields.of_eq (Yields.bind hlist fun as v has hv => ?_) (Toll.andThen_free _)
  refine Yields.expect_bind hv fun w hw => Yields.spanFrom_bind (Yields.pure hw ?_)
  exact .call ha has trivial

theorem delivers_property {start : Nat} {e a : Expr} (ha : e.Alike anyPlace a) {name : Ident}
    {span : Span} (hname : name.Readable)
    (hs : s.Faces limit (.punctuator .dot :: name.token :: rest)) :
    Delivers limit s (access inner start a)
      (Yields.GoesOn ((Expr.property e name span).Alike anyPlace)) rest .level := by
  refine Yields.of_eq (Yields.peek_cons_bind hs (Yields.descend_bind hs fun t ht => ?_))
    (Toll.andThen_free _)
  refine Yields.advance_bind ht fun u hu => Yields.ident_bind hname hu fun v w hv hw => ?_
  exact Yields.spanFrom_bind (Yields.pure hw (.property ha hv trivial))

theorem delivers_element (hinner : ReadsExprs limit inner) {start : Nat} {e a : Expr}
    (ha : e.Alike anyPlace a) {index : Expr} {span : Span} (hg : index.Grouped)
    (hr : index.Readable)
    (hs : s.Faces limit (.punctuator .leftBracket :: (index.tokens ++
      .punctuator .rightBracket :: rest))) :
    Delivers limit s (access inner start a)
      (Yields.GoesOn ((Expr.element e index span).Alike anyPlace)) rest
      (Toll.level.andThen index.wholeToll) := by
  refine Yields.peek_cons_bind hs (Yields.descend_bind hs fun t ht => ?_)
  refine Yields.advance_bind ht fun u hu => ?_
  have hindex := hinner .assignment index hg hr trivial u _ (ends_of_sign _ (by simp)) hu
  refine Yields.of_eq (Yields.bind hindex fun b v hb hv => ?_) (Toll.andThen_free _)
  refine Yields.expect_bind hv fun w hw => Yields.spanFrom_bind (Yields.pure hw ?_)
  exact .element ha hb trivial

theorem delivers_parenthesized (hinner : ReadsExprs limit inner) {e : Expr} {span : Span}
    (hg : e.Grouped) (hr : e.Readable)
    (hs : s.Faces limit (.punctuator .leftParen :: (e.tokens ++ .punctuator .rightParen :: rest))) :
    Delivers limit s (primary inner) ((Expr.parenthesized e span).Alike anyPlace) rest
      e.wholeToll := by
  refine Yields.currentSpan_bind (Yields.peek_cons_bind hs (Yields.advance_bind hs fun t ht => ?_))
  have hvalue := hinner .assignment e hg hr trivial t _ (ends_of_sign _ (by simp)) ht
  refine Yields.of_eq (Yields.bind hvalue fun a u ha hu => ?_) (Toll.andThen_free _)
  refine Yields.expect_bind hu fun v hv => Yields.spanFrom_bind (Yields.pure hv ?_)
  exact .parenthesized ha trivial

theorem delivers_array (hinner : ReadsExprs limit inner) {es : List Expr} {span : Span}
    (hg : Expr.GroupedAll es) (hr : Expr.ReadableAll es)
    (hs : s.Faces limit (.punctuator .leftBracket :: (joined .comma (Expr.rows es) ++
      .punctuator .rightBracket :: rest))) :
    Delivers limit s (primary inner) ((Expr.array es span).Alike anyPlace) rest
      (Expr.tollAll es) := by
  refine Yields.currentSpan_bind (Yields.peek_cons_bind hs (Yields.advance_bind hs fun t ht => ?_))
  have hlist := delivers_exprs hinner (by simp) hg hr ht
  refine Yields.of_eq (Yields.bind hlist fun as u has hu => ?_) (Toll.andThen_free _)
  refine Yields.expect_bind hu fun v hv => Yields.spanFrom_bind (Yields.pure hv ?_)
  exact .array has trivial

/-- The spine of an object: what it begins with, and then all accesses. -/
theorem delivers_accesses (hinner : ReadsExprs limit inner) (start : Nat) :
    ∀ (e : Expr) {s : State} {rest final : List Token} {R : Expr → Prop} {c : Toll},
      e.IsObject → e.Grouped → e.Readable → s.Faces limit (e.tokens ++ rest) →
      (∀ a u, e.Alike anyPlace a → u.Faces limit rest →
        Delivers limit u (loop (access inner start) a) R final c) →
      Delivers limit s (primary inner >>= loop (access inner start)) R final (e.toll.andThen c)
  | .number value span, _, _, _, _, _, _, _, _, hs, hnext => by
    refine Yields.bind (Yields.currentSpan_bind (Yields.peek_cons_bind hs ?_)) hnext
    exact Yields.advance_bind hs fun t ht => Yields.pure ht (.number trivial)
  | .string value span, _, _, _, _, _, _, _, _, hs, hnext => by
    refine Yields.bind (Yields.currentSpan_bind (Yields.peek_cons_bind hs ?_)) hnext
    exact Yields.advance_bind hs fun t ht => Yields.pure ht (.string trivial)
  | .boolean value span, _, _, _, _, _, _, _, _, hs, hnext => by
    refine Yields.bind (Yields.currentSpan_bind (Yields.peek_cons_bind hs ?_)) hnext
    cases value <;> exact Yields.advance_bind hs fun t ht => Yields.pure ht (.boolean trivial)
  | .null span, _, _, _, _, _, _, _, _, hs, hnext => by
    refine Yields.bind (Yields.currentSpan_bind (Yields.peek_cons_bind hs ?_)) hnext
    exact Yields.advance_bind hs fun t ht => Yields.pure ht (.null trivial)
  | .identifier name, _, _, _, _, _, _, _, hr, hs, hnext => Yields.bind (delivers_name hr hs) hnext
  | .parenthesized e span, s, rest, _, _, _, _, hg, hr, hs, hnext => by
    simp only [Expr.tokens, List.cons_append, List.append_assoc] at hs
    exact Yields.bind (delivers_parenthesized hinner hg hr hs) hnext
  | .array es span, s, rest, _, _, _, _, hg, hr, hs, hnext => by
    simp only [Expr.tokens, List.cons_append, List.append_assoc] at hs
    exact Yields.bind (delivers_array hinner hg hr hs) hnext
  | .call e es span, s, rest, final, R, c, _, hg, hr, hs, hnext => by
    simp only [Expr.tokens, List.cons_append, List.append_assoc] at hs
    refine Yields.of_eq (delivers_accesses hinner start e hg.1 hg.2.1 hr.1 hs fun a u ha hu => ?_)
      (Toll.andThen_assoc _ _ c).symm
    refine Yields.loop_again hu (delivers_call hinner ha hg.2.2 hr.2 hu) ?_ hnext
    simp only [List.length_cons, List.length_append]
    omega
  | .property e name span, s, rest, final, R, c, _, hg, hr, hs, hnext => by
    simp only [Expr.tokens, List.append_assoc] at hs
    refine Yields.of_eq (delivers_accesses hinner start e hg.1 hg.2 hr.1 hs fun a u ha hu => ?_)
      (Toll.andThen_assoc _ _ c).symm
    have hlt : rest.length < (rest.length + 1) + 1 := by omega
    exact Yields.loop_again hu (delivers_property ha hr.2 hu) hlt hnext
  | .element e index span, s, rest, final, R, c, _, hg, hr, hs, hnext => by
    simp only [Expr.tokens, List.cons_append, List.append_assoc] at hs
    refine Yields.of_eq (delivers_accesses hinner start e hg.1 hg.2.1 hr.1 hs fun a u ha hu => ?_)
      (Toll.andThen_assoc _ _ c).symm
    refine Yields.loop_again hu (delivers_element hinner ha hg.2.2 hr.2 hu) ?_ hnext
    simp only [List.length_cons, List.length_append]
    omega
  | .binary op _ _ _, _, _, _, _, _, ho, _, _, _, _ => by
    have := op.precedence_le
    simp only [Expr.IsObject, Expr.strength] at ho
    omega
  | .unary _ _ _, _, _, _, _, _, ho, _, _, _, _ => by simp [Expr.IsObject, Expr.strength] at ho
  | .typeOf _ _, _, _, _, _, _, ho, _, _, _, _ => by simp [Expr.IsObject, Expr.strength] at ho
  | .assignment _ _ _ _, _, _, _, _, _, ho, _, _, _, _ => by
    simp [Expr.IsObject, Expr.strength] at ho
  | .conditional _ _ _ _, _, _, _, _, _, ho, _, _, _, _ => by
    simp [Expr.IsObject, Expr.strength] at ho

theorem delivers_accessChain (hinner : ReadsExprs limit inner) {e : Expr} (ho : e.IsObject)
    (hg : e.Grouped) (hr : e.Readable) (hrest : ∀ token ∈ rest.head?, opensAccess token = false)
    (hs : s.Faces limit (e.tokens ++ rest)) :
    Delivers limit s (accessChain inner) (e.Alike anyPlace) rest e.toll := by
  refine Yields.currentSpan_bind ?_
  refine Yields.of_eq (delivers_accesses hinner s.span.start e ho hg hr hs fun a t ha ht => ?_)
    (Toll.andThen_free _)
  refine Yields.loop_done (Yields.peek_bind ht ?_)
  generalize rest.head? = next at hrest
  split
  · exact absurd (hrest _ rfl) (by decide)
  · exact absurd (hrest _ rfl) (by decide)
  · exact absurd (hrest _ rfl) (by decide)
  · exact Yields.pure ht ha

/-! #### Operators -/

theorem delivers_unary (hinner : ReadsExprs limit inner) {e : Expr} (ho : e.IsOperand)
    (hg : e.Grouped) (hr : e.Readable) (hrest : EndsOperand 11 rest)
    (hs : s.Faces limit (e.tokens ++ rest)) :
    Delivers limit s (unary inner) (e.Alike anyPlace) rest e.toll := by
  by_cases hobject : e.IsObject
  · obtain ⟨token, ts, htokens, hstarts⟩ := first_of_isObject e hobject hg hr
    have hhead : (e.tokens ++ rest).head? = some token := by rw [htokens]; rfl
    have hoperator : (some token).bind UnaryOp.ofToken? = none := by
      cases token with
      | punctuator sign => cases sign <;> simp_all [startsPrimary, UnaryOp.ofToken?]
      | _ => rfl
    have htypeof : some token ≠ some (.keyword .typeofWord) := by
      rintro ⟨⟩
      simp [startsPrimary, Keyword.isName] at hstarts
    refine Yields.currentSpan_bind (Yields.peek_bind hs ?_)
    rw [hhead]
    simp only [hoperator, if_neg htypeof]
    exact delivers_accessChain hinner hobject hg hr hrest.access hs
  · cases e with
    | unary op operand span =>
      have hsign : UnaryOp.ofToken? (.punctuator op.sign) = some op := by cases op <;> rfl
      refine Yields.currentSpan_bind (Yields.peek_cons_bind hs ?_)
      simp only [Option.bind_some, hsign]
      refine Yields.advance_bind hs fun t ht => ?_
      have hoperand := hinner .unary operand hg.2 hr hg.1 t rest hrest ht
      refine Yields.of_eq (Yields.bind hoperand fun a u ha hu => ?_) (Toll.andThen_free _)
      exact Yields.spanFrom_bind (Yields.pure hu (.unary ha trivial))
    | typeOf operand span =>
      refine Yields.currentSpan_bind (Yields.peek_cons_bind hs ?_)
      refine Yields.advance_bind hs fun t ht => ?_
      have hoperand := hinner .unary operand hg.2 hr hg.1 t rest hrest ht
      refine Yields.of_eq (Yields.bind hoperand fun a u ha hu => ?_) (Toll.andThen_free _)
      exact Yields.spanFrom_bind (Yields.pure hu (.typeOf ha trivial))
    | binary op left right span =>
      have hle := op.precedence_le
      simp only [Expr.IsOperand, Expr.strength] at ho
      omega
    | assignment _ _ _ _ => simp [Expr.IsOperand, Expr.strength] at ho
    | conditional _ _ _ _ => simp [Expr.IsOperand, Expr.strength] at ho
    | _ => exact absurd (Nat.le_refl 12) hobject

/-- One operator behind a left operand, and its right operand. -/
theorem delivers_operation (hinner : ReadsExprs limit inner) {least : Nat} {op : BinaryOp}
    {left right a : Expr} {span : Span} (hleast : least ≤ op.precedence)
    (ha : left.Alike anyPlace a) (hstrength : op.precedence < right.strength) (hg : right.Grouped)
    (hr : right.Readable) (hrest : EndsOperand (op.precedence + 1) rest)
    (hs : s.Faces limit (.punctuator op.sign :: (right.tokens ++ rest))) :
    Delivers limit s (operation inner least a)
      (Yields.GoesOn ((Expr.binary op left right span).Alike anyPlace)) rest
      (Toll.level.andThen right.wholeToll) := by
  have hsign : BinaryOp.ofToken? (.punctuator op.sign) = some op := by cases op <;> rfl
  have hadmits : (Rank.binary (op.precedence + 1)).Admits right := by
    have hle := op.precedence_le
    constructor <;> omega
  refine Yields.peek_cons_bind hs ?_
  simp only [Option.bind_some, hsign, if_neg (Nat.not_lt.mpr hleast)]
  refine Yields.descend_bind hs fun t ht => Yields.advance_bind ht fun u hu => ?_
  have hright := hinner (.binary (op.precedence + 1)) right hg hr hadmits u rest hrest hu
  refine Yields.of_eq (Yields.bind hright fun b v hb hv => ?_) (Toll.andThen_free _)
  exact Yields.pure hv (.binary ha hb trivial)

/-- The spine of an operation: its first operand, and then all operators. -/
theorem delivers_operations (hinner : ReadsExprs limit inner) (least : Nat) :
    ∀ (e : Expr) {s : State} {rest final : List Token} {R : Expr → Prop} {c : Toll},
      0 < e.strength → min least 11 ≤ e.strength → e.Grouped → e.Readable →
      EndsOperand (e.strength + 1) rest → s.Faces limit (e.tokens ++ rest) →
      (∀ a u, e.Alike anyPlace a → u.Faces limit rest →
        Delivers limit u (loop (operation inner least) a) R final c) →
      Delivers limit s (unary inner >>= loop (operation inner least)) R final (e.toll.andThen c) := by
  intro e s rest final R c hpos hleast hg hr hrest hs hnext
  by_cases ho : e.IsOperand
  · have hrest' : EndsOperand 11 rest := by
      refine ⟨hrest.access, fun op hop => ?_⟩
      have := op.precedence_le
      omega
    exact Yields.bind (delivers_unary hinner ho hg hr hrest' hs) hnext
  · cases e with
    | binary op left right span =>
      obtain ⟨hleft, hright, hgl, hgr⟩ := hg
      have hop := op.precedence_pos
      have hop' := op.precedence_le
      simp only [Expr.strength] at hleast hrest
      simp only [Expr.tokens, List.cons_append, List.append_assoc] at hs
      -- the operator follows its left operand, which is no weaker
      have hends : EndsOperand (left.strength + 1) (.punctuator op.sign :: (right.tokens ++ rest)) := by
        have hsign : BinaryOp.ofToken? (.punctuator op.sign) = some op := by cases op <;> rfl
        refine ⟨?_, ?_⟩
        · cases op <;> simp [BinaryOp.sign, opensAccess]
        · intro op' hop'
          simp only [List.head?_cons, Option.bind_some, hsign, Option.some.injEq] at hop'
          subst hop'
          omega
      refine Yields.of_eq (delivers_operations hinner least left (by omega) (by omega) hgl hr.1
        hends hs fun a t ha ht => ?_) (Toll.andThen_assoc _ _ c).symm
      have hle : least ≤ op.precedence := by omega
      refine Yields.loop_again ht (delivers_operation hinner hle ha hright hgr hr.2 hrest ht) ?_ hnext
      simp only [List.length_cons, List.length_append]
      omega
    | assignment _ _ _ _ => simp [Expr.strength] at hpos
    | conditional _ _ _ _ => simp [Expr.strength] at hpos
    | unary _ _ _ => exact absurd (Nat.le_refl 11) ho
    | typeOf _ _ => exact absurd (Nat.le_refl 11) ho
    | _ => exact absurd (Nat.le_succ 11) ho

theorem delivers_binary (hinner : ReadsExprs limit inner) {least : Nat} {e : Expr}
    (hpos : 0 < e.strength) (hleast : min least 11 ≤ e.strength) (hg : e.Grouped) (hr : e.Readable)
    (hrest : EndsOperand least rest) (hs : s.Faces limit (e.tokens ++ rest)) :
    Delivers limit s (binary inner least) (e.Alike anyPlace) rest e.toll := by
  have hends : EndsOperand (e.strength + 1) rest := by
    refine ⟨hrest.access, fun op hop => ?_⟩
    have hlt := hrest.operator op hop
    have hle := op.precedence_le
    omega
  refine Yields.of_eq
    (delivers_operations hinner least e hpos hleast hg hr hends hs fun a t ha ht => ?_)
    (Toll.andThen_free _)
  refine Yields.loop_done (Yields.peek_bind ht ?_)
  cases hop : rest.head?.bind BinaryOp.ofToken? with
  | none => exact Yields.pure ht ha
  | some op =>
    simp only [if_pos (hrest.operator op hop)]
    exact Yields.pure ht ha

/-! #### Conditions and assignments -/

/-- An operation on its own: what follows is no question mark. -/
theorem delivers_conditional_none (hinner : ReadsExprs limit inner) {e : Expr}
    (hpos : 0 < e.strength) (hg : e.Grouped) (hr : e.Readable) (hrest : EndsOperand 1 rest)
    (hquestion : rest.head? ≠ some (.punctuator .question)) (hs : s.Faces limit (e.tokens ++ rest)) :
    Delivers limit s (conditional inner) (e.Alike anyPlace) rest e.toll := by
  have hvalue := delivers_binary hinner hpos (by omega : min 1 11 ≤ e.strength) hg hr hrest hs
  refine Yields.of_eq (Yields.bind hvalue fun a t ha ht => ?_) (Toll.andThen_free _)
  exact Yields.eat_bind_no ht hquestion (Yields.pure ht ha)

theorem delivers_conditional_some (hinner : ReadsExprs limit inner) {c a b : Expr} {span : Span}
    (hg : (Expr.conditional c a b span).Grouped) (hr : (Expr.conditional c a b span).Readable)
    (hrest : Rank.assignment.Ends rest)
    (hs : s.Faces limit ((Expr.conditional c a b span).tokens ++ rest)) :
    Delivers limit s (conditional inner) ((Expr.conditional c a b span).Alike anyPlace) rest
      (Expr.conditional c a b span).toll := by
  obtain ⟨hpos, hgc, hga, hgb⟩ := hg
  obtain ⟨hrc, hra, hrb⟩ := hr
  simp only [Expr.tokens, List.cons_append, List.append_assoc] at hs
  have hends : EndsOperand 1 (.punctuator .question :: (a.tokens ++ .punctuator .colon ::
      (b.tokens ++ rest))) := endsOperand_of_token (by decide) (by decide) 1
  have hc := delivers_binary hinner hpos (by omega : min 1 11 ≤ c.strength) hgc hrc hends hs
  refine Yields.bind hc fun c' t hc' ht => Yields.eat_bind ht fun u hu => ?_
  have ha := hinner .assignment a hga hra trivial u _ (ends_of_sign _ (by simp)) hu
  refine Yields.bind ha fun a' v ha' hv => Yields.expect_bind hv fun w hw => ?_
  have hb := hinner .assignment b hgb hrb trivial w rest hrest hw
  refine Yields.of_eq (Yields.bind hb fun b' x hb' hx => ?_) (Toll.andThen_free _)
  exact Yields.pure hx (.conditional hc' ha' hb' trivial)

/-- An expression that stores nothing. -/
theorem delivers_assignment_none {e : Expr}
    (hvalue : Delivers limit s (conditional inner) (e.Alike anyPlace) rest e.toll)
    (hassign : rest.head?.bind AssignOp.ofToken? = none) :
    Delivers limit s (assignment inner) (e.Alike anyPlace) rest e.toll := by
  refine Yields.of_eq (Yields.bind hvalue fun a t ha ht => ?_) (Toll.andThen_free _)
  refine Yields.peek_bind ht ?_
  simp only [hassign]
  exact Yields.pure ht ha

theorem delivers_assignment_some (hinner : ReadsExprs limit inner) {op : AssignOp}
    {target value : Expr} {span : Span} (hg : (Expr.assignment op target value span).Grouped)
    (hr : (Expr.assignment op target value span).Readable) (hrest : Rank.assignment.Ends rest)
    (hs : s.Faces limit ((Expr.assignment op target value span).tokens ++ rest)) :
    Delivers limit s (assignment inner) ((Expr.assignment op target value span).Alike anyPlace) rest
      (Expr.assignment op target value span).toll := by
  obtain ⟨hassignable, hgt, hgv⟩ := hg
  obtain ⟨hrt, hrv⟩ := hr
  simp only [Expr.tokens, List.cons_append, List.append_assoc] at hs
  have hsign : AssignOp.ofToken? (.punctuator op.sign) = some op := by cases op <;> rfl
  have hpos : 0 < target.strength := by
    cases target <;> simp_all [Expr.isAssignable, Expr.strength]
  have hends : EndsOperand 1 (.punctuator op.sign :: (value.tokens ++ rest)) := by
    cases op <;> exact endsOperand_of_token (by decide) (by decide) 1
  have hquestion : (Token.punctuator op.sign :: (value.tokens ++ rest)).head?
      ≠ some (.punctuator .question) := by
    cases op <;> simp [AssignOp.sign]
  have htarget := delivers_conditional_none hinner hpos hgt hrt hends hquestion hs
  refine Yields.bind htarget fun a t ha ht => Yields.peek_cons_bind ht ?_
  simp only [Option.bind_some, hsign, ← ha.isAssignable, hassignable, if_true]
  refine Yields.advance_bind ht fun u hu => ?_
  have hvalue := hinner .assignment value hgv hrv trivial u rest hrest hu
  refine Yields.of_eq (Yields.bind hvalue fun b v hb hv => ?_) (Toll.andThen_free _)
  exact Yields.pure hv (.assignment ha hb trivial)

theorem delivers_assignment (hinner : ReadsExprs limit inner) {e : Expr} (hg : e.Grouped)
    (hr : e.Readable) (hrest : Rank.assignment.Ends rest) (hs : s.Faces limit (e.tokens ++ rest)) :
    Delivers limit s (assignment inner) (e.Alike anyPlace) rest e.toll := by
  obtain ⟨hoperand, hquestion, hassign⟩ := hrest
  by_cases hpos : 0 < e.strength
  · exact delivers_assignment_none
      (delivers_conditional_none hinner hpos hg hr hoperand hquestion hs) hassign
  · cases e with
    | assignment op target value span =>
      exact delivers_assignment_some hinner hg hr ⟨hoperand, hquestion, hassign⟩ hs
    | conditional c a b span =>
      exact delivers_assignment_none
        (delivers_conditional_some hinner hg hr ⟨hoperand, hquestion, hassign⟩ hs) hassign
    | binary op _ _ _ => exact absurd op.precedence_pos hpos
    | _ => simp [Expr.strength] at hpos

end Expressions

/-- An expression of any rank is read back, however deep. -/
theorem delivers_expression : ∀ depth, ReadsExprs depth (expression depth)
  | 0 => fun _ _ _ _ _ _ _ _ hs => Yields.fail hs rfl
  | depth + 1 => fun rank e hg hr hadmits s rest hrest hs => by
    have hinner := delivers_expression depth
    refine Yields.nested hs fun t ht => ?_
    cases rank with
    | assignment => exact delivers_assignment hinner hg hr hrest ht
    | unary => exact delivers_unary hinner hadmits hg hr hrest ht
    | binary least => exact delivers_binary hinner hadmits.1 hadmits.2 hg hr hrest ht

end Parse

end ScriptLint
