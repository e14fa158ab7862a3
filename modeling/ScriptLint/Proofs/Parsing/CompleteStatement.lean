import ScriptLint.Proofs.Parsing.CompleteExpression
import ScriptLint.Proofs.Parsing.SoundStatement
/-!
# Statements and scripts are read back

A statement is read back from its canonical tokens unless it nests too
deeply, and so is a list of statements. Which kind of statement comes is
told by its first token, and where it ends by its last one, except for an
`if` without an `else`: such a statement is read back only if no `else`
follows.

A statement that nests too deeply does not keep the others from being read.
The list it stands in notes the error and goes on somewhere behind, so that
nothing can be said about the tree, but the error stays noted.

Key definitions: `ReadsStmts`, `CompleteParts`.
Key theorems: `completes_statements`, `completes_statement`, `Script.parse_rendering`.
-/

namespace ScriptLint.Parse

variable {limit : Nat} {s : State} {rest : List Token}

/-! ### First tokens -/

/-- The tokens that stand between statements or behind them. -/
def partsStatements : Token → Bool
  | .punctuator .semicolon => true
  | .punctuator .rightBrace => true
  | .keyword .elseWord => true
  | _ => false

theorem partsStatements_of_startsExpression {token : Token} (h : startsExpression token = true) :
    partsStatements token = false := by
  unfold partsStatements
  split
  · exact absurd h (by decide)
  · exact absurd h (by decide)
  · exact absurd h (by decide)
  · rfl

theorem first_of_statement : ∀ x : Stmt, x.Grouped → x.Readable →
    ∃ token ts, x.tokens = token :: ts ∧ partsStatements token = false
  | .variables d _, _, _ => by
    refine ⟨d.kind.token, _, rfl, ?_⟩
    cases d.kind <;> rfl
  | .expression e _, hg, hr => by
    obtain ⟨token, ts, htokens, hstarts⟩ := (beginsExpr e hg hr).append [.punctuator .semicolon]
    exact ⟨token, ts, htokens, partsStatements_of_startsExpression hstarts⟩
  | .function _ _ _ _, _, _ => ⟨_, _, rfl, rfl⟩
  | .block _ _, _, _ => ⟨_, _, rfl, rfl⟩
  | .ifThen _ _ _, _, _ => ⟨_, _, rfl, rfl⟩
  | .ifElse _ _ _ _, _, _ => ⟨_, _, rfl, rfl⟩
  | .whileLoop _ _ _, _, _ => ⟨_, _, rfl, rfl⟩
  | .forLoop _ _ _ _ _, _, _ => ⟨_, _, rfl, rfl⟩
  | .returns _ _, _, _ => ⟨_, _, rfl, rfl⟩

/-! ### The readers of the parts -/

/-- The reader reads statements back, unless an `else` follows that an `if` in them would take. -/
def ReadsStmts (limit : Nat) (inner : Parse Stmt) : Prop :=
  ∀ x : Stmt, x.Grouped → x.Readable → ∀ s rest,
    (x.endsOpen = true → rest.head? ≠ some (.keyword .elseWord)) →
    s.Faces limit (x.tokens ++ rest) → Completes limit s inner (x.Alike anyPlace) rest x.wholeToll

/-- The readers of the parts of a statement read them back. -/
structure CompleteParts (limit : Nat) (inner : Parts) : Prop where
  typeExpr : ReadsTypes limit inner.typeExpr
  expression : ∀ e : Expr, e.Grouped → e.Readable → ∀ s rest, Rank.assignment.Ends rest →
    s.Faces limit (e.tokens ++ rest) →
      Delivers limit s inner.expression (e.Alike anyPlace) rest e.wholeToll
  statement : ReadsStmts limit inner.statement
  kept : Keeps inner.statement

section Declarations

variable {inner : Parts}

/-- A sign that ends every type before it. -/
theorem endsType_of_sign {sign : Punctuator} {ts : List Token}
    (h : sign ∈ [.equal, .comma, .semicolon, .rightParen, .leftBrace]) :
    EndsType (.punctuator sign :: ts) := by
  simp only [List.mem_cons, List.not_mem_nil, or_false] at h
  rcases h with rfl | rfl | rfl | rfl | rfl <;> exact ⟨by simp, by simp⟩

/-- The annotation of a variable, a parameter or a function. -/
theorem delivers_declaredType (hinner : CompleteParts limit inner) {type : Option TypeExpr}
    (hr : ∀ t ∈ type, t.Readable) {sign : Punctuator} {ts : List Token}
    (hsign : sign ∈ [.equal, .comma, .semicolon, .rightParen, .leftBrace])
    (hs : s.Faces limit (behind .colon TypeExpr.tokens type ++ .punctuator sign :: ts)) :
    Delivers limit s (optionalAfter .colon inner.typeExpr) (Option.Rel (TypeExpr.Alike anyPlace) type)
      (.punctuator sign :: ts) (tollOf TypeExpr.wholeToll type) := by
  refine delivers_optionalAfter (fun t ht u hu => ?_) ?_ hs
  · exact hinner.typeExpr t (hr t ht) u _ (endsType_of_sign hsign) hu
  · intro hcolon
    obtain rfl : sign = .colon := by simpa using hcolon
    simp at hsign

/-- The first value of a variable. -/
theorem delivers_initializer (hinner : CompleteParts limit inner) {value : Option Expr}
    (hg : ∀ e ∈ value, e.Grouped) (hr : ∀ e ∈ value, e.Readable) {sign : Punctuator}
    {ts : List Token} (hsign : sign ∈ [.comma, .semicolon])
    (hs : s.Faces limit (behind .equal Expr.tokens value ++ .punctuator sign :: ts)) :
    Delivers limit s (optionalAfter .equal inner.expression) (Option.Rel (Expr.Alike anyPlace) value)
      (.punctuator sign :: ts) (tollOf Expr.wholeToll value) := by
  simp only [List.mem_cons, List.not_mem_nil, or_false] at hsign
  refine delivers_optionalAfter (fun e he u hu => ?_) ?_ hs
  · refine hinner.expression e (hg e he) (hr e he) u _ (ends_of_sign _ ?_) hu
    rcases hsign with rfl | rfl <;> simp
  · rcases hsign with rfl | rfl <;> simp

theorem delivers_declarator (hinner : CompleteParts limit inner) {d : Declarator}
    (hg : ∀ e ∈ d.initializer, e.Grouped) (hr : d.Readable) {sign : Punctuator} {ts : List Token}
    (hsign : sign ∈ [.comma, .semicolon]) (hs : s.Faces limit (d.tokens ++ .punctuator sign :: ts)) :
    Delivers limit s (declarator inner) (d.Alike anyPlace) (.punctuator sign :: ts) d.toll := by
  simp only [Declarator.tokens, List.cons_append, List.append_assoc] at hs
  -- behind the annotation stands the first value, or what follows the variable
  obtain ⟨next, us, hnext, hnext'⟩ : ∃ next us,
      behind .equal Expr.tokens d.initializer ++ .punctuator sign :: ts = .punctuator next :: us ∧
      next ∈ [.equal, .comma, .semicolon, .rightParen, .leftBrace] := by
    cases d.initializer with
    | some e => exact ⟨_, _, rfl, by simp⟩
    | none =>
      refine ⟨sign, ts, rfl, ?_⟩
      simp only [List.mem_cons, List.not_mem_nil, or_false] at hsign ⊢
      rcases hsign with rfl | rfl <;> simp
  refine Yields.ident_bind hr.name hs fun name t hname ht => ?_
  rw [hnext] at ht
  refine Yields.bind (delivers_declaredType hinner hr.declaredType hnext' ht) fun type u htype hu => ?_
  rw [← hnext] at hu
  have hvalue := delivers_initializer hinner hg hr.initializer hsign hu
  refine Yields.of_eq (Yields.bind hvalue fun value v hvalue hv => ?_) (Toll.andThen_free _)
  exact Yields.spanFrom_bind (Yields.pure hv ⟨hname, htype, hvalue, trivial⟩)

theorem delivers_declaration (hinner : CompleteParts limit inner) {d : Declaration} (hg : d.Grouped)
    (hr : d.Readable) {ts : List Token}
    (hs : s.Faces limit (d.tokens ++ .punctuator .semicolon :: ts)) :
    Delivers limit s (declaration inner d.kind) (d.Alike anyPlace) (.punctuator .semicolon :: ts)
      d.toll := by
  refine Yields.currentSpan_bind (Yields.advance_bind hs fun t ht => ?_)
  have hlist : Delivers limit t (separated .comma (declarator inner))
      (List.Forall₂ (Declarator.Alike anyPlace) d.declarators) (.punctuator .semicolon :: ts)
      d.toll := by
    refine delivers_separated hr.ne_nil (fun v hv u us hus hu => ?_) (by simp) ht
    obtain ⟨sign, vs, rfl, hsign⟩ := sign_of_next hus
    exact delivers_declarator hinner (hg v hv) (hr.declarators v hv) hsign hu
  refine Yields.of_eq (Yields.bind hlist fun ds u hds hu => ?_) (Toll.andThen_free _)
  exact Yields.spanFrom_bind (Yields.pure hu ⟨rfl, hds, trivial⟩)

theorem delivers_parameter (hinner : CompleteParts limit inner) {p : Parameter} (hr : p.Readable)
    {sign : Punctuator} {ts : List Token} (hsign : sign ∈ [.comma, .rightParen])
    (hs : s.Faces limit (p.tokens ++ .punctuator sign :: ts)) :
    Delivers limit s (parameter inner) (p.Alike anyPlace) (.punctuator sign :: ts) p.toll := by
  have hends : sign ∈ [.equal, .comma, .semicolon, .rightParen, .leftBrace] := by
    simp only [List.mem_cons, List.not_mem_nil, or_false] at hsign ⊢
    rcases hsign with rfl | rfl <;> simp
  refine Yields.ident_bind hr.name hs fun name t hname ht => ?_
  have htype := delivers_declaredType hinner hr.declaredType hends ht
  refine Yields.of_eq (Yields.bind htype fun type u htype hu => ?_) (Toll.andThen_free _)
  exact Yields.spanFrom_bind (Yields.pure hu ⟨hname, htype, trivial⟩)

theorem delivers_parameters (hinner : CompleteParts limit inner) {ps : List Parameter}
    (hr : ∀ p ∈ ps, p.Readable)
    (hs : s.Faces limit (.punctuator .leftParen :: (joined .comma (ps.map Parameter.tokens) ++
      .punctuator .rightParen :: rest))) :
    Delivers limit s (parameters inner) (List.Forall₂ (Parameter.Alike anyPlace) ps) rest
      (tolls Parameter.toll ps) := by
  refine Yields.expect_bind hs fun t ht => Yields.peek_bind ht ?_
  cases ps with
  | nil =>
    have hclose : (joined .comma (([] : List Parameter).map Parameter.tokens) ++
        .punctuator .rightParen :: rest).head? = some (.punctuator .rightParen) := rfl
    rw [if_pos hclose]
    have hnil : Delivers limit t (Pure.pure []) (List.Forall₂ (Parameter.Alike anyPlace) [])
        (.punctuator .rightParen :: rest) .free := Yields.pure ht .nil
    refine Yields.of_eq (Yields.bind hnil fun ps u hps hu => ?_) (Toll.andThen_free _)
    exact Yields.expect_bind hu fun v hv => Yields.pure hv hps
  | cons p ps =>
    have hopen : (joined .comma ((p :: ps).map Parameter.tokens) ++
        .punctuator .rightParen :: rest).head? ≠ some (.punctuator .rightParen) := by
      intro hclose
      have hname := (hr p (by simp)).name
      have htoken : p.name.token = .punctuator .rightParen := by
        simpa [joined, Parameter.tokens] using hclose
      simp [Ident.Readable, htoken, Token.name?] at hname
    rw [if_neg hopen]
    have hlist : Delivers limit t (separated .comma (parameter inner))
        (List.Forall₂ (Parameter.Alike anyPlace) (p :: ps)) (.punctuator .rightParen :: rest)
        (tolls Parameter.toll (p :: ps)) := by
      refine delivers_separated (by simp) (fun q hq u us hus hu => ?_) (by simp) ht
      obtain ⟨sign, vs, rfl, hsign⟩ := sign_of_next hus
      exact delivers_parameter hinner (hr q hq) hsign hu
    refine Yields.of_eq (Yields.bind hlist fun qs u hqs hu => ?_) (Toll.andThen_free _)
    exact Yields.expect_bind hu fun v hv => Yields.pure hv hqs

end Declarations

/-! ### Lists of statements -/

section Lists

variable {statement : Parse Stmt} {close : Option Token}

/-- What a round does with the outcome of a statement. -/
theorem keeps_outcome (start : Nat) (body : List Stmt) (r : Except SyntaxError Stmt) :
    Keeps (match r with
      | .ok stmt => return .again (body ++ [stmt])
      | .error e => do
        recover start e
        return .again body : Parse (Round (List Stmt))) := by
  intro t
  cases r with
  | ok stmt => exact From.pure fun _ => trivial
  | error e => exact From.bind (reads_recover start e) fun _ _ _ _ _ => From.pure fun _ => trivial

theorem keeps_statementsRound (hkept : Keeps statement) (body : List Stmt) :
    Keeps (statementsRound statement close body) := by
  intro s
  refine From.peek_bind ?_
  split
  · exact From.pure fun _ => trivial
  · refine From.eat_bind (fun _ _ _ _ => From.pure fun _ => trivial) fun _ => ?_
    refine From.currentSpan_bind (From.bind (reads_attempt (hkept s)) fun r us u _ _ => ?_)
    exact From.last (keeps_outcome s.span.start body r u) fun _ _ _ _ _ => trivial

theorem keeps_statements (hkept : Keeps statement) : Keeps (statements statement close) :=
  keeps_loop (keeps_statementsRound hkept) []

/-- The error of a statement that is given up is noted. -/
theorem ranOut_recover (start : Nat) (body : List Stmt) {e : SyntaxError} (hs : s.Settled)
    (he : e.problem = .nestedTooDeeply) :
    RanOut .notes ((do
      recover start e
      return .again body : Parse (Round (List Stmt))) s) := by
  -- noting the error comes first, and what is left is skipped with the error noted
  obtain ⟨skip, hskip, hrun⟩ : ∃ skip : Parse Unit, Keeps skip ∧
      recover start e s = skip (s.note e) := by
    refine ⟨do if (← currentSpan).start = start then advance
               synchronize, fun t => From.currentSpan_bind ?_, rfl⟩
    split
    · refine From.bind reads_advance fun _ _ _ _ _ => ?_
      exact From.last reads_synchronize fun _ _ _ _ _ => trivial
    · exact From.last reads_synchronize fun _ _ _ _ _ => trivial
  have hsettled : (s.note e).Settled := hs
  have hout := hskip.ranOut hsettled ⟨e, List.mem_cons_self, he⟩
  rw [bind_run, hrun]
  cases hr : skip (s.note e) with
  | ok _ t =>
    rw [hr] at hout
    exact hout
  | error e' t =>
    rw [hr] at hout
    exact hout

/-- A statement of a list is read where it begins as statements do. -/
theorem completes_round (hkept : Keeps statement)
    (hclose : close = none ∨ close = some (.punctuator .rightBrace)) {token : Token}
    {ts : List Token} (hparts : partsStatements token = false) {R : Stmt → Prop} {c : Toll}
    (body : List Stmt) (hs : s.Faces limit (token :: ts))
    (hstatement : Completes limit s statement R rest c) :
    Completes limit s (statementsRound statement close body)
      (Yields.GoesOn fun as => ∃ a, as = body ++ [a] ∧ R a) rest c := by
  have hopen : ¬(some token = none ∨ some token = close) := by
    rintro (hnone | rfl)
    · cases hnone
    · rcases hclose with hclose | hclose
      · cases hclose
      · cases hclose
        cases hparts
  have hsemicolon : (token :: ts).head? ≠ some (.punctuator .semicolon) := by
    rintro ⟨⟩
    cases hparts
  refine Yields.peek_cons_bind hs ?_
  rw [if_neg hopen]
  refine Yields.eat_bind_no hs hsemicolon (Yields.currentSpan_bind ?_)
  refine Yields.of_eq ?_ (Toll.andThen_free c)
  refine Yields.attempt_bind hs.settled hstatement hkept (keeps_outcome _ body)
    (fun e t ht he => ranOut_recover _ body ht he) fun a t ha ht => ?_
  exact Yields.pure ht ⟨a, rfl, ha⟩

/-- One statement of a list. -/
theorem completes_statementsRound (hstatement : ReadsStmts limit statement)
    (hkept : Keeps statement) (hclose : close = none ∨ close = some (.punctuator .rightBrace))
    {x : Stmt} (hg : x.Grouped) (hr : x.Readable)
    (hrest : rest.head? ≠ some (.keyword .elseWord)) (body : List Stmt)
    (hs : s.Faces limit (x.tokens ++ rest)) :
    Completes limit s (statementsRound statement close body)
      (Yields.GoesOn fun as => ∃ a, as = body ++ [a] ∧ x.Alike anyPlace a) rest x.wholeToll := by
  obtain ⟨token, ts, htokens, hparts⟩ := first_of_statement x hg hr
  have hx := hstatement x hg hr s rest (fun _ => hrest) hs
  rw [htokens] at hs
  exact completes_round hkept hclose hparts body hs hx

/-- No `else` follows a statement of a list. -/
theorem else_not_next (hclose : close = none ∨ close = some (.punctuator .rightBrace))
    (hrest : rest.head? = close) {xs : List Stmt} (hg : Stmt.GroupedAll xs)
    (hr : Stmt.ReadableAll xs) :
    (Stmt.tokensAll xs ++ rest).head? ≠ some (.keyword .elseWord) := by
  cases xs with
  | nil =>
    show rest.head? ≠ _
    rcases hclose with rfl | rfl <;> simp [hrest]
  | cons x xs =>
    obtain ⟨token, ts, htokens, hparts⟩ := first_of_statement x hg.1 hr.1
    rw [Stmt.tokensAll, htokens]
    rintro ⟨⟩
    cases hparts

theorem completes_statementsLoop (hstatement : ReadsStmts limit statement)
    (hkept : Keeps statement) (hclose : close = none ∨ close = some (.punctuator .rightBrace))
    (hrest : rest.head? = close) {xs : List Stmt} (hg : Stmt.GroupedAll xs)
    (hr : Stmt.ReadableAll xs) (body : List Stmt) (hs : s.Faces limit (Stmt.tokensAll xs ++ rest)) :
    Completes limit s (loop (statementsRound statement close) body)
      (fun as => ∃ bs, as = body ++ bs ∧ List.Forall₂ (Stmt.Alike anyPlace) xs bs) rest
      (Stmt.tollAll xs) := by
  induction xs generalizing s body with
  | nil =>
    refine Yields.loop_done (Yields.peek_bind hs ?_)
    rw [if_pos (.inr hrest)]
    exact Yields.pure hs ⟨[], (List.append_nil body).symm, .nil⟩
  | cons x xs ih =>
    simp only [Stmt.tokensAll, List.append_assoc] at hs
    have hround := completes_statementsRound hstatement hkept hclose hg.1 hr.1
      (else_not_next hclose hrest hg.2 hr.2) body hs
    refine Yields.loop_again_noted hs hround (keeps_statementsRound hkept) ?_ ?_
    · obtain ⟨token, ts, htokens, -⟩ := first_of_statement x hg.1 hr.1
      simp only [htokens, List.length_append, List.length_cons]
      omega
    · rintro as t ⟨a, rfl, ha⟩ ht
      refine Yields.imp (ih hg.2 hr.2 _ ht) ?_
      rintro as ⟨bs, rfl, hbs⟩
      exact ⟨a :: bs, by simp, .cons ha hbs⟩

/-- **A list of statements is read back from its tokens.** -/
theorem completes_statements (hstatement : ReadsStmts limit statement) (hkept : Keeps statement)
    (hclose : close = none ∨ close = some (.punctuator .rightBrace)) (hrest : rest.head? = close)
    {xs : List Stmt} (hg : Stmt.GroupedAll xs) (hr : Stmt.ReadableAll xs)
    (hs : s.Faces limit (Stmt.tokensAll xs ++ rest)) :
    Completes limit s (statements statement close) (List.Forall₂ (Stmt.Alike anyPlace) xs) rest
      (Stmt.tollAll xs) := by
  refine Yields.imp (completes_statementsLoop hstatement hkept hclose hrest hg hr [] hs) ?_
  rintro as ⟨bs, rfl, hbs⟩
  exact hbs

theorem keeps_block (hkept : Keeps statement) : Keeps (block statement) := by
  refine fun s => From.currentSpan_bind (From.expect_bind fun _ t _ _ => ?_)
  refine From.bind (keeps_statements hkept t) fun _ _ u _ _ => ?_
  exact From.expect_bind fun _ _ _ _ => From.spanFrom_bind (From.pure fun _ => trivial)

theorem completes_block (hstatement : ReadsStmts limit statement) (hkept : Keeps statement)
    {xs : List Stmt} (hg : Stmt.GroupedAll xs) (hr : Stmt.ReadableAll xs)
    (hs : s.Faces limit (.punctuator .leftBrace :: (Stmt.tokensAll xs ++
      .punctuator .rightBrace :: rest))) :
    Completes limit s (block statement)
      (fun p => List.Forall₂ (Stmt.Alike anyPlace) xs p.1) rest (Stmt.tollAll xs) := by
  refine Yields.currentSpan_bind (Yields.expect_bind hs fun t ht => ?_)
  have hbody := completes_statements hstatement hkept (.inr rfl) rfl hg hr ht
  refine Yields.of_eq ?_ (Toll.andThen_free _)
  refine Yields.bind_noted ht.settled hbody (keeps_statements hkept) (fun body u => ?_)
    fun body u hbody hu => ?_
  · exact From.expect_bind fun _ _ _ _ => From.spanFrom_bind (From.pure fun _ => trivial)
  · exact Yields.expect_bind hu fun v hv => Yields.spanFrom_bind (Yields.pure hv hbody)

end Lists

/-! ### The kinds of statements -/

section Kinds

variable {inner : Parts}

/-- The span of a statement is all that is left to find. -/
theorem keeps_spanFrom {α : Type} {start : Nat} (f : Span → α) :
    Keeps (do return f (← spanFrom start)) :=
  fun _ => From.spanFrom_bind (From.pure fun _ => trivial)

theorem delivers_condition (hinner : CompleteParts limit inner) {e : Expr} (hg : e.Grouped)
    (hr : e.Readable) (hs : s.Faces limit (e.conditionTokens ++ rest)) :
    Delivers limit s (condition inner) (e.Alike anyPlace) rest e.wholeToll := by
  simp only [Expr.conditionTokens, List.cons_append, List.append_assoc] at hs
  refine Yields.expect_bind hs fun t ht => ?_
  have he := hinner.expression e hg hr t _ (ends_of_sign _ (by simp)) ht
  refine Yields.of_eq (Yields.bind he fun a u ha hu => ?_) (Toll.andThen_free _)
  exact Yields.expect_bind hu fun v hv => Yields.pure hv ha

theorem completes_variableStatement (hinner : CompleteParts limit inner) {d : Declaration}
    {span : Span} (hg : d.Grouped) (hr : d.Readable)
    (hs : s.Faces limit (d.tokens ++ .punctuator .semicolon :: rest)) :
    Completes limit s (variableStatement inner d.kind) ((Stmt.variables d span).Alike anyPlace) rest
      d.toll := by
  refine Yields.currentSpan_bind ?_
  have hd := delivers_declaration hinner hg hr hs
  refine Yields.of_eq (Yields.bind hd fun d' t hd' ht => ?_) (Toll.andThen_free _)
  refine Yields.eat_bind ht fun u hu => Yields.spanFrom_bind (Yields.pure hu ?_)
  exact .variables hd' trivial

theorem completes_expressionStatement (hinner : CompleteParts limit inner) {e : Expr} {span : Span}
    (hg : e.Grouped) (hr : e.Readable)
    (hs : s.Faces limit (e.tokens ++ .punctuator .semicolon :: rest)) :
    Completes limit s (expressionStatement inner) ((Stmt.expression e span).Alike anyPlace) rest
      e.wholeToll := by
  refine Yields.currentSpan_bind ?_
  have he := hinner.expression e hg hr s _ (ends_of_sign _ (by simp)) hs
  refine Yields.of_eq (Yields.bind he fun a t ha ht => ?_) (Toll.andThen_free _)
  refine Yields.eat_bind ht fun u hu => Yields.spanFrom_bind (Yields.pure hu ?_)
  exact .expression ha trivial

theorem completes_function (hinner : CompleteParts limit inner) {f : Signature} {xs : List Stmt}
    {bodySpan span : Span} (hr : f.Readable) (hgs : Stmt.GroupedAll xs) (hrs : Stmt.ReadableAll xs)
    (hs : s.Faces limit (f.tokens ++ .punctuator .leftBrace :: (Stmt.tokensAll xs ++
      .punctuator .rightBrace :: rest))) :
    Completes limit s (function inner) ((Stmt.function f xs bodySpan span).Alike anyPlace) rest
      (f.toll.andThen (Stmt.tollAll xs)) := by
  simp only [Signature.tokens, List.cons_append, List.append_assoc] at hs
  refine Yields.currentSpan_bind (Yields.advance_bind hs fun t ht => ?_)
  refine Yields.ident_bind hr.name ht fun name u hname hu => ?_
  refine Yields.of_eq ?_ (Toll.andThen_assoc _ _ _).symm
  refine Yields.bind (delivers_parameters hinner hr.parameters hu) fun ps v hps hv => ?_
  refine Yields.bind (delivers_declaredType hinner hr.returnType (by simp) hv) fun type w htype hw => ?_
  have hbody := completes_block hinner.statement hinner.kept hgs hrs hw
  refine Yields.of_eq ?_ (Toll.andThen_free _)
  refine Yields.bind_noted hw.settled hbody (keeps_block hinner.kept) (fun p => ?_) fun p x hp hx => ?_
  · exact keeps_spanFrom _
  · exact Yields.spanFrom_bind (Yields.pure hx (.function ⟨hname, hps, htype⟩ hp trivial trivial))

/-- What may follow the first branch of an `if` statement. -/
theorem keeps_else (hkept : Keeps inner.statement) (c : Expr) (start : Nat) (x : Stmt) :
    Keeps (do
      if ← eat (.keyword .elseWord) then
        let elseBranch ← inner.statement
        return .ifElse c x elseBranch (← spanFrom start)
      else return .ifThen c x (← spanFrom start) : Parse Stmt) := by
  intro t
  refine From.eat_bind (fun _ u _ _ => ?_) fun _ => From.spanFrom_bind (From.pure fun _ => trivial)
  refine From.bind (hkept u) fun _ _ _ _ _ => ?_
  exact From.spanFrom_bind (From.pure fun _ => trivial)

theorem completes_ifThen (hinner : CompleteParts limit inner) {c : Expr} {x : Stmt} {span : Span}
    (hgc : c.Grouped) (hrc : c.Readable) (hgx : x.Grouped) (hrx : x.Readable)
    (hrest : rest.head? ≠ some (.keyword .elseWord))
    (hs : s.Faces limit (.keyword .ifWord :: (c.conditionTokens ++ (x.tokens ++ rest)))) :
    Completes limit s (ifStatement inner) ((Stmt.ifThen c x span).Alike anyPlace) rest
      (c.wholeToll.andThen x.wholeToll) := by
  refine Yields.currentSpan_bind (Yields.advance_bind hs fun t ht => ?_)
  refine Yields.bind (delivers_condition hinner hgc hrc ht) fun c' u hc hu => ?_
  have hx := hinner.statement x hgx hrx u rest (fun _ => hrest) hu
  refine Yields.of_eq ?_ (Toll.andThen_free _)
  refine Yields.bind_noted hu.settled hx hinner.kept (keeps_else hinner.kept c' _) fun x' v hx' hv => ?_
  refine Yields.eat_bind_no hv hrest (Yields.spanFrom_bind (Yields.pure hv ?_))
  exact .ifThen hc hx' trivial

theorem completes_ifElse (hinner : CompleteParts limit inner) {c : Expr} {x y : Stmt} {span : Span}
    (hgc : c.Grouped) (hrc : c.Readable) (hgx : x.Grouped) (hrx : x.Readable)
    (hclosed : x.endsOpen = false) (hgy : y.Grouped) (hry : y.Readable)
    (hrest : y.endsOpen = true → rest.head? ≠ some (.keyword .elseWord))
    (hs : s.Faces limit (.keyword .ifWord :: (c.conditionTokens ++ (x.tokens ++
      .keyword .elseWord :: (y.tokens ++ rest))))) :
    Completes limit s (ifStatement inner) ((Stmt.ifElse c x y span).Alike anyPlace) rest
      (c.wholeToll.andThen (x.wholeToll.andThen y.wholeToll)) := by
  refine Yields.currentSpan_bind (Yields.advance_bind hs fun t ht => ?_)
  refine Yields.bind (delivers_condition hinner hgc hrc ht) fun c' u hc hu => ?_
  -- the first branch does not take the `else`
  have hx := hinner.statement x hgx hrx u _ (fun hopen => by simp [hclosed] at hopen) hu
  refine Yields.bind_noted hu.settled hx hinner.kept (keeps_else hinner.kept c' _) fun x' v hx' hv => ?_
  refine Yields.eat_bind hv fun w hw => ?_
  have hy := hinner.statement y hgy hry w rest hrest hw
  refine Yields.of_eq ?_ (Toll.andThen_free _)
  refine Yields.bind_noted hw.settled hy hinner.kept (fun _ => keeps_spanFrom _) fun y' z hy' hz => ?_
  exact Yields.spanFrom_bind (Yields.pure hz (.ifElse hc hx' hy' trivial))

theorem completes_whileStatement (hinner : CompleteParts limit inner) {c : Expr} {x : Stmt}
    {span : Span} (hgc : c.Grouped) (hrc : c.Readable) (hgx : x.Grouped) (hrx : x.Readable)
    (hrest : x.endsOpen = true → rest.head? ≠ some (.keyword .elseWord))
    (hs : s.Faces limit (.keyword .whileWord :: (c.conditionTokens ++ (x.tokens ++ rest)))) :
    Completes limit s (whileStatement inner) ((Stmt.whileLoop c x span).Alike anyPlace) rest
      (c.wholeToll.andThen x.wholeToll) := by
  refine Yields.currentSpan_bind (Yields.advance_bind hs fun t ht => ?_)
  refine Yields.bind (delivers_condition hinner hgc hrc ht) fun c' u hc hu => ?_
  have hx := hinner.statement x hgx hrx u rest hrest hu
  refine Yields.of_eq ?_ (Toll.andThen_free _)
  refine Yields.bind_noted hu.settled hx hinner.kept (fun _ => keeps_spanFrom _) fun x' v hx' hv => ?_
  exact Yields.spanFrom_bind (Yields.pure hv (.whileLoop hc hx' trivial))

/-- An expression that may be missing in front of a sign. -/
theorem delivers_expressionUnless (hinner : CompleteParts limit inner) {sign : Punctuator}
    (hsign : sign ∈ [.semicolon, .rightParen]) {e : Option Expr} (hg : ∀ a ∈ e, a.Grouped)
    (hr : ∀ a ∈ e, a.Readable) (hs : s.Faces limit (perhaps Expr.tokens e ++ .punctuator sign :: rest)) :
    Delivers limit s (expressionUnless inner sign) (Option.Rel (Expr.Alike anyPlace) e)
      (.punctuator sign :: rest) (tollOf Expr.wholeToll e) := by
  simp only [List.mem_cons, List.not_mem_nil, or_false] at hsign
  cases e with
  | none =>
    refine Yields.peek_bind hs ?_
    rw [if_pos (by rfl)]
    exact Yields.pure hs .none
  | some e =>
    have hge := hg e rfl
    have hre := hr e rfl
    have hopen : (perhaps Expr.tokens (some e) ++ .punctuator sign :: rest).head?
        ≠ some (.punctuator sign) := by
      obtain ⟨token, ts, htokens, hstarts⟩ := beginsExpr e hge hre
      rw [perhaps, htokens]
      rintro ⟨⟩
      rcases hsign with rfl | rfl <;> exact absurd hstarts (by decide)
    refine Yields.peek_bind hs ?_
    rw [if_neg hopen]
    have hends : Rank.assignment.Ends (.punctuator sign :: rest) := by
      refine ends_of_sign _ ?_
      rcases hsign with rfl | rfl <;> simp
    have he := hinner.expression e hge hre s _ hends hs
    refine Yields.of_eq (Yields.bind he fun a t ha ht => ?_) (Toll.andThen_free _)
    exact Yields.pure ht (.some ha)

/-- No expression begins as a declaration does. -/
theorem declKind_of_startsExpression {token : Token} (h : startsExpression token = true) :
    DeclKind.ofToken? token = none := by
  unfold DeclKind.ofToken?
  split
  · exact absurd h (by decide)
  · exact absurd h (by decide)
  · exact absurd h (by decide)
  · rfl

/-- A header that does not begin with a declaration. -/
theorem delivers_forExpression (hinner : CompleteParts limit inner) {e : Option Expr}
    (hg : ∀ a ∈ e, a.Grouped) (hr : ∀ a ∈ e, a.Readable)
    (hs : s.Faces limit (perhaps Expr.tokens e ++ .punctuator .semicolon :: rest)) :
    Delivers limit s (forStart inner) (Option.Rel (ForStart.Alike anyPlace) (e.map .expression))
      (.punctuator .semicolon :: rest) (tollOf Expr.wholeToll e) := by
  have hkind : (perhaps Expr.tokens e ++ .punctuator .semicolon :: rest).head?.bind
      DeclKind.ofToken? = none := by
    cases e with
    | none => rfl
    | some e =>
      obtain ⟨token, ts, htokens, hstarts⟩ := beginsExpr e (hg e rfl) (hr e rfl)
      rw [perhaps, htokens]
      exact declKind_of_startsExpression hstarts
  refine Yields.peek_bind hs ?_
  rw [hkind]
  have he := delivers_expressionUnless hinner (by simp) hg hr hs
  refine Yields.of_eq (Yields.bind he fun a t ha ht => Yields.pure ht ?_) (Toll.andThen_free _)
  cases ha with
  | none => exact .none
  | some ha => exact .some (.expression ha)

theorem delivers_forStart (hinner : CompleteParts limit inner) {start : Option ForStart}
    (hg : ∀ f ∈ start, f.Grouped) (hr : ∀ f ∈ start, f.Readable)
    (hs : s.Faces limit (perhaps ForStart.tokens start ++ .punctuator .semicolon :: rest)) :
    Delivers limit s (forStart inner) (Option.Rel (ForStart.Alike anyPlace) start)
      (.punctuator .semicolon :: rest) (tollOf ForStart.toll start) := by
  rcases start with _ | d | e
  · have hnone : ∀ a ∈ (none : Option Expr), a.Grouped ∧ a.Readable := by simp
    exact delivers_forExpression hinner (fun a ha => (hnone a ha).1) (fun a ha => (hnone a ha).2) hs
  · have hkind : (perhaps ForStart.tokens (some (.declaration d)) ++
        .punctuator .semicolon :: rest).head?.bind DeclKind.ofToken? = some d.kind := by
      show DeclKind.ofToken? d.kind.token = some d.kind
      cases d.kind <;> rfl
    refine Yields.peek_bind hs ?_
    rw [hkind]
    have hd := delivers_declaration hinner (hg _ rfl) (hr _ rfl) hs
    refine Yields.of_eq (Yields.bind hd fun d' t hd' ht => ?_) (Toll.andThen_free _)
    exact Yields.pure ht (.some (.declaration hd'))
  · have hge : ∀ a ∈ some e, a.Grouped := by
      rintro a ⟨⟩
      exact hg _ rfl
    have hre : ∀ a ∈ some e, a.Readable := by
      rintro a ⟨⟩
      exact hr _ rfl
    exact delivers_forExpression hinner hge hre hs

theorem completes_forStatement (hinner : CompleteParts limit inner) {start : Option ForStart}
    {c e : Option Expr} {x : Stmt} {span : Span} (hg : (Stmt.forLoop start c e x span).Grouped)
    (hr : (Stmt.forLoop start c e x span).Readable)
    (hrest : x.endsOpen = true → rest.head? ≠ some (.keyword .elseWord))
    (hs : s.Faces limit ((Stmt.forLoop start c e x span).tokens ++ rest)) :
    Completes limit s (forStatement inner) ((Stmt.forLoop start c e x span).Alike anyPlace) rest
      ((tollOf ForStart.toll start).andThen ((tollOf Expr.wholeToll c).andThen
        ((tollOf Expr.wholeToll e).andThen x.wholeToll))) := by
  obtain ⟨hgf, hgc, hge, hgx⟩ := hg
  obtain ⟨hrf, hrc, hre, hrx⟩ := hr
  simp only [Stmt.tokens, List.cons_append, List.append_assoc] at hs
  refine Yields.currentSpan_bind (Yields.advance_bind hs fun t ht => ?_)
  refine Yields.expect_bind ht fun u hu => ?_
  refine Yields.bind (delivers_forStart hinner hgf hrf hu) fun f' v hf hv => ?_
  refine Yields.expect_bind hv fun w hw => ?_
  refine Yields.bind (delivers_expressionUnless hinner (by simp) hgc hrc hw) fun c' y hc hy => ?_
  refine Yields.expect_bind hy fun z hz => ?_
  refine Yields.bind (delivers_expressionUnless hinner (by simp) hge hre hz) fun e' t' he ht' => ?_
  refine Yields.expect_bind ht' fun u' hu' => ?_
  have hx := hinner.statement x hgx hrx u' rest hrest hu'
  refine Yields.of_eq ?_ (Toll.andThen_free _)
  refine Yields.bind_noted hu'.settled hx hinner.kept (fun _ => keeps_spanFrom _) fun x' v' hx' hv' => ?_
  exact Yields.spanFrom_bind (Yields.pure hv' (.forLoop hf hc he hx' trivial))

theorem completes_returnStatement (hinner : CompleteParts limit inner) {e : Option Expr}
    {span : Span} (hg : ∀ a ∈ e, a.Grouped) (hr : ∀ a ∈ e, a.Readable)
    (hs : s.Faces limit (.keyword .returnWord :: (perhaps Expr.tokens e ++
      .punctuator .semicolon :: rest))) :
    Completes limit s (returnStatement inner) ((Stmt.returns e span).Alike anyPlace) rest
      (tollOf Expr.wholeToll e) := by
  refine Yields.currentSpan_bind (Yields.advance_bind hs fun t ht => Yields.peek_bind ht ?_)
  have hend : ∀ e' u, Option.Rel (Expr.Alike anyPlace) e e' →
      u.Faces limit (.punctuator .semicolon :: rest) → Completes limit u (do
        let _ ← eat (.punctuator .semicolon)
        return .returns e' (← spanFrom s.span.start))
        ((Stmt.returns e span).Alike anyPlace) rest .free := by
    intro e' u he hu
    exact Yields.eat_bind hu fun v hv => Yields.spanFrom_bind (Yields.pure hv (.returns he trivial))
  refine Yields.of_eq ?_ (Toll.andThen_free _)
  cases e with
  | none =>
    have hvalue : Delivers limit t (Pure.pure none) (Option.Rel (Expr.Alike anyPlace) none)
        (.punctuator .semicolon :: rest) .free := Yields.pure ht .none
    rw [if_pos (.inr (.inl (by rfl)))]
    exact Yields.bind hvalue hend
  | some e =>
    have hge := hg e rfl
    have hre := hr e rfl
    obtain ⟨token, ts, htokens, hstarts⟩ := beginsExpr e hge hre
    have hhead : (perhaps Expr.tokens (some e) ++ .punctuator .semicolon :: rest).head? = some token := by
      rw [perhaps, htokens]
      rfl
    rw [hhead]
    have hvalue : Delivers limit t (some <$> inner.expression)
        (Option.Rel (Expr.Alike anyPlace) (some e)) (.punctuator .semicolon :: rest) e.wholeToll := by
      rw [map_eq_pure_bind]
      have he := hinner.expression e hge hre t _ (ends_of_sign _ (by simp)) ht
      refine Yields.of_eq (Yields.bind he fun a u ha hu => ?_) (Toll.andThen_free _)
      exact Yields.pure hu (.some ha)
    rw [if_neg]
    · exact Yields.bind hvalue hend
    · rintro (h | h | h)
      · cases h
      · cases h
        exact absurd hstarts (by decide)
      · cases h
        exact absurd hstarts (by decide)

/-! ### All statements -/

/-- A statement that begins with no word of its own is an expression. -/
theorem completes_byExpression {token : Token} {ts : List Token} {R : Stmt → Prop} {c : Toll}
    (hstarts : startsExpression token = true) (hs : s.Faces limit (token :: ts))
    (h : Completes limit s (expressionStatement inner) R rest c) :
    Completes limit s (statementWith inner) R rest c := by
  refine Yields.peek_cons_bind hs ?_
  rw [Option.bind_some, declKind_of_startsExpression hstarts]
  simp only
  split
  next heq => cases heq; exact absurd hstarts (by decide)
  next heq => cases heq; exact absurd hstarts (by decide)
  next heq => cases heq; exact absurd hstarts (by decide)
  next heq => cases heq; exact absurd hstarts (by decide)
  next heq => cases heq; exact absurd hstarts (by decide)
  next heq => cases heq; exact absurd hstarts (by decide)
  next => exact h

/-- Every statement is read by the reader that its first token asks for. -/
theorem completes_statementWith (hinner : CompleteParts limit inner) : ∀ x : Stmt, x.Grouped →
    x.Readable → (x.endsOpen = true → rest.head? ≠ some (.keyword .elseWord)) →
    s.Faces limit (x.tokens ++ rest) →
      Completes limit s (statementWith inner) (x.Alike anyPlace) rest x.toll
  | .variables d span, hg, hr, _, hs => by
    have hkind : DeclKind.ofToken? d.kind.token = some d.kind := by cases d.kind <;> rfl
    refine Yields.peek_cons_bind hs ?_
    rw [Option.bind_some, hkind]
    simp only [Stmt.tokens, List.append_assoc] at hs
    exact completes_variableStatement hinner hg hr hs
  | .function f xs bodySpan span, hg, hr, _, hs => by
    refine Yields.peek_cons_bind hs ?_
    simp only [Stmt.tokens, List.append_assoc, List.cons_append] at hs
    exact completes_function hinner hr.1 hg hr.2 hs
  | .block xs span, hg, hr, _, hs => by
    refine Yields.peek_cons_bind hs ?_
    simp only [Stmt.tokens, List.append_assoc, List.cons_append] at hs
    have hbody := completes_block hinner.statement hinner.kept hg hr hs
    refine Yields.of_eq ?_ (Toll.andThen_free _)
    refine Yields.bind_noted hs.settled hbody (keeps_block hinner.kept) (fun p t => ?_) ?_
    · exact From.pure fun _ => trivial
    · exact fun p t hp ht => Yields.pure ht (.block hp trivial)
  | .ifThen c x span, hg, hr, hrest, hs => by
    refine Yields.peek_cons_bind hs ?_
    simp only [Stmt.tokens, List.append_assoc, List.cons_append] at hs
    exact completes_ifThen hinner hg.1 hr.1 hg.2 hr.2 (hrest rfl) hs
  | .ifElse c x y span, ⟨hgc, hgx, hgy⟩, ⟨hrc, hrx, hclosed, hry⟩, hrest, hs => by
    refine Yields.peek_cons_bind hs ?_
    simp only [Stmt.tokens, List.append_assoc, List.cons_append] at hs
    exact completes_ifElse hinner hgc hrc hgx hrx hclosed hgy hry hrest hs
  | .whileLoop c x span, hg, hr, hrest, hs => by
    refine Yields.peek_cons_bind hs ?_
    simp only [Stmt.tokens, List.append_assoc, List.cons_append] at hs
    exact completes_whileStatement hinner hg.1 hr.1 hg.2 hr.2 hrest hs
  | .forLoop start c e x span, hg, hr, hrest, hs =>
    Yields.peek_cons_bind hs (completes_forStatement hinner hg hr hrest hs)
  | .returns e span, hg, hr, _, hs => by
    refine Yields.peek_cons_bind hs ?_
    simp only [Stmt.tokens, List.append_assoc, List.cons_append] at hs
    exact completes_returnStatement hinner hg hr hs
  | .expression e span, hg, hr, _, hs => by
    obtain ⟨token, ts, htokens, hstarts⟩ := beginsExpr e hg hr
    simp only [Stmt.tokens, List.append_assoc, List.cons_append] at hs
    refine completes_byExpression hstarts (by rw [htokens] at hs; exact hs) ?_
    exact completes_expressionStatement hinner hg hr hs

end Kinds

theorem keeps_statement (depth : Nat) : Keeps (statement depth) :=
  fun s => From.last (reads_statement depth s) fun _ _ _ _ _ => trivial

/-- **A statement is read back,** however deep. -/
theorem completes_statement : ∀ depth, ReadsStmts depth (statement depth)
  | 0 => fun _ _ _ _ _ _ hs => Yields.fail hs rfl
  | depth + 1 => fun x hg hr s rest hrest hs => by
    have hinner : CompleteParts depth
        ⟨typeExpr depth, expression depth .assignment, statement depth⟩ :=
      ⟨delivers_typeExpr depth,
        fun e hge hre => delivers_expression depth .assignment e hge hre trivial,
        completes_statement depth, keeps_statement depth⟩
    exact Yields.nested hs fun t ht => completes_statementWith hinner x hg hr hrest ht

end ScriptLint.Parse

namespace ScriptLint

/-! ### Scripts -/

/-- At the start of a text without lexical errors all of its tokens are ahead. -/
theorem Parse.State.faces_ofText {text : String} {ws : List Lexeme} (h : tokenize text = .ok ws) :
    (ofText text).Faces nestingLimit (ws.map Lexeme.token) ∧ (ofText text).log = [] := by
  have hscan : scan text = ws.map .ok := tokenize_eq_ok.mp h
  have hahead : (ofText text).ahead = ws.map .ok := by
    show dropErrors (scan text) = _
    rw [hscan, dropErrors_map_ok]
  refine ⟨⟨⟨ws, hahead, rfl⟩, Nat.le_refl nestingLimit⟩, ?_⟩
  show ((leadingErrors (scan text)).map SyntaxError.ofLexical).reverse ++ [] = []
  rw [hscan, leadingErrors_map_ok]
  rfl

namespace Script

/-- A text that is read as a whole is taken if its levels suffice, and otherwise the nesting is
among the errors. -/
theorem parse_of_completes (name : String) {text : String} {R : List Stmt → Prop}
    {rest : List Token} {c : Toll} (hlog : (Parse.State.ofText text).log = [])
    (hrun : Parse.Completes nestingLimit (Parse.State.ofText text)
      (Parse.statements (Parse.statement nestingLimit) none) R rest c) :
    (c.need ≤ nestingLimit → ∃ body, parse name text = .ok ⟨name, text, body⟩ ∧ R body) ∧
    (nestingLimit < c.need → ∃ errors, parse name text = .error errors ∧
      ∃ e ∈ errors, e.problem = .nestedTooDeeply) := by
  have hroom : (Parse.State.ofText text).room = nestingLimit := rfl
  cases hrun with
  | @fits body t hneed hok hbody ht =>
    have hread : readBody text = (body, t) := by
      unfold readBody
      rw [hok]
    refine ⟨fun _ => ⟨body, ?_, hbody⟩, fun hlt => by omega⟩
    rw [parse_eq_ok, hread]
    exact ⟨rfl, ht.log.trans hlog⟩
  | tooDeep hlt hout =>
    have hnotes : (readBody text).2.NotesDepth := by
      unfold readBody
      cases hr : Parse.statements (Parse.statement nestingLimit) none (Parse.State.ofText text) with
      | ok body t =>
        rw [hr] at hout
        exact hout.2
      | error e t =>
        rw [hr] at hout
        rcases hout with hproblem | ⟨-, hnotes⟩
        · exact ⟨e, List.mem_cons_self, hproblem⟩
        · exact hnotes.mono (List.suffix_cons e t.log)
    obtain ⟨e, he, hproblem⟩ := hnotes
    refine ⟨fun hle => by omega, fun _ => ⟨_, parse_eq_error (List.ne_nil_of_mem he), e, ?_, hproblem⟩⟩
    exact List.mem_reverse.mpr he

/-- A text with the tokens of a list of statements is read to its end, unless they nest too
deeply. -/
theorem completes_rendering {body : List Stmt} (hgrouped : Stmt.GroupedAll body)
    (hreadable : Stmt.ReadableAll body) {text : String} {ws : List Lexeme}
    (htext : tokenize text = .ok ws) (htokens : ws.map Lexeme.token = Stmt.tokensAll body) :
    (Parse.State.ofText text).log = [] ∧
    Parse.Completes nestingLimit (Parse.State.ofText text)
      (Parse.statements (Parse.statement nestingLimit) none)
      (List.Forall₂ (Stmt.Alike anyPlace) body) [] (Stmt.tollAll body) := by
  obtain ⟨hfaces, hlog⟩ := Parse.State.faces_ofText htext
  rw [htokens, ← List.append_nil (Stmt.tokensAll body)] at hfaces
  exact ⟨hlog, Parse.completes_statements (Parse.completes_statement nestingLimit)
    (Parse.keeps_statement nestingLimit) (.inl rfl) rfl hgrouped hreadable hfaces⟩

/-- **A tree is read back from its canonical rendering,** unless it nests too deeply. Let a text
have the tokens of a list of statements, which are grouped by their precedences and can be read at
all. If the levels suffice, reading the text strictly yields the same statements, up to their
places; if they do not, the nesting is among the errors. -/
theorem parse_rendering {body : List Stmt} (hgrouped : Stmt.GroupedAll body)
    (hreadable : Stmt.ReadableAll body) (name : String) {text : String} {ws : List Lexeme}
    (htext : tokenize text = .ok ws) (htokens : ws.map Lexeme.token = Stmt.tokensAll body) :
    ((Stmt.tollAll body).need ≤ nestingLimit → ∃ body', parse name text = .ok ⟨name, text, body'⟩ ∧
      List.Forall₂ (Stmt.Alike anyPlace) body body') ∧
    (nestingLimit < (Stmt.tollAll body).need → ∃ errors, parse name text = .error errors ∧
      ∃ e ∈ errors, e.problem = .nestedTooDeeply) := by
  obtain ⟨hlog, hrun⟩ := completes_rendering hgrouped hreadable htext htokens
  exact parse_of_completes name hlog hrun

/-- The statement `if (a) while (b) x = -y; else f(number)["k"];`, all at one place. -/
def branches (o : Span) : Stmt :=
  .ifElse (.identifier ⟨"a", o⟩)
    (.whileLoop (.identifier ⟨"b", o⟩)
      (.expression (.assignment .simple (.identifier ⟨"x", o⟩)
        (.unary .negative (.identifier ⟨"y", o⟩) o) o) o) o)
    (.expression (.element (.call (.identifier ⟨"f", o⟩) [.identifier ⟨"number", o⟩] o)
      (.string "k" o) o) o) o

/-- The theorem at a statement with two branches, whose `else` belongs to the outer `if`. -/
theorem parse_rendering_branches : ∃ body',
    parse "a.ts" "if (a) while (b) x = -y; else f(number)[\"k\"];" =
      .ok ⟨"a.ts", "if (a) while (b) x = -y; else f(number)[\"k\"];", body'⟩ ∧
    List.Forall₂ (Stmt.Alike anyPlace) [branches (.emptyAt 0)] body' := by
  have htokens : (tokenize "if (a) while (b) x = -y; else f(number)[\"k\"];").toOption.map
      (List.map Lexeme.token) = some (Stmt.tokensAll [branches (.emptyAt 0)]) := by
    decide +kernel
  have hgrouped : Stmt.GroupedAll [branches (.emptyAt 0)] := by
    simp [branches, Stmt.GroupedAll, Stmt.Grouped, Expr.Grouped, Expr.GroupedAll, Expr.IsObject,
      Expr.IsOperand, Expr.strength, Expr.isAssignable]
  have hreadable : Stmt.ReadableAll [branches (.emptyAt 0)] :=
    ⟨⟨rfl, ⟨rfl, rfl, rfl⟩, rfl, ⟨⟨rfl, rfl, trivial⟩, trivial⟩⟩, trivial⟩
  cases h : tokenize "if (a) while (b) x = -y; else f(number)[\"k\"];" with
  | error e => simp [h, Except.toOption] at htokens
  | ok ws =>
    have hws : ws.map Lexeme.token = Stmt.tokensAll [branches (.emptyAt 0)] := by
      simpa [h, Except.toOption] using htokens
    exact (parse_rendering hgrouped hreadable "a.ts" h hws).1 (by decide +kernel)

end Script

end ScriptLint
