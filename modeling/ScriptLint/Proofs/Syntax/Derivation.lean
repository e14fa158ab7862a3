import ScriptLint.Parsing.TypeExpr
/-!
# Derivations

A tree is derived from a row of lexemes if the lexemes, read from left to
right, spell the tree. A derivation leaves no lexeme out: the only ones that
leave no trace in the tree are the semicolons between and behind statements,
a comma behind the last argument or element, and the parentheses around a
type. It also fixes where every node stands: a name has the span of its
lexeme, an operation covers its operands, and every other node reaches from
its first lexeme to its last.

Statements may be derived with gaps. What may stand in a gap is up to the
reader: `junk` says whether lexemes other than semicolons may be passed over
between two statements.

Key definitions: `extent`, `TypeExpr.Spells`, `Expr.Spells`, `Stmt.Spells`, `Stmt.SpellsAll`.
-/

namespace ScriptLint

/-! ### Rows of lexemes -/

/-- The end of the last lexeme; `start` if there is none. -/
def endOf (start : Nat) (ws : List Lexeme) : Nat :=
  ws.foldl (fun _ w => w.span.stop) start

/-- The span from the first lexeme to the last. -/
def extent : List Lexeme → Span
  | [] => Span.emptyAt 0
  | w :: ws => Span.upTo w.span.start (endOf w.span.stop ws)

@[simp] theorem endOf_nil (start : Nat) : endOf start [] = start := rfl

@[simp] theorem endOf_cons (start : Nat) (w : Lexeme) (ws : List Lexeme) :
    endOf start (w :: ws) = endOf w.span.stop ws := rfl

@[simp] theorem endOf_append (start : Nat) (us ws : List Lexeme) :
    endOf start (us ++ ws) = endOf (endOf start us) ws := by
  simp [endOf]

/-- The lexeme is the given sign. -/
def Lexeme.IsSign (w : Lexeme) (sign : Punctuator) : Prop :=
  w.token = .punctuator sign

/-- The lexeme is the given reserved word. -/
def Lexeme.IsWord (w : Lexeme) (word : Keyword) : Prop :=
  w.token = .keyword word

/-- The name stands where the lexeme stands and is what the lexeme names. -/
def Ident.SpelledBy (name : Ident) (w : Lexeme) : Prop :=
  w.token.name? = some name.name ∧ name.span = w.span

section Rows

variable {α : Type}

/-- One or more items with a sign between them. -/
inductive Separated (sign : Punctuator) (P : α → List Lexeme → Prop) :
    List α → List Lexeme → Prop
  | one {a : α} {ws : List Lexeme} : P a ws → Separated sign P [a] ws
  | more {a : α} {as : List α} {ws us : List Lexeme} {w : Lexeme} :
      P a ws → w.IsSign sign → Separated sign P as us → Separated sign P (a :: as) (ws ++ w :: us)

/-- Items with commas between them, and perhaps one behind the last. -/
inductive Listed (P : α → List Lexeme → Prop) : List α → List Lexeme → Prop
  | nil : Listed P [] []
  | last {a : α} {ws : List Lexeme} : P a ws → Listed P [a] ws
  | more {a : α} {as : List α} {ws us : List Lexeme} {w : Lexeme} :
      P a ws → w.IsSign .comma → Listed P as us → Listed P (a :: as) (ws ++ w :: us)

theorem Separated.snoc {sign : Punctuator} {P : α → List Lexeme → Prop} {as : List α} {a : α}
    {ws us : List Lexeme} {w : Lexeme} (h : Separated sign P as ws) (hw : w.IsSign sign)
    (ha : P a us) : Separated sign P (as ++ [a]) (ws ++ w :: us) := by
  induction h with
  | one hb => exact .more hb hw (.one ha)
  | more hb hv _ ih =>
    rw [List.cons_append, List.append_assoc, List.cons_append]
    exact .more hb hv ih

theorem Separated.ne_nil {sign : Punctuator} {P : α → List Lexeme → Prop} {as : List α}
    {ws : List Lexeme} (h : Separated sign P as ws) (hP : ∀ a us, P a us → us ≠ []) : ws ≠ [] := by
  cases h with
  | one ha => exact hP _ _ ha
  | more _ _ _ => simp

/-- A part of what is known of the items can be told apart. -/
theorem Separated.and {sign : Punctuator} {P : α → List Lexeme → Prop} {G : α → Prop}
    {as : List α} {ws : List Lexeme} (h : Separated sign (fun a us => P a us ∧ G a) as ws) :
    Separated sign P as ws ∧ ∀ a ∈ as, G a := by
  induction h with
  | one ha => exact ⟨.one ha.1, by simpa using ha.2⟩
  | more ha hw _ ih => exact ⟨.more ha.1 hw ih.1, by simpa using ⟨ha.2, ih.2⟩⟩

theorem Listed.and {P : α → List Lexeme → Prop} {G : α → Prop} {as : List α} {ws : List Lexeme}
    (h : Listed (fun a us => P a us ∧ G a) as ws) : Listed P as ws ∧ ∀ a ∈ as, G a := by
  induction h with
  | nil => exact ⟨.nil, by simp⟩
  | last ha => exact ⟨.last ha.1, by simpa using ha.2⟩
  | more ha hw _ ih => exact ⟨.more ha.1 hw ih.1, by simpa using ⟨ha.2, ih.2⟩⟩

/-- A part that may be left out, behind its sign. -/
inductive Behind (sign : Punctuator) (P : α → List Lexeme → Prop) : Option α → List Lexeme → Prop
  | none : Behind sign P none []
  | some {a : α} {ws : List Lexeme} {w : Lexeme} :
      w.IsSign sign → P a ws → Behind sign P (some a) (w :: ws)

/-- A part that may be left out. -/
inductive Perhaps (P : α → List Lexeme → Prop) : Option α → List Lexeme → Prop
  | none : Perhaps P none []
  | some {a : α} {ws : List Lexeme} : P a ws → Perhaps P (some a) ws

theorem Behind.and {sign : Punctuator} {P : α → List Lexeme → Prop} {G : α → Prop}
    {a : Option α} {ws : List Lexeme} (h : Behind sign (fun b us => P b us ∧ G b) a ws) :
    Behind sign P a ws ∧ ∀ b ∈ a, G b := by
  cases h with
  | none => exact ⟨.none, by simp⟩
  | some hw ha => exact ⟨.some hw ha.1, by simpa using ha.2⟩

theorem Perhaps.and {P : α → List Lexeme → Prop} {G : α → Prop} {a : Option α}
    {ws : List Lexeme} (h : Perhaps (fun b us => P b us ∧ G b) a ws) :
    Perhaps P a ws ∧ ∀ b ∈ a, G b := by
  cases h with
  | none => exact ⟨.none, by simp⟩
  | some ha => exact ⟨.some ha.1, by simpa using ha.2⟩

end Rows

/-! ### Types -/

mutual

/-- A written type: a member alone, or several with bars between them. -/
inductive TypeExpr.Spells : TypeExpr → List Lexeme → Prop
  | one {t : TypeExpr} {ws : List Lexeme} : TypeExpr.SpellsMember t ws → TypeExpr.Spells t ws
  | union {ts : List TypeExpr} {ws : List Lexeme} :
      Separated .bar TypeExpr.SpellsMember ts ws → 2 ≤ ts.length →
      TypeExpr.Spells (.union ts (extent ws)) ws

/-- A type that can be the member of a union, or have brackets behind it. -/
inductive TypeExpr.SpellsMember : TypeExpr → List Lexeme → Prop
  | keyword {word : TypeKeyword} {w : Lexeme} :
      Parse.typeKeyword? w.token = some word → TypeExpr.SpellsMember (.keyword word w.span) [w]
  | literalTrue {w : Lexeme} :
      w.IsWord .trueWord → TypeExpr.SpellsMember (.literal true w.span) [w]
  | literalFalse {w : Lexeme} :
      w.IsWord .falseWord → TypeExpr.SpellsMember (.literal false w.span) [w]
  | reference {name : String} {w : Lexeme} :
      w.token = .identifier name → name ≠ "undefined" →
      TypeExpr.SpellsMember (.reference ⟨name, w.span⟩) [w]
  | parenthesized {t : TypeExpr} {ws : List Lexeme} {l r : Lexeme} :
      l.IsSign .leftParen → TypeExpr.Spells t ws → r.IsSign .rightParen →
      TypeExpr.SpellsMember t (l :: (ws ++ [r]))
  | array {t : TypeExpr} {ws : List Lexeme} {l r : Lexeme} :
      TypeExpr.SpellsMember t ws → l.IsSign .leftBracket → r.IsSign .rightBracket →
      TypeExpr.SpellsMember (.array t (extent (ws ++ [l, r]))) (ws ++ [l, r])

end

/-! ### Expressions -/

/-- An expression. How its operators are grouped is left to `Expr.Grouped`. -/
inductive Expr.Spells : Expr → List Lexeme → Prop
  | number {value : Binary64} {w : Lexeme} :
      w.token = .number value → Expr.Spells (.number value w.span) [w]
  | string {value : String} {w : Lexeme} :
      w.token = .string value → Expr.Spells (.string value w.span) [w]
  | booleanTrue {w : Lexeme} : w.IsWord .trueWord → Expr.Spells (.boolean true w.span) [w]
  | booleanFalse {w : Lexeme} : w.IsWord .falseWord → Expr.Spells (.boolean false w.span) [w]
  | null {w : Lexeme} : w.IsWord .nullWord → Expr.Spells (.null w.span) [w]
  | identifier {name : Ident} {w : Lexeme} : name.SpelledBy w → Expr.Spells (.identifier name) [w]
  | binary {op : BinaryOp} {e f : Expr} {ws us : List Lexeme} {w : Lexeme} :
      Expr.Spells e ws → w.IsSign op.sign → Expr.Spells f us →
      Expr.Spells (.binary op e f (e.span.cover f.span)) (ws ++ w :: us)
  | unary {op : UnaryOp} {e : Expr} {ws : List Lexeme} {w : Lexeme} :
      UnaryOp.ofToken? w.token = some op → Expr.Spells e ws →
      Expr.Spells (.unary op e (extent (w :: ws))) (w :: ws)
  | typeOf {e : Expr} {ws : List Lexeme} {w : Lexeme} :
      w.IsWord .typeofWord → Expr.Spells e ws → Expr.Spells (.typeOf e (extent (w :: ws))) (w :: ws)
  | assignment {op : AssignOp} {e f : Expr} {ws us : List Lexeme} {w : Lexeme} :
      Expr.Spells e ws → w.IsSign op.sign → Expr.Spells f us →
      Expr.Spells (.assignment op e f (e.span.cover f.span)) (ws ++ w :: us)
  | conditional {c e f : Expr} {ws us vs : List Lexeme} {q r : Lexeme} :
      Expr.Spells c ws → q.IsSign .question → Expr.Spells e us → r.IsSign .colon →
      Expr.Spells f vs →
      Expr.Spells (.conditional c e f (c.span.cover f.span)) (ws ++ q :: (us ++ r :: vs))
  | call {e : Expr} {es : List Expr} {ws us : List Lexeme} {l r : Lexeme} :
      Expr.Spells e ws → l.IsSign .leftParen → Listed Expr.Spells es us → r.IsSign .rightParen →
      Expr.Spells (.call e es (extent (ws ++ l :: (us ++ [r])))) (ws ++ l :: (us ++ [r]))
  | property {e : Expr} {name : Ident} {ws : List Lexeme} {d w : Lexeme} :
      Expr.Spells e ws → d.IsSign .dot → name.SpelledBy w →
      Expr.Spells (.property e name (extent (ws ++ [d, w]))) (ws ++ [d, w])
  | element {e f : Expr} {ws us : List Lexeme} {l r : Lexeme} :
      Expr.Spells e ws → l.IsSign .leftBracket → Expr.Spells f us → r.IsSign .rightBracket →
      Expr.Spells (.element e f (extent (ws ++ l :: (us ++ [r])))) (ws ++ l :: (us ++ [r]))
  | parenthesized {e : Expr} {ws : List Lexeme} {l r : Lexeme} :
      l.IsSign .leftParen → Expr.Spells e ws → r.IsSign .rightParen →
      Expr.Spells (.parenthesized e (extent (l :: (ws ++ [r])))) (l :: (ws ++ [r]))
  | array {es : List Expr} {ws : List Lexeme} {l r : Lexeme} :
      l.IsSign .leftBracket → Listed Expr.Spells es ws → r.IsSign .rightBracket →
      Expr.Spells (.array es (extent (l :: (ws ++ [r])))) (l :: (ws ++ [r]))

theorem TypeExpr.SpellsMember.ne_nil {t : TypeExpr} {ws : List Lexeme} (h : t.SpellsMember ws) :
    ws ≠ [] := by
  cases h <;> simp

theorem Expr.Spells.ne_nil {e : Expr} {ws : List Lexeme} (h : e.Spells ws) : ws ≠ [] := by
  cases h <;> simp

/-! ### Declarations -/

/-- A variable with its annotation and its first value. -/
inductive Declarator.Spells : Declarator → List Lexeme → Prop
  | mk {name : Ident} {type : Option TypeExpr} {value : Option Expr} {w : Lexeme}
      {ts es : List Lexeme} :
      name.SpelledBy w → Behind .colon TypeExpr.Spells type ts → Behind .equal Expr.Spells value es →
      Declarator.Spells ⟨name, type, value, extent (w :: (ts ++ es))⟩ (w :: (ts ++ es))

/-- The keyword of a declaration and its variables. -/
inductive Declaration.Spells : Declaration → List Lexeme → Prop
  | mk {kind : DeclKind} {ds : List Declarator} {w : Lexeme} {ws : List Lexeme} :
      DeclKind.ofToken? w.token = some kind → Separated .comma Declarator.Spells ds ws →
      Declaration.Spells ⟨kind, ds, extent (w :: ws)⟩ (w :: ws)

/-- A parameter with its annotation. -/
inductive Parameter.Spells : Parameter → List Lexeme → Prop
  | mk {name : Ident} {type : Option TypeExpr} {w : Lexeme} {ts : List Lexeme} :
      name.SpelledBy w → Behind .colon TypeExpr.Spells type ts →
      Parameter.Spells ⟨name, type, extent (w :: ts)⟩ (w :: ts)

/-- Parameters with commas between them, or none. -/
inductive Parameter.SpellsAll : List Parameter → List Lexeme → Prop
  | nil : Parameter.SpellsAll [] []
  | some {ps : List Parameter} {ws : List Lexeme} :
      Separated .comma Parameter.Spells ps ws → Parameter.SpellsAll ps ws

/-- A function up to its body. -/
inductive Signature.Spells : Signature → List Lexeme → Prop
  | mk {name : Ident} {ps : List Parameter} {type : Option TypeExpr} {f w l r : Lexeme}
      {ws ts : List Lexeme} :
      f.IsWord .functionWord → name.SpelledBy w → l.IsSign .leftParen → Parameter.SpellsAll ps ws →
      r.IsSign .rightParen → Behind .colon TypeExpr.Spells type ts →
      Signature.Spells ⟨name, ps, type⟩ (f :: w :: l :: (ws ++ r :: ts))

/-- What stands first in the header of a `for` statement. -/
inductive ForStart.Spells : ForStart → List Lexeme → Prop
  | declaration {d : Declaration} {ws : List Lexeme} :
      Declaration.Spells d ws → ForStart.Spells (.declaration d) ws
  | expression {e : Expr} {ws : List Lexeme} :
      Expr.Spells e ws → ForStart.Spells (.expression e) ws

/-! ### Statements -/

/-- A row that may end with a semicolon. -/
inductive Ended (ws : List Lexeme) : List Lexeme → Prop
  | bare : Ended ws ws
  | semicolon {w : Lexeme} : w.IsSign .semicolon → Ended ws (ws ++ [w])

theorem Ended.ne_nil {ws us : List Lexeme} (h : Ended ws us) (hw : ws ≠ []) : us ≠ [] := by
  cases h with
  | bare => exact hw
  | semicolon _ => simp

mutual

/-- A statement. -/
inductive Stmt.Spells (junk : Prop) : Stmt → List Lexeme → Prop
  | variables {d : Declaration} {ws us : List Lexeme} :
      Declaration.Spells d ws → Ended ws us → Stmt.Spells junk (.variables d (extent us)) us
  | function {sig : Signature} {body : List Stmt} {ws us : List Lexeme} {l r : Lexeme} :
      Signature.Spells sig ws → l.IsSign .leftBrace → Stmt.SpellsAll junk body us →
      r.IsSign .rightBrace →
      Stmt.Spells junk
        (.function sig body (extent (l :: (us ++ [r]))) (extent (ws ++ l :: (us ++ [r]))))
        (ws ++ l :: (us ++ [r]))
  | block {body : List Stmt} {ws : List Lexeme} {l r : Lexeme} :
      l.IsSign .leftBrace → Stmt.SpellsAll junk body ws → r.IsSign .rightBrace →
      Stmt.Spells junk (.block body (extent (l :: (ws ++ [r])))) (l :: (ws ++ [r]))
  | ifThen {c : Expr} {s : Stmt} {cs ws : List Lexeme} {i l r : Lexeme} :
      i.IsWord .ifWord → l.IsSign .leftParen → Expr.Spells c cs → r.IsSign .rightParen →
      Stmt.Spells junk s ws →
      Stmt.Spells junk (.ifThen c s (extent (i :: l :: (cs ++ r :: ws)))) (i :: l :: (cs ++ r :: ws))
  | ifElse {c : Expr} {s s' : Stmt} {cs ws us : List Lexeme} {i l r e : Lexeme} :
      i.IsWord .ifWord → l.IsSign .leftParen → Expr.Spells c cs → r.IsSign .rightParen →
      Stmt.Spells junk s ws → e.IsWord .elseWord → Stmt.Spells junk s' us →
      Stmt.Spells junk (.ifElse c s s' (extent (i :: l :: (cs ++ r :: (ws ++ e :: us)))))
        (i :: l :: (cs ++ r :: (ws ++ e :: us)))
  | whileLoop {c : Expr} {s : Stmt} {cs ws : List Lexeme} {i l r : Lexeme} :
      i.IsWord .whileWord → l.IsSign .leftParen → Expr.Spells c cs → r.IsSign .rightParen →
      Stmt.Spells junk s ws →
      Stmt.Spells junk (.whileLoop c s (extent (i :: l :: (cs ++ r :: ws))))
        (i :: l :: (cs ++ r :: ws))
  | forLoop {start : Option ForStart} {c u : Option Expr} {s : Stmt} {as cs us ws : List Lexeme}
      {i l a b r : Lexeme} :
      i.IsWord .forWord → l.IsSign .leftParen → Perhaps ForStart.Spells start as →
      a.IsSign .semicolon → Perhaps Expr.Spells c cs → b.IsSign .semicolon →
      Perhaps Expr.Spells u us → r.IsSign .rightParen → Stmt.Spells junk s ws →
      Stmt.Spells junk
        (.forLoop start c u s (extent (i :: l :: (as ++ a :: (cs ++ b :: (us ++ r :: ws))))))
        (i :: l :: (as ++ a :: (cs ++ b :: (us ++ r :: ws))))
  | returns {value : Option Expr} {ws us : List Lexeme} {w : Lexeme} :
      w.IsWord .returnWord → Perhaps Expr.Spells value ws → Ended (w :: ws) us →
      Stmt.Spells junk (.returns value (extent us)) us
  | expression {e : Expr} {ws us : List Lexeme} :
      Expr.Spells e ws → Ended ws us → Stmt.Spells junk (.expression e (extent us)) us

/-- The statements of a list, with what may be passed over between them. -/
inductive Stmt.SpellsAll (junk : Prop) : List Stmt → List Lexeme → Prop
  | nil : Stmt.SpellsAll junk [] []
  | pass {body : List Stmt} {w : Lexeme} {ws : List Lexeme} :
      w.IsSign .semicolon ∨ junk → Stmt.SpellsAll junk body ws → Stmt.SpellsAll junk body (w :: ws)
  | cons {s : Stmt} {body : List Stmt} {ws us : List Lexeme} :
      Stmt.Spells junk s ws → Stmt.SpellsAll junk body us →
      Stmt.SpellsAll junk (s :: body) (ws ++ us)

end

namespace Stmt

variable {junk junk' : Prop}

theorem Spells.ne_nil {s : Stmt} {ws : List Lexeme} (h : Spells junk s ws) : ws ≠ [] := by
  cases h with
  | «variables» hd he => exact he.ne_nil (by cases hd; simp)
  | returns _ _ he => exact he.ne_nil (by simp)
  | expression h he => exact he.ne_nil h.ne_nil
  | _ => simp

mutual

/-- What is derived with few gaps is derived with more. -/
theorem Spells.mono (h : junk → junk') {s : Stmt} {ws : List Lexeme} :
    Spells junk s ws → Spells junk' s ws
  | .variables hd he => .variables hd he
  | .function hs hl hb hr => .function hs hl (hb.mono h) hr
  | .block hl hb hr => .block hl (hb.mono h) hr
  | .ifThen hi hl hc hr hs => .ifThen hi hl hc hr (hs.mono h)
  | .ifElse hi hl hc hr hs he hs' => .ifElse hi hl hc hr (hs.mono h) he (hs'.mono h)
  | .whileLoop hi hl hc hr hs => .whileLoop hi hl hc hr (hs.mono h)
  | .forLoop hi hl ha h1 hc h2 hu hr hs => .forLoop hi hl ha h1 hc h2 hu hr (hs.mono h)
  | .returns hw hv he => .returns hw hv he
  | .expression he hend => .expression he hend

theorem SpellsAll.mono (h : junk → junk') {body : List Stmt} {ws : List Lexeme} :
    SpellsAll junk body ws → SpellsAll junk' body ws
  | .nil => .nil
  | .pass hw hb => .pass (hw.imp_right h) (hb.mono h)
  | .cons hs hb => .cons (hs.mono h) (hb.mono h)

end

theorem SpellsAll.append {body rest : List Stmt} {ws us : List Lexeme} :
    SpellsAll junk body ws → SpellsAll junk rest us → SpellsAll junk (body ++ rest) (ws ++ us)
  | .nil, h' => h'
  | .pass hw hb, h' => .pass hw (hb.append h')
  | .cons hs hb, h' => by
    rw [List.append_assoc]
    exact .cons hs (hb.append h')

theorem SpellsAll.singleton {s : Stmt} {ws : List Lexeme} (h : Spells junk s ws) :
    SpellsAll junk [s] ws := by
  simpa using SpellsAll.cons h .nil

/-- Where everything may be passed over, no statement need be read. -/
theorem SpellsAll.of_junk (h : junk) : ∀ ws : List Lexeme, SpellsAll junk [] ws
  | [] => .nil
  | _ :: ws => .pass (.inr h) (of_junk h ws)

end Stmt

end ScriptLint
