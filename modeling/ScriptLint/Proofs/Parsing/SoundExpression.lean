import ScriptLint.Proofs.Parsing.Reads
import ScriptLint.Proofs.Syntax.Grouping
/-!
# Types and expressions are read as they are written

Every reader of types and expressions yields a tree that is derived from the
lexemes it consumed, and whose operators are grouped well. The readers of one
level are shown sound from the readers one level deeper, and the statement
for all depths follows by induction.

For the binary operators the loop keeps the invariant that the next operator
is no stronger than the operation read so far (`LeftOperand`). It holds again
after a round because the right operand was read until no operator of a
higher precedence was left.

Key definitions: `Rank.floor`, `Rank.Stops`, `ReadsAs`, `LeftOperand`.
Key theorems: `reads_typeExpr`, `reads_expression`.
-/

namespace ScriptLint

namespace Parse

variable {s : State}

/-! ### Types -/

section Types

variable {inner : Parse TypeExpr}

theorem reads_simpleType (hinner : ∀ t, Reads t inner fun a ws _ => a.Spells ws) :
    Reads s (simpleType inner) fun a ws _ => a.SpellsMember ws := by
  refine From.currentSpan_bind (From.peek_bind ?_)
  split
  next h =>
    refine From.advance_bind h fun w u hw hspan _ => From.pure fun _ => ?_
    rw [← hspan]
    exact .literalTrue hw
  next h =>
    refine From.advance_bind h fun w u hw hspan _ => From.pure fun _ => ?_
    rw [← hspan]
    exact .literalFalse hw
  next h =>
    refine From.advance_bind h fun l u hl _ _ => ?_
    refine From.bind (hinner u) fun a us v ha _ => ?_
    refine From.expect_bind fun r x hr _ => From.pure fun _ => ?_
    simpa using TypeExpr.SpellsMember.parenthesized hl ha hr
  next token _ _ _ h =>
    split
    next word hword =>
      refine From.advance_bind h fun w u hw hspan _ => From.pure fun _ => ?_
      rw [← hspan]
      exact .keyword (by rw [hw]; exact hword)
    next hword =>
      split
      next name =>
        refine From.advance_bind h fun w u hw hspan _ => From.pure fun _ => ?_
        rw [← hspan]
        refine .reference hw ?_
        rintro rfl
        simp [typeKeyword?] at hword
      next => exact From.fail
  next => exact From.fail

theorem reads_arrayType (hinner : ∀ t, Reads t inner fun a ws _ => a.Spells ws) :
    Reads s (arrayType inner) fun a ws _ => a.SpellsMember ws := by
  refine From.currentSpan_bind ?_
  refine From.bind (reads_simpleType hinner) fun a us u ha hu => ?_
  refine reads_loop (I := fun a ws _ => a.SpellsMember ws) (fun a ws t hI => ?_) a ha
  refine From.peek_bind ?_
  split
  next h =>
    refine From.descend_bind fun r => ?_
    refine From.advance_bind h fun l u hl _ _ => ?_
    refine From.expect_bind fun r x hr hx => ?_
    refine From.spanFrom_bind (From.pure fun hadv => ⟨?_, by simp⟩)
    rw [hadv.extent_eq (by simp)]
    simpa using TypeExpr.SpellsMember.array hI hl hr
  next => exact From.pure fun _ => hI

theorem reads_unionType (hinner : ∀ t, Reads t inner fun a ws _ => a.Spells ws) :
    Reads s (unionType inner) fun a ws _ => a.Spells ws := by
  refine From.currentSpan_bind ?_
  refine From.bind (reads_separated fun t => reads_arrayType hinner) fun as us u has hu => ?_
  split
  next a =>
    refine From.pure fun _ => .one ?_
    cases has with
    | one ha => exact ha
    | more _ _ hnil => cases hnil
  next as hne =>
    refine From.spanFrom_bind (From.pure fun hadv => ?_)
    rw [hadv.extent_eq (has.ne_nil fun _ _ h => h.ne_nil)]
    refine .union has ?_
    cases has with
    | one _ => exact absurd rfl (hne _)
    | more _ _ hbs => cases hbs <;> simp

end Types

/-- A written type is derived from the lexemes it was read from. -/
theorem reads_typeExpr (depth : Nat) :
    ∀ s, Reads s (typeExpr depth) fun a ws _ => a.Spells ws := by
  induction depth with
  | zero => exact fun s => From.fail
  | succ depth ih =>
    exact fun s => reads_nested (fun _ _ _ _ h => h) fun r => reads_unionType ih

/-! ### Expressions -/

/-- The least strength of an expression of a rank. -/
def Rank.floor : Rank → Nat
  | .assignment => 0
  | .binary least => min least 11
  | .unary => 11

/-- What cannot come next behind an expression of a rank: an operator that it would have taken. -/
def Rank.Stops : Rank → State → Prop
  | .binary least, t => ∀ op, t.token?.bind BinaryOp.ofToken? = some op → op.precedence < least
  | _, _ => True

/-- What an expression of a rank is. -/
structure ReadsAs (rank : Rank) (e : Expr) (ws : List Lexeme) (t : State) : Prop where
  spells : e.Spells ws
  grouped : e.Grouped
  floor_le : rank.floor ≤ e.strength
  stops : rank.Stops t

theorem sign_of_ofToken? {token : Token} {op : BinaryOp} (h : BinaryOp.ofToken? token = some op) :
    token = .punctuator op.sign := by
  cases token with
  | punctuator sign =>
    have := List.find?_some h
    rw [← beq_iff_eq.mp this]
  | _ => simp [BinaryOp.ofToken?] at h

theorem sign_of_assignOp {token : Token} {op : AssignOp} (h : AssignOp.ofToken? token = some op) :
    token = .punctuator op.sign := by
  unfold AssignOp.ofToken? at h
  split at h <;> simp at h <;> subst h <;> rfl

section Expressions

variable {inner : Rank → Parse Expr}

/-- Items with commas between them, of which each is an expression. -/
theorem reads_expressions {close : Punctuator} (hinner : ∀ rank t, Reads t (inner rank) (ReadsAs rank)) :
    Reads s (listUntil close (inner .assignment)) fun es ws _ =>
      Listed Expr.Spells es ws ∧ Expr.GroupedAll es := by
  refine From.last (reads_listUntil (P := fun e ws => e.Spells ws ∧ e.Grouped) fun t => ?_)
    fun es us u h _ => ?_
  · exact From.last (hinner .assignment t) fun e us u h _ => ⟨h.spells, h.grouped⟩
  · obtain ⟨h1, h2⟩ := h.and
    exact ⟨h1, Expr.groupedAll_of_forall h2⟩

theorem reads_primary (hinner : ∀ rank t, Reads t (inner rank) (ReadsAs rank)) :
    Reads s (primary inner) fun e ws _ => e.Spells ws ∧ e.Grouped ∧ e.IsObject := by
  refine From.currentSpan_bind (From.peek_bind ?_)
  split
  next value h =>
    refine From.advance_bind h fun w u hw hspan _ => From.pure fun _ => ?_
    rw [← hspan]
    exact ⟨.number hw, trivial, Nat.le_refl _⟩
  next value h =>
    refine From.advance_bind h fun w u hw hspan _ => From.pure fun _ => ?_
    rw [← hspan]
    exact ⟨.string hw, trivial, Nat.le_refl _⟩
  next h =>
    refine From.advance_bind h fun w u hw hspan _ => From.pure fun _ => ?_
    rw [← hspan]
    exact ⟨.booleanTrue hw, trivial, Nat.le_refl _⟩
  next h =>
    refine From.advance_bind h fun w u hw hspan _ => From.pure fun _ => ?_
    rw [← hspan]
    exact ⟨.booleanFalse hw, trivial, Nat.le_refl _⟩
  next h =>
    refine From.advance_bind h fun w u hw hspan _ => From.pure fun _ => ?_
    rw [← hspan]
    exact ⟨.null hw, trivial, Nat.le_refl _⟩
  next h =>
    refine From.advance_bind h fun l u hl _ _ => ?_
    refine From.bind (hinner .assignment u) fun e us v he _ => ?_
    refine From.expect_bind fun r x hr _ => From.spanFrom_bind (From.pure fun hadv => ?_)
    rw [hadv.extent_eq (by simp)]
    exact ⟨by simpa using Expr.Spells.parenthesized hl he.spells hr, he.grouped, Nat.le_refl _⟩
  next h =>
    refine From.advance_bind h fun l u hl _ _ => ?_
    refine From.bind (reads_expressions hinner) fun es us v hes _ => ?_
    refine From.expect_bind fun r x hr _ => From.spanFrom_bind (From.pure fun hadv => ?_)
    rw [hadv.extent_eq (by simp)]
    exact ⟨by simpa using Expr.Spells.array hl hes.1 hr, hes.2, Nat.le_refl _⟩
  next =>
    split
    next name h =>
      obtain ⟨token, htok, hname⟩ := Option.bind_eq_some_iff.mp h
      refine From.advance_bind htok fun w u hw hspan _ => From.pure fun _ => ?_
      exact ⟨.identifier ⟨by rw [hw]; exact hname, hspan.symm⟩, trivial, Nat.le_refl _⟩
    next => exact From.fail

theorem reads_accessChain (hinner : ∀ rank t, Reads t (inner rank) (ReadsAs rank)) :
    Reads s (accessChain inner) fun e ws _ => e.Spells ws ∧ e.Grouped ∧ e.IsObject := by
  refine From.currentSpan_bind ?_
  refine From.bind (reads_primary hinner) fun e us u he _ => ?_
  refine reads_loop (I := fun e ws _ => e.Spells ws ∧ e.Grouped ∧ e.IsObject) (fun e ws t hI => ?_) e he
  obtain ⟨hI, hgrouped, hobject⟩ := hI
  refine From.peek_bind ?_
  split
  next h =>
    refine From.descend_bind fun _ => From.advance_bind h fun l u hl _ _ => ?_
    refine From.bind (reads_expressions hinner) fun es us v hes _ => ?_
    refine From.expect_bind fun r x hr _ => From.spanFrom_bind (From.pure fun hadv => ?_)
    rw [hadv.extent_eq (by simp)]
    refine ⟨⟨?_, ⟨hobject, hgrouped, hes.2⟩, Nat.le_refl _⟩, by simp⟩
    simpa using Expr.Spells.call hI hl hes.1 hr
  next h =>
    refine From.descend_bind fun _ => From.advance_bind h fun d u hd _ _ => ?_
    refine From.ident_bind fun name w v hname _ _ => From.spanFrom_bind (From.pure fun hadv => ?_)
    rw [hadv.extent_eq (by simp)]
    refine ⟨⟨?_, ⟨hobject, hgrouped⟩, Nat.le_refl _⟩, by simp⟩
    simpa using Expr.Spells.property hI hd hname
  next h =>
    refine From.descend_bind fun _ => From.advance_bind h fun l u hl _ _ => ?_
    refine From.bind (hinner .assignment u) fun f us v hf _ => ?_
    refine From.expect_bind fun r x hr _ => From.spanFrom_bind (From.pure fun hadv => ?_)
    rw [hadv.extent_eq (by simp)]
    refine ⟨⟨?_, ⟨hobject, hgrouped, hf.grouped⟩, Nat.le_refl _⟩, by simp⟩
    simpa using Expr.Spells.element hI hl hf.spells hr
  next => exact From.pure fun _ => ⟨hI, hgrouped, hobject⟩

theorem reads_unary (hinner : ∀ rank t, Reads t (inner rank) (ReadsAs rank)) :
    Reads s (unary inner) (ReadsAs .unary) := by
  refine From.currentSpan_bind (From.peek_bind ?_)
  split
  next op h =>
    obtain ⟨token, htok, hop⟩ := Option.bind_eq_some_iff.mp h
    refine From.advance_bind htok fun w u hw _ _ => ?_
    refine From.bind (hinner .unary u) fun e us v he _ => ?_
    refine From.spanFrom_bind (From.pure fun hadv => ?_)
    rw [hadv.extent_eq (by simp)]
    exact ⟨.unary (by rw [hw]; exact hop) he.spells, ⟨he.floor_le, he.grouped⟩, Nat.le_refl _, trivial⟩
  next =>
    split
    next htok =>
      refine From.advance_bind htok fun w u hw _ _ => ?_
      refine From.bind (hinner .unary u) fun e us v he _ => ?_
      refine From.spanFrom_bind (From.pure fun hadv => ?_)
      rw [hadv.extent_eq (by simp)]
      exact ⟨.typeOf hw he.spells, ⟨he.floor_le, he.grouped⟩, Nat.le_refl _, trivial⟩
    next =>
      refine From.last (reads_accessChain hinner) fun e us u he _ => ?_
      exact ⟨he.1, he.2.1, Nat.le_trans (by decide) he.2.2, trivial⟩

/-- The left operand read so far, which is at least as strong as the next operator. -/
structure LeftOperand (least : Nat) (e : Expr) (ws : List Lexeme) (t : State) : Prop where
  spells : e.Spells ws
  grouped : e.Grouped
  floor_le : min least 11 ≤ e.strength
  next_le : ∀ op, t.token?.bind BinaryOp.ofToken? = some op → op.precedence ≤ e.strength

theorem reads_binary (least : Nat) (hinner : ∀ rank t, Reads t (inner rank) (ReadsAs rank)) :
    Reads s (binary inner least) (ReadsAs (.binary least)) := by
  refine From.bind (reads_unary hinner) fun e us u he _ => ?_
  have hfirst : LeftOperand least e us u := by
    have hstrong : 11 ≤ e.strength := he.floor_le
    refine ⟨he.spells, he.grouped, Nat.le_trans (Nat.min_le_right _ _) hstrong, fun op _ => ?_⟩
    have := op.precedence_le
    omega
  refine reads_loop (I := LeftOperand least) (fun e ws t hI => ?_) e hfirst
  refine From.peek_bind ?_
  split
  next op h =>
    split
    next hlt =>
      refine From.pure fun _ => ⟨hI.spells, hI.grouped, hI.floor_le, fun op' h' => ?_⟩
      rw [h] at h'
      cases h'
      exact hlt
    next hle =>
      obtain ⟨token, htok, hop⟩ := Option.bind_eq_some_iff.mp h
      refine From.descend_bind fun _ => From.advance_bind htok fun w u hw _ _ => ?_
      refine From.bind (hinner _ u) fun f us v hf _ => From.pure fun _ => ⟨?_, by simp⟩
      have hsign : w.IsSign op.sign := hw.trans (sign_of_ofToken? hop)
      have hprec := op.precedence_le
      have hright : op.precedence < f.strength := by
        have := hf.floor_le
        simp only [Rank.floor] at this
        omega
      refine ⟨?_, ⟨hI.next_le op h, hright, hI.grouped, hf.grouped⟩, ?_, fun op' h' => ?_⟩
      · simpa using Expr.Spells.binary hI.spells hsign hf.spells
      · simp only [Expr.strength]
        omega
      · exact Nat.le_of_lt_succ (hf.stops op' h')
  next h =>
    refine From.pure fun _ => ⟨hI.spells, hI.grouped, hI.floor_le, fun op' h' => ?_⟩
    rw [h] at h'
    cases h'

theorem reads_conditional (hinner : ∀ rank t, Reads t (inner rank) (ReadsAs rank)) :
    Reads s (conditional inner) fun e ws _ => e.Spells ws ∧ e.Grouped := by
  refine From.bind (reads_binary 1 hinner) fun c us u hc _ => ?_
  refine From.eat_bind (fun q v hq _ => ?_) fun _ => From.pure fun _ => ⟨hc.spells, hc.grouped⟩
  refine From.bind (hinner .assignment v) fun e vs x he _ => ?_
  refine From.expect_bind fun r y hr _ => ?_
  refine From.bind (hinner .assignment y) fun f ys z hf _ => From.pure fun _ => ⟨?_, ?_⟩
  · simpa using Expr.Spells.conditional hc.spells hq he.spells hr hf.spells
  · exact ⟨hc.floor_le, hc.grouped, he.grouped, hf.grouped⟩

theorem reads_assignment (hinner : ∀ rank t, Reads t (inner rank) (ReadsAs rank)) :
    Reads s (assignment inner) (ReadsAs .assignment) := by
  refine From.bind (reads_conditional hinner) fun e us u he _ => From.peek_bind ?_
  split
  next op h =>
    split
    next htarget =>
      obtain ⟨token, htok, hop⟩ := Option.bind_eq_some_iff.mp h
      refine From.advance_bind htok fun w v hw _ _ => ?_
      refine From.bind (hinner .assignment v) fun f vs x hf _ => From.pure fun _ => ?_
      have hsign : w.IsSign op.sign := hw.trans (sign_of_assignOp hop)
      refine ⟨?_, ⟨htarget, he.2, hf.grouped⟩, Nat.zero_le _, trivial⟩
      simpa using Expr.Spells.assignment he.1 hsign hf.spells
    next => exact From.throw
  next => exact From.pure fun _ => ⟨he.1, he.2, Nat.zero_le _, trivial⟩

theorem reads_ofRank (rank : Rank) (hinner : ∀ rank t, Reads t (inner rank) (ReadsAs rank)) :
    Reads s (ofRank inner rank) (ReadsAs rank) :=
  match rank with
  | .assignment => reads_assignment hinner
  | .binary least => reads_binary least hinner
  | .unary => reads_unary hinner

end Expressions

/-- **An expression is derived from the lexemes it was read from, with its operators grouped well.** -/
theorem reads_expression (depth : Nat) :
    ∀ rank s, Reads s (expression depth rank) (ReadsAs rank) := by
  induction depth with
  | zero => exact fun rank s => From.fail
  | succ depth ih =>
    refine fun rank s => reads_nested (fun e ws u r h => ?_) fun r => reads_ofRank rank ih
    refine ⟨h.spells, h.grouped, h.floor_le, ?_⟩
    cases rank with
    | binary least => exact h.stops
    | _ => trivial

end Parse

end ScriptLint
