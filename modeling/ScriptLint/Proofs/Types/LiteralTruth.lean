import ScriptLint.Proofs.Number.Zero
import ScriptLint.Proofs.Token.Places
import ScriptLint.Proofs.Types.LogicalParts
import ScriptLint.Typing.CheckedScript
import ScriptLint.Parsing.Script
/-!
# Literals by their truth

A literal type has one value, so it belongs to the falsy part of a type or to
the truthy part, by that value. Which of the two is told from the text that
the type is shown as. This is right for all values that can be written, but
for one: zero with a sign is shown as `-0`, which is taken for the text of a
truthy value.

Key definitions: `Literal`, `Literal.isTruthy`, `Expr.Denotes`.
Key theorems: `Ty.Built.mem_falsyPart_iff`, `Ty.Built.mem_truthyPart_iff`,
`Literal.isFalsyLiteral_type`, `Literal.parts_by_truth`.
-/

namespace ScriptLint

/-! ### Values that can be written -/

/-- The value is that of a number in some text. -/
def Binary64.IsNumeral (x : Binary64) : Prop :=
  ∃ text w, Except.ok w ∈ scan text ∧ w.token = .number x

/-- A value that has a type of its own. -/
inductive Literal where
  | truth (value : Bool)
  | number (value : Binary64)
  | text (value : String)
  deriving DecidableEq, Repr

namespace Literal

/-- The type of the value. -/
def type : Literal → Ty
  | .truth value => .booleanLiteral value
  | .number value => .numberLiteral value
  | .text value => .stringLiteral value

/-- The value counts as true where a condition is expected: all values do but `false`, zero of
either sign, NaN and the empty string. -/
def isTruthy : Literal → Bool
  | .truth value => value
  | .number value => !value.isZero && value != .nan
  | .text value => value != ""

/-- The value is zero with a sign. -/
def isMinusZero : Literal → Bool
  | .number value => value.isMinusZero
  | _ => false

end Literal

/-- The expression is nothing but the value: a truth value, a string, a number, or a number with
a minus in front. -/
inductive Expr.Denotes : Expr → Literal → Prop where
  | truth (value : Bool) (span : Span) : Denotes (.boolean value span) (.truth value)
  | text (value : String) (span : Span) : Denotes (.string value span) (.text value)
  | numeral {value : Binary64} (span : Span) : value.IsNumeral →
    Denotes (.number value span) (.number value)
  | negated {value : Binary64} (inner span : Span) : value.IsNumeral →
    Denotes (.unary .negative (.number value inner) span) (.number value.negate)

/-- Such an expression has the type of the value. -/
theorem Expr.Denotes.infer {e : Expr} {value : Literal} (h : e.Denotes value) (s : Typing.State) :
    Check.infer e s = (some value.type, s) := by
  cases h <;> rfl

/-! ### Numbers in a text -/

/-- What is scanned as a token is a token. -/
theorem Munch.piece_of_scanned? {offset : Nat} {m : Munch} {w : Lexeme}
    (h : m.scanned? offset = some (.ok w)) : m.piece = .token w.token := by
  unfold scanned? at h
  split at h
  next => cases h
  next token heq =>
    cases h
    exact heq
  next => cases h

theorem munchNumber_ne_nan {digit : Char} {cs : List Char} (hdigit : digit.isDigit = true)
    {x : Binary64} (h : (munchNumber digit cs).piece = .token (.number x)) : x ≠ .nan := by
  have hkept : digit ≠ '_' := by
    rintro rfl
    exact absurd hdigit (by decide)
  unfold munchNumber at h
  simp only at h
  split at h
  next value hvalue =>
    cases h
    rw [List.filter_cons_of_pos (by simpa using hkept)] at hvalue
    exact Binary64.parse?_ne_nan hdigit hvalue
  next => cases h

/-- A piece of a text that is a number is no NaN. -/
theorem munch_ne_nan {c : Char} {cs : List Char} {x : Binary64}
    (h : (munch c cs).piece = .token (.number x)) : x ≠ .nan := by
  unfold munch at h
  split at h
  · cases h
  split at h
  · cases h
  split at h
  · unfold munchComment at h
    split at h <;> cases h
  split at h
  · unfold munchString at h
    simp only at h
    split at h <;> cases h
  split at h
  next hdigit => exact munchNumber_ne_nan hdigit h
  next =>
    split at h
    · unfold Token.ofWord at h
      simp only at h
      split at h <;> cases h
    · split at h <;> cases h

theorem scanFrom_ne_nan (cs : List Char) : ∀ offset w x, Except.ok w ∈ scanFrom offset cs →
    w.token = .number x → x ≠ .nan := by
  induction cs using munch_induction with
  | nil => simp [scanFrom]
  | cons c cs ih =>
    intro offset w x hw hx
    rw [scanFrom_cons, List.mem_append, Option.mem_toList] at hw
    rcases hw with hw | hw
    · have hpiece : (munch c cs).piece = .token w.token := Munch.piece_of_scanned? hw
      rw [hx] at hpiece
      exact munch_ne_nan hpiece
    · exact ih _ w x hw hx

theorem Binary64.IsNumeral.ne_nan {x : Binary64} (h : x.IsNumeral) : x ≠ .nan := by
  obtain ⟨text, w, hw, hx⟩ := h
  exact scanFrom_ne_nan text.toList 0 w x hw hx

theorem Binary64.isNumeral_zero : zero.IsNumeral := by
  have hpiece : (munch '0' []).piece = .token (.number zero) := by decide +kernel
  have hscanned : ∃ w : Lexeme,
      (munch '0' []).scanned? 0 = some (.ok w) ∧ w.token = .number zero := by
    rw [Munch.scanned?, hpiece]
    exact ⟨_, rfl, rfl⟩
  obtain ⟨w, hw, htoken⟩ := hscanned
  refine ⟨"0", w, ?_, htoken⟩
  show Except.ok w ∈ scanFrom 0 ['0']
  rw [scanFrom_cons, hw]
  exact List.mem_append_left _ (List.mem_singleton_self _)

theorem Binary64.negate_ne_nan {x : Binary64} (h : x ≠ .nan) : x.negate ≠ .nan := by
  cases x with
  | nan => exact absurd rfl h
  | infinite negative => simp [negate]
  | finite negative mantissa exponent => simp [negate]

theorem Expr.Denotes.ne_nan {e : Expr} {value : Literal} (h : e.Denotes value) :
    value ≠ .number .nan := by
  cases h with
  | truth value span => simp
  | text value span => simp
  | numeral span hx => simpa using hx.ne_nan
  | negated inner span hx => simpa using Binary64.negate_ne_nan hx.ne_nan

/-! ### Literals by their text -/

theorem Ty.isFalsyLiteral_iff (t : Ty) : t.isFalsyLiteral = true ↔
    t.display = "0" ∨ t.display = "false" ∨ t.display = "\"\"" := by
  simp [Ty.isFalsyLiteral, or_left_comm]

/-- Of the numbers only zero without a sign is shown as a falsy value. -/
theorem Ty.isFalsyLiteral_numberLiteral (x : Binary64) :
    (Ty.numberLiteral x).isFalsyLiteral = true ↔ x.isZero = true ∧ x.isMinusZero = false := by
  have hdisplay : (Ty.numberLiteral x).display = x.render := by
    rw [Ty.numberLiteral, Ty.display]
  rw [Ty.isFalsyLiteral_iff, hdisplay, ← Binary64.render_eq_zero_iff]
  refine ⟨fun h => h.resolve_right fun hother => ?_, .inl⟩
  obtain ⟨c, hc, hnot⟩ := x.head?_render
  rcases hother with heq | heq
  · rw [heq, show "false".toList.head? = some 'f' by decide] at hc
    exact hnot (by simp [← Option.some.inj hc])
  · rw [heq, show "\"\"".toList.head? = some '"' by decide] at hc
    exact hnot (by simp [← Option.some.inj hc])

/-- Of the strings only the empty one is. -/
theorem Ty.isFalsyLiteral_stringLiteral (value : String) :
    (Ty.stringLiteral value).isFalsyLiteral = true ↔ value = "" := by
  have hdisplay : (Ty.stringLiteral value).display = "\"" ++ value ++ "\"" := by
    rw [Ty.stringLiteral, Ty.display]
  have hlist : ("\"" ++ value ++ "\"").toList = '"' :: (value.toList ++ ['"']) := by
    simp [String.toList_append]
  rw [Ty.isFalsyLiteral_iff, hdisplay]
  constructor
  · rintro (heq | heq | heq)
    · rw [heq] at hlist
      exact absurd (List.cons.inj hlist).1 (by decide)
    · rw [heq] at hlist
      exact absurd (List.cons.inj hlist).1 (by decide)
    · rw [heq] at hlist
      have hclose : ['"'] = value.toList ++ ['"'] := (List.cons.inj hlist).2
      have hempty : value.toList = [] := by simpa using hclose
      exact String.toList_eq_nil_iff.mp hempty
  · rintro rfl
    exact .inr (.inr rfl)

/-- **Which literals are shown as a falsy value:** those of falsy values, but for zero with a
sign. -/
theorem Literal.isFalsyLiteral_type {value : Literal} (h : value ≠ .number .nan) :
    value.type.isFalsyLiteral = true ↔ value.isTruthy = false ∧ value.isMinusZero = false := by
  cases value with
  | truth value => cases value <;> decide
  | number x =>
    have hnan : x ≠ .nan := fun heq => h (heq ▸ rfl)
    rw [type, Ty.isFalsyLiteral_numberLiteral]
    simp [isTruthy, isMinusZero, hnan]
  | text value =>
    rw [type, Ty.isFalsyLiteral_stringLiteral]
    simp [isTruthy, isMinusZero]

namespace Ty

variable {t m n : Ty}

/-! ### Literals in the parts of a type -/

/-- What is left of the members makes up the members of the part, unless it covers the truth
values. -/
theorem Built.mem_members_join_map (h : t.Built) {f : Ty → Ty}
    (hatom : ∀ m : Ty, m.Atom → (f m).Atom) (hany : ∀ n ∈ t.members, f n ≠ Ty.any)
    (hcovers : ¬Covers (t.members.map f)) (hm : m ≠ Ty.never) :
    m ∈ (Ty.join (t.members.map f)).members ↔ ∃ n ∈ t.members, f n = m := by
  have hatoms : ∀ x ∈ t.members.map f, x.Atom := by
    intro x hx
    obtain ⟨n, hn, rfl⟩ := List.mem_map.mp hx
    exact hatom n (h.atom_of_mem n hn)
  have hbuilt : ∀ x ∈ t.members.map f, x.Built := fun x hx => (hatoms x hx).built
  have hflat : (t.members.map f).flatMap Ty.members = t.members.map f :=
    flatMap_members_eq_self fun x hx => (hatoms x hx).isUnion_eq_false
  have hnone : ∀ x ∈ t.members.map f, x.isAny = false := by
    intro x hx
    refine (hbuilt x hx).isAny_eq_false ?_
    obtain ⟨n, hn, rfl⟩ := List.mem_map.mp hx
    exact hany n hn
  have hleft : ∀ x : Ty, x ≠ Ty.never → x ∈ (Ty.join (t.members.map f)).members →
      x ∈ t.members.map f := by
    intro x hx hmem
    rcases mem_of_mem_members_join hbuilt hnone hmem with heq | hmem | ⟨-, hboth⟩
    · exact absurd heq hx
    · rwa [hflat] at hmem
    · rw [hflat] at hboth
      exact absurd (.inr ⟨hboth true, hboth false⟩) hcovers
  rw [← List.mem_map]
  refine ⟨hleft m hm, fun hmem => ?_⟩
  have hself : m ∈ m.members := by
    rw [(hatoms m hmem).members]
    exact List.mem_singleton_self m
  rcases mem_members_join_of_mem hbuilt hnone hmem hself with heq | hfound | ⟨-, hboolean⟩
  · exact absurd heq hm
  · exact hfound
  · exact absurd (.inl (hleft Ty.boolean (by decide) hboolean)) hcovers

/-- A literal is none of the basic types. -/
theorem not_mem_basics_of_literal (h : m.flags.intersects Flags.literal = true) : m ∉ basics := by
  have hbasic : ∀ b ∈ basics, b.flags.intersects Flags.literal = false := by decide
  intro hmem
  rw [hbasic m hmem] at h
  cases h

/-- The falsy part leaves nothing but falsy types. -/
theorem Atom.falsyMember_mem (h : t.Atom) :
    t.falsyMember ∈ basics ∧ t.falsyMember ≠ Ty.boolean ∨ t.falsyMember.isFalsyLiteral = true := by
  have hfew : ∀ x ∈ Ty.never :: ([Ty.any, Ty.unknown] ++ absentTypes),
      x ∈ basics ∧ x ≠ Ty.boolean := by decide
  have hthree : ∀ x ∈ falsyLiterals, x.isFalsyLiteral = true := by decide
  rcases h.falsyMember_cases with ⟨heq, hkept⟩ | ⟨heq, -⟩ | ⟨hmem, -⟩
  · rw [heq]
    rcases hkept with htop | habsent | hfalsy
    · exact .inl (hfew t (List.mem_cons_of_mem _ (List.mem_append_left _ htop)))
    · exact .inl (hfew t (List.mem_cons_of_mem _ (List.mem_append_right _ habsent)))
    · exact .inr hfalsy
  · rw [heq]
    exact .inl (by decide)
  · exact .inr (hthree _ hmem)

/-- The truthy part leaves neither a falsy literal nor `boolean`. -/
theorem Atom.truthyMember_mem (h : t.Atom) :
    t.truthyMember ≠ Ty.boolean ∧ t.truthyMember.isFalsyLiteral = false := by
  rcases h.truthyMember_cases with ⟨heq, -, htruthy⟩ | ⟨heq, -⟩ | ⟨heq, -⟩
  · rw [heq]
    refine ⟨?_, htruthy⟩
    rintro rfl
    exact absurd heq (by decide)
  · rw [heq]
    decide
  · rw [heq]
    decide

/-- A type with a literal as a member is not `any`. -/
theorem Built.any_not_mem_of_literal (h : t.Built) (hm : m ∈ t.members)
    (hliteral : m.flags.intersects Flags.literal = true) : Ty.any ∉ t.members := by
  intro hany
  rw [h.eq_any_of_mem hany, members_of_isUnion_eq_false rfl, List.mem_singleton] at hm
  exact not_mem_basics_of_literal hliteral (by simp [hm, basics])

/-- **A literal of a type is in its falsy part if it is shown as a falsy value.** -/
theorem Built.mem_falsyPart_iff (h : t.Built) (hm : m ∈ t.members)
    (hliteral : m.flags.intersects Flags.literal = true) :
    m ∈ t.falsyPart.members ↔ m.isFalsyLiteral = true := by
  have hbasic := not_mem_basics_of_literal hliteral
  have hnever : m ≠ Ty.never := fun heq => hbasic (by simp [heq, basics])
  have hany : ∀ n ∈ t.members, n.falsyMember ≠ Ty.any := by
    intro n hn heq
    have hself := (h.atom_of_mem n hn).eq_any_of_falsyMember heq
    exact h.any_not_mem_of_literal hm hliteral (hself ▸ hn)
  have hcovers : ¬Covers (t.members.map Ty.falsyMember) := by
    rintro (hboolean | ⟨htrue, -⟩)
    · obtain ⟨n, hn, heq⟩ := List.mem_map.mp hboolean
      have hleft := (h.atom_of_mem n hn).falsyMember_mem
      rw [heq] at hleft
      exact absurd hleft (by decide)
    · obtain ⟨n, hn, heq⟩ := List.mem_map.mp htrue
      have hleft := (h.atom_of_mem n hn).falsyMember_mem
      rw [heq] at hleft
      exact absurd hleft (by decide)
  rw [Ty.falsyPart, h.mem_members_join_map (fun _ hx => hx.falsyMember) hany hcovers hnever]
  constructor
  · rintro ⟨n, hn, heq⟩
    have hleft := (h.atom_of_mem n hn).falsyMember_mem
    rw [heq] at hleft
    exact hleft.resolve_left fun hmem => hbasic hmem.1
  · intro hfalsy
    refine ⟨m, hm, ?_⟩
    rcases (h.atom_of_mem m hm).falsyMember_cases with ⟨hkept, -⟩ | ⟨-, -, hnot⟩ | ⟨hmem, hbase⟩
    · exact hkept
    · rw [hnot] at hfalsy
      cases hfalsy
    · -- the member would be a primitive
      have hthree : ∀ x ∈ falsyLiterals, x.base ∈ basics := by decide
      exact absurd (hbase ▸ hthree _ hmem) hbasic

/-- **It is in the truthy part otherwise.** -/
theorem Built.mem_truthyPart_iff (h : t.Built) (hm : m ∈ t.members)
    (hliteral : m.flags.intersects Flags.literal = true) :
    m ∈ t.truthyPart.members ↔ m.isFalsyLiteral = false := by
  have hbasic := not_mem_basics_of_literal hliteral
  have hnever : m ≠ Ty.never := fun heq => hbasic (by simp [heq, basics])
  have hany : ∀ n ∈ t.members, n.truthyMember ≠ Ty.any := by
    intro n hn heq
    have hself := (h.atom_of_mem n hn).eq_any_of_truthyMember heq
    exact h.any_not_mem_of_literal hm hliteral (hself ▸ hn)
  have hcovers : ¬Covers (t.members.map Ty.truthyMember) := by
    rintro (hboolean | ⟨-, hfalse⟩)
    · obtain ⟨n, hn, heq⟩ := List.mem_map.mp hboolean
      exact (h.atom_of_mem n hn).truthyMember_mem.1 heq
    · obtain ⟨n, hn, heq⟩ := List.mem_map.mp hfalse
      have hleft := (h.atom_of_mem n hn).truthyMember_mem.2
      rw [heq] at hleft
      exact absurd hleft (by decide)
  rw [Ty.truthyPart, h.mem_members_join_map (fun _ hx => hx.truthyMember) hany hcovers hnever]
  constructor
  · rintro ⟨n, hn, rfl⟩
    exact (h.atom_of_mem n hn).truthyMember_mem.2
  · intro htruthy
    refine ⟨m, hm, ?_⟩
    rcases (h.atom_of_mem m hm).truthyMember_cases with ⟨hkept, -⟩ | ⟨-, hfalsy⟩ | ⟨-, heq⟩
    · exact hkept
    · rcases hfalsy with habsent | hfalsy
      · have hthree : ∀ x ∈ absentTypes, x ∈ basics := by decide
        exact absurd (hthree m habsent) hbasic
      · rw [htruthy] at hfalsy
        cases hfalsy
    · exact absurd (by simp [heq, basics]) hbasic

end Ty

/-! ### Literals by their truth -/

theorem Literal.intersects_literal (value : Literal) :
    value.type.flags.intersects Flags.literal = true := by
  have hthree : ∀ flags ∈ [Flags.booleanLiteral, Flags.numberLiteral, Flags.stringLiteral],
      flags.intersects Flags.literal = true := by decide
  cases value with
  | truth value => exact hthree Flags.booleanLiteral (by simp)
  | number value => exact hthree Flags.numberLiteral (by simp)
  | text value => exact hthree Flags.stringLiteral (by simp)

/-- **The literals of a type are in the part that their truth puts them in,** but for zero with a
sign, which is in the truthy part. -/
theorem Literal.parts_by_truth {t : Ty} (ht : t.Built) {e : Expr} {value : Literal}
    (he : e.Denotes value) (hmem : value.type ∈ t.members) :
    (∀ s, Check.infer e s = (some value.type, s)) ∧
    (value.isMinusZero = false →
      (value.type ∈ t.falsyPart.members ↔ value.isTruthy = false) ∧
      (value.type ∈ t.truthyPart.members ↔ value.isTruthy = true)) ∧
    (value.isMinusZero = true →
      value.type ∉ t.falsyPart.members ∧ value.type ∈ t.truthyPart.members) := by
  have hliteral := value.intersects_literal
  have hshown := isFalsyLiteral_type he.ne_nan
  rw [ht.mem_falsyPart_iff hmem hliteral, ht.mem_truthyPart_iff hmem hliteral]
  refine ⟨he.infer, fun hminus => ?_, fun hminus => ?_⟩
  · rw [hminus, and_iff_left rfl] at hshown
    refine ⟨hshown, ?_⟩
    rw [← Bool.not_eq_true, hshown, Bool.not_eq_false]
  · have hnot : ¬value.type.isFalsyLiteral = true := by
      rw [hshown, hminus]
      exact fun h => absurd h.2 (by decide)
    exact ⟨hnot, Bool.eq_false_iff.mpr hnot⟩

/-- In `"" | -0 | true` the empty string is falsy and `true` is truthy, as they should be, and `-0`
is truthy. -/
theorem Literal.parts_by_truth_union :
    Ty.stringLiteral "" ∈ (Ty.join [.stringLiteral "", .numberLiteral Binary64.zero.negate,
      .booleanLiteral true]).falsyPart.members ∧
    Ty.booleanLiteral true ∈ (Ty.join [.stringLiteral "", .numberLiteral Binary64.zero.negate,
      .booleanLiteral true]).truthyPart.members ∧
    Ty.numberLiteral Binary64.zero.negate ∈ (Ty.join [.stringLiteral "",
      .numberLiteral Binary64.zero.negate, .booleanLiteral true]).truthyPart.members := by
  have hmembers : (Ty.join [.stringLiteral "", .numberLiteral Binary64.zero.negate,
      .booleanLiteral true]).members = [.stringLiteral "", .numberLiteral Binary64.zero.negate,
      .booleanLiteral true] := by decide
  have ht : (Ty.join [.stringLiteral "", .numberLiteral Binary64.zero.negate,
      .booleanLiteral true]).Built := .join (by
    simp [Ty.Built.stringLiteral, Ty.Built.numberLiteral, Ty.Built.booleanLiteral])
  obtain ⟨-, hempty, -⟩ := parts_by_truth ht (.text "" ⟨0, 2⟩) (by simp [hmembers, type])
  obtain ⟨-, htrue, -⟩ := parts_by_truth ht (.truth true ⟨0, 4⟩) (by simp [hmembers, type])
  obtain ⟨-, -, hminus⟩ := parts_by_truth ht (.negated ⟨1, 1⟩ ⟨0, 2⟩ Binary64.isNumeral_zero)
    (by simp [hmembers, type])
  exact ⟨(hempty rfl).1.mpr (by decide), (htrue rfl).2.mpr (by decide), (hminus (by decide)).2⟩

/-- Zero with a sign is falsy, but `-0` is left out of its falsy part and kept in its truthy part;
so `-0 || "a"` has the type `-0 | "a"`, and not the type of its only value, `"a"`. -/
theorem Literal.minusZero_taken_for_truthy :
    ∃ (e : Expr) (value : Literal), e.Denotes value ∧ value.isTruthy = false ∧ value.type.Built ∧
      value.type ∈ value.type.members ∧ value.type ∉ value.type.falsyPart.members ∧
      value.type ∈ value.type.truthyPart.members ∧
      (Script.recover "main.ts" "const x = -0 || \"a\";").1.check.types
        = [(6, .union [value.type, .stringLiteral "a"])] := by
  refine ⟨_, _, .negated ⟨1, 1⟩ ⟨0, 2⟩ Binary64.isNumeral_zero, by decide, .numberLiteral _, ?_⟩
  decide +kernel

end ScriptLint
