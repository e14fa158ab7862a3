import Mathlib.Algebra.Group.Nat.Defs
import ScriptLint.Proofs.Types.Members
/-!
# Normal forms of types

A type in normal form carries one flag. It has members if and only if it is
a union, and then two or more, all different; none of them is a union, `any`
or `never`, and no two of them are truth values that `boolean` stands for.
The same holds of whatever occurs in the type, as a member or as an element.
Whatever is done to types in normal form ends in normal form, and a type in
normal form is the union of its members.

Key definitions: `Ty.OccursIn`, `Ty.Tidy`, `Ty.Normal`, `Ty.Derived`.
Key theorems: `Ty.Built.normal`, `Ty.Derived.built`, `Ty.Tidy.join_members`.
-/

namespace ScriptLint

namespace Ty

variable {t x m : Ty} {ts : List Ty}

/-! ### Parts of a type -/

/-- The type `x` is `t` itself, or it occurs in a member or in the element of `t`. -/
inductive OccursIn (x : Ty) : Ty → Prop where
  | self : OccursIn x x
  | element {t : Ty} : OccursIn x t → OccursIn x (.array t)
  | member {m : Ty} {ms : List Ty} : m ∈ ms → OccursIn x m → OccursIn x (.union ms)

/-- What occurs in a member occurs in the type. -/
theorem OccursIn.of_mem_members (h : x.OccursIn m) (hm : m ∈ t.members) : x.OccursIn t := by
  cases t with
  | union ms =>
    rw [members_union] at hm
    exact .member hm h
  | array e =>
    have harray : (Ty.array e).isUnion = false := Ty.isUnion_eq_false (by simp [flags, simpleFlags])
    rw [members_of_isUnion_eq_false harray, List.mem_singleton] at hm
    rwa [← hm]
  | plain flags display =>
    unfold members at hm
    split at hm
    · cases hm
    · rw [List.mem_singleton] at hm
      rwa [← hm]

/-- Whatever occurs in a type that is built up is built up. -/
theorem Built.of_occursIn (h : t.Built) (hx : x.OccursIn t) : x.Built := by
  induction hx with
  | self => exact h
  | element _ ih => exact ih (h.element rfl)
  | @member m ms hm _ ih =>
    rw [← members_union ms] at hm
    exact ih (h.simple_of_mem m hm).built

/-! ### Normal forms -/

/-- What holds of a type in normal form itself, whatever its members and its element are. The
flags of `any` and of `never` belong to these two types only. -/
structure Tidy (t : Ty) : Prop where
  oneFlag : ∃ i, t.flags.bits.toNat = 2 ^ i
  parts : t.parts ≠ [] ↔ t.isUnion = true
  two : t.isUnion = true → 2 ≤ t.parts.length
  nodup : t.parts.Nodup
  atoms : ∀ m ∈ t.parts,
    m.isUnion = false ∧ m.isAny = false ∧ m.flags.contains Flags.never = false
  literals : ¬(booleanLiteral true ∈ t.parts ∧ booleanLiteral false ∈ t.parts)
  boolean : Ty.boolean ∈ t.parts →
    ∀ m ∈ t.parts, m.flags.contains Flags.booleanLiteral = false
  display : t.isUnion = true → t.display = " | ".intercalate (t.parts.map Ty.display)
  any : t.isAny = true → t = Ty.any
  never : t.flags.contains Flags.never = true → t = Ty.never

/-- The type is in normal form, and so is whatever occurs in it. -/
def Normal (t : Ty) : Prop :=
  ∀ x : Ty, x.OccursIn t → x.Tidy

theorem displays_eq_map (ts : List Ty) : displays ts = ts.map display := by
  induction ts with
  | nil => rfl
  | cons t ts ih => rw [displays, ih, List.map_cons]

theorem Atom.parts (h : t.Atom) : t.parts = [] := by
  have hbasic : ∀ b ∈ basics, b.parts = [] := by decide
  cases h with
  | basic ht => exact hbasic t ht
  | _ => rfl

theorem Atom.tidy (h : t.Atom) : t.Tidy := by
  have hflag : ∀ flags ∈ simpleFlags, ∃ i < 32, flags.bits.toNat = 2 ^ i := by decide
  obtain ⟨i, -, hi⟩ := hflag _ h.flags_mem
  have hunion := h.isUnion_eq_false
  refine ⟨⟨i, hi⟩, ?_, ?_, ?_, ?_, ?_, ?_, ?_, h.eq_any, h.eq_never⟩
  all_goals simp [h.parts, hunion]

/-- No member of a union is `any`, since `any` absorbs all others. -/
theorem Built.eq_any_of_mem (h : t.Built) : Ty.any ∈ t.members → t = Ty.any := by
  refine h.induction_join (fun a ha hmem => ?_) fun ts hts ih hmem => ?_
  · rw [ha.members, List.mem_singleton] at hmem
    exact hmem.symm
  · rcases join_cases ts with heq | ⟨hany, -⟩
    · exact heq
    · rcases mem_of_mem_members_join hts hany hmem with heq | hmem | ⟨heq, -⟩
      · exact absurd heq (by decide)
      · obtain ⟨t, ht, hmt⟩ := List.mem_flatMap.mp hmem
        obtain rfl := ih t ht hmt
        exact absurd (hany _ ht) (by decide)
      · exact absurd heq (by decide)

/-- Two or more joined members are a union in normal form. -/
theorem tidy_union_joined (hts : ∀ t ∈ ts, t.Built) (hany : ∀ t ∈ ts, t.isAny = false)
    (htwo : 2 ≤ (joined ts).length) : (Ty.union (joined ts)).Tidy := by
  have hunion := isUnion_union (joined ts)
  have hne : joined ts ≠ [] := by
    rintro hnil
    simp [hnil] at htwo
  -- where the truth values are covered, no literal is left
  have hcovered : ∀ value, booleanLiteral value ∈ joined ts → ¬Covers (ts.flatMap members) := by
    intro value hvalue hcovers
    rcases mem_joined.mp hvalue with ⟨heq, -⟩ | ⟨-, -, hnot⟩
    · cases value <;> exact absurd heq (by decide)
    · exact hnot ⟨by cases value <;> decide, hcovers⟩
  have hflag : Flags.union.bits.toNat = 2 ^ 20 := by decide
  refine ⟨⟨20, hflag⟩, iff_of_true hne hunion, fun _ => htwo, nodup_joined ts, ?_, ?_, ?_, ?_,
    ?_, ?_⟩
  · intro m hm
    refine ⟨(atom_of_mem_joined hts hm).isUnion_eq_false, Bool.eq_false_iff.mpr fun hmany => ?_, ?_⟩
    · obtain rfl := (atom_of_mem_joined hts hm).eq_any hmany
      rcases mem_joined.mp hm with ⟨heq, -⟩ | ⟨hflat, -⟩
      · exact absurd heq (by decide)
      · obtain ⟨t, ht, hmt⟩ := List.mem_flatMap.mp hflat
        obtain rfl := (hts t ht).eq_any_of_mem hmt
        exact absurd (hany _ ht) (by decide)
    · rcases mem_joined.mp hm with ⟨rfl, -⟩ | ⟨-, hnever, -⟩
      · decide
      · exact hnever
  · rintro ⟨htrue, hfalse⟩
    have hflat : ∀ value, booleanLiteral value ∈ joined ts →
        booleanLiteral value ∈ ts.flatMap members := by
      intro value hvalue
      rcases mem_joined.mp hvalue with ⟨heq, -⟩ | ⟨hflat, -⟩
      · cases value <;> exact absurd heq (by decide)
      · exact hflat
    exact hcovered true htrue (.inr ⟨hflat true htrue, hflat false hfalse⟩)
  · intro hboolean m hm
    have hcovers : Covers (ts.flatMap members) := by
      rcases mem_joined.mp hboolean with ⟨-, hcovers⟩ | ⟨hflat, -⟩
      · exact hcovers
      · exact .inl hflat
    refine Bool.eq_false_iff.mpr fun hliteral => ?_
    obtain ⟨value, rfl⟩ := (atom_of_mem_joined hts hm).eq_booleanLiteral hliteral
    exact hcovered value hm hcovers
  · intro _
    rw [display, displays_eq_map]
    rfl
  · exact fun h => absurd h (by show ¬Flags.union.intersects Flags.any = true; decide)
  · exact fun h => absurd h (by show ¬Flags.union.contains Flags.never = true; decide)

theorem Built.tidy (h : t.Built) : t.Tidy := by
  refine h.induction_join (fun a ha => ha.tidy) fun ts hts _ => ?_
  rcases join_eq_union_or_atom hts with hatom | ⟨hany, htwo, heq⟩
  · exact hatom.tidy
  · rw [heq]
    exact tidy_union_joined hts hany htwo

/-- **All types that are built up are in normal form.** -/
theorem Built.normal (h : t.Built) : t.Normal :=
  fun _ hx => (h.of_occursIn hx).tidy

/-! ### The union of the members -/

/-- Atoms that are all different, and of which none is to be collapsed, are their own union. -/
theorem joined_eq_self (hatoms : ∀ m ∈ ts, m.isUnion = false ∧ m.flags.contains Flags.never = false)
    (hnodup : ts.Nodup) (hliterals : ¬(booleanLiteral true ∈ ts ∧ booleanLiteral false ∈ ts))
    (hboolean : boolean ∈ ts → ∀ m ∈ ts, m.flags.contains Flags.booleanLiteral = false) :
    joined ts = ts := by
  have hflat : ts.flatMap members = ts := flatMap_members_eq_self fun m hm => (hatoms m hm).1
  have hkept : ts.filter (!·.flags.contains Flags.never) = ts := by
    rw [List.filter_eq_self]
    intro m hm
    rw [(hatoms m hm).2]
    rfl
  rw [joined, hflat, hkept, distinct_of_nodup hnodup, collapseBooleans]
  by_cases hmem : boolean ∈ ts
  · rw [if_pos hmem, List.filter_eq_self]
    intro m hm
    rw [hboolean hmem m hm]
    rfl
  · rw [if_neg hmem, if_neg hliterals]

/-- **A type in normal form is the union of its members.** -/
theorem Tidy.join_members (h : t.Tidy) : join t.members = t := by
  by_cases hunion : t.isUnion = true
  · -- the members are there, so the type is a list of members and no plain type
    obtain ⟨ms, rfl⟩ : ∃ ms, t = .union ms := by
      cases t with
      | union ms => exact ⟨ms, rfl⟩
      | array _ => exact absurd rfl (h.parts.mpr hunion)
      | plain _ _ => exact absurd rfl (h.parts.mpr hunion)
    have hself : joined ms = ms := joined_eq_self
      (fun m hm => ⟨(h.atoms m hm).1, (h.atoms m hm).2.2⟩) h.nodup h.literals h.boolean
    have hany : ∀ m ∈ ms, m.isAny = false := fun m hm => (h.atoms m hm).2.1
    rw [members_union, join_of_not_any hany, hself]
    match ms, h.two hunion with
    | _ :: _ :: _, _ => rfl
  · have hsingle : t.isUnion = false := Bool.eq_false_iff.mpr hunion
    rw [members_of_isUnion_eq_false hsingle]
    by_cases hany : t.isAny = true
    · rw [join_of_any ⟨t, List.mem_singleton_self t, hany⟩, h.any hany]
    · by_cases hnever : t.flags.contains Flags.never = true
      · rw [h.never hnever]
        decide
      · have hself : joined [t] = [t] := by
          refine joined_eq_self ?_ (by simp) ?_ ?_
          · intro m hm
            rw [List.mem_singleton.mp hm]
            exact ⟨hsingle, Bool.eq_false_iff.mpr hnever⟩
          · simp only [List.mem_singleton]
            rintro ⟨rfl, heq⟩
            exact absurd heq (by decide)
          · simp only [List.mem_singleton]
            rintro rfl m rfl
            decide
        have hnone : ∀ m ∈ [t], m.isAny = false := by
          intro m hm
          rw [List.mem_singleton.mp hm]
          exact Bool.eq_false_iff.mpr hany
        rw [join_of_not_any hnone, hself]
        rfl

/-! ### Derived types -/

/-- A type made from basic types, literals and objects by whatever the checker does to types. -/
inductive Derived : Ty → Prop where
  | basic {t : Ty} : t ∈ basics → Derived t
  | booleanLiteral (value : Bool) : Derived (booleanLiteral value)
  | numberLiteral (value : Binary64) : Derived (numberLiteral value)
  | stringLiteral (value : String) : Derived (stringLiteral value)
  | object (name : String) : Derived (object name)
  | array {t : Ty} : Derived t → Derived (.array t)
  | join {ts : List Ty} : (∀ t ∈ ts, Derived t) → Derived (join ts)
  | widened {t : Ty} : Derived t → Derived t.widened
  | nonNullable {t : Ty} : Derived t → Derived t.nonNullable
  | falsyPart {t : Ty} : Derived t → Derived t.falsyPart
  | truthyPart {t : Ty} : Derived t → Derived t.truthyPart

/-- Arrays and unions are enough to make them. -/
theorem Derived.built (h : t.Derived) : t.Built := by
  induction h with
  | basic ht => exact .basic ht
  | booleanLiteral value => exact .booleanLiteral value
  | numberLiteral value => exact .numberLiteral value
  | stringLiteral value => exact .stringLiteral value
  | object name => exact .object name
  | array _ ih => exact .array ih
  | join _ ih => exact .join ih
  | widened _ ih => exact ih.widened
  | nonNullable _ ih => exact ih.nonNullable
  | falsyPart _ ih => exact ih.falsyPart
  | truthyPart _ ih => exact ih.truthyPart

end Ty

end ScriptLint
