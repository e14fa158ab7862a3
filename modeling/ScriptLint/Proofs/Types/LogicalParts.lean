import ScriptLint.Proofs.Types.UnionLaws
import ScriptLint.Types.Truthiness
/-!
# Parts of the left operand

A logical operator keeps a part of the type of its left operand: `&&` the
falsy part, `||` the truthy part, and `??` what is neither `null` nor
`undefined`. Each part is the union of what is left of each member, and it
fits into the type. Nothing is lost: of each member the falsy part or the
truthy part keeps the whole, but for `boolean`, of which each keeps one
literal, and these two make up `boolean` again.

Key theorems: `Ty.Atom.falsyMember_cases`, `Ty.Atom.truthyMember_cases`,
`Ty.Atom.kept_or_boolean`, `Ty.logical_parts`.
-/

namespace ScriptLint

namespace Ty

variable {t m n : Ty} {xs : List Ty}

/-! ### What is left of one member -/

/-- The literals of the falsy values. -/
def falsyLiterals : List Ty :=
  [booleanLiteral false, numberLiteral Binary64.zero, stringLiteral ""]

/-- The types whose only values are falsy and that are no literals. -/
def absentTypes : List Ty :=
  [null, undefined, void]

/-- An atom with the flags of one of some basic types is one of them. -/
theorem Atom.mem_of_flags_mem (h : t.Atom) {bs : List Ty} (hbs : bs ⊆ basics)
    (hflags : t.flags ∈ bs.map flags) : t ∈ bs := by
  obtain ⟨b, hb, heq⟩ := List.mem_map.mp hflags
  rwa [h.eq_of_flags (hbs hb) heq.symm]

/-- An atom is absent if it carries one of the three flags. -/
theorem Atom.mem_absentTypes_iff (h : t.Atom) :
    t.flags.intersects (Flags.nullable ||| Flags.void) = true ↔ t ∈ absentTypes := by
  have hflags : ∀ flags ∈ simpleFlags,
      flags.intersects (Flags.nullable ||| Flags.void) = true →
        flags ∈ absentTypes.map Ty.flags := by decide
  have hthree : ∀ x ∈ absentTypes,
      x.flags.intersects (Flags.nullable ||| Flags.void) = true := by decide
  exact ⟨fun hmask => h.mem_of_flags_mem (by decide) (hflags _ h.flags_mem hmask), hthree t⟩

/-- The falsy part keeps an atom, or drops it because it is truthy, or keeps one literal of a
primitive. -/
theorem Atom.falsyMember_cases (h : t.Atom) :
    falsyMember t = t ∧ (t ∈ [any, unknown] ∨ t ∈ absentTypes ∨ t.isFalsyLiteral = true) ∨
    falsyMember t = never ∧ t ∉ absentTypes ∧ t.isFalsyLiteral = false ∨
    falsyMember t ∈ falsyLiterals ∧ (falsyMember t).base = t := by
  have hflags : ∀ flags ∈ simpleFlags,
      (flags.intersects (Flags.any ||| Flags.unknown ||| Flags.nullable ||| Flags.void)
        = (flags.intersects (Flags.any ||| Flags.unknown)
          || flags.intersects (Flags.nullable ||| Flags.void))) ∧
      (flags.contains Flags.boolean = true → flags = Flags.boolean) ∧
      (flags.contains Flags.number = true → flags = Flags.number) ∧
      (flags.contains Flags.string = true → flags = Flags.string) := by decide
  obtain ⟨hmask, hboolean, hnumber, hstring⟩ := hflags _ h.flags_mem
  have hwhole : t.flags.intersects
      (Flags.any ||| Flags.unknown ||| Flags.nullable ||| Flags.void) = true ↔
        t ∈ [any, unknown] ∨ t ∈ absentTypes := by
    rw [hmask, Bool.or_eq_true, h.mem_top_iff, h.mem_absentTypes_iff]
  unfold falsyMember
  split
  next hkept =>
    refine .inl ⟨rfl, ?_⟩
    rw [← or_assoc]
    exact .inl (hwhole.mp hkept)
  next hnot =>
    rw [hwhole, not_or] at hnot
    split
    next hflag =>
      rw [h.eq_of_flags (b := Ty.boolean) (by simp [basics]) (hboolean hflag)]
      exact .inr (.inr (by decide))
    next =>
      split
      next hflag =>
        rw [h.eq_of_flags (b := Ty.number) (by simp [basics]) (hnumber hflag)]
        exact .inr (.inr (by decide))
      next =>
        split
        next hflag =>
          rw [h.eq_of_flags (b := Ty.string) (by simp [basics]) (hstring hflag)]
          exact .inr (.inr (by decide))
        next =>
          split
          next hliteral => exact .inl ⟨rfl, .inr (.inr hliteral)⟩
          next hliteral => exact .inr (.inl ⟨rfl, hnot.2, Bool.eq_false_iff.mpr hliteral⟩)

/-- The truthy part keeps an atom, or drops it because it is falsy, or keeps one literal of
`boolean`. -/
theorem Atom.truthyMember_cases (h : t.Atom) :
    truthyMember t = t ∧ t ∉ absentTypes ∧ t.isFalsyLiteral = false ∨
    truthyMember t = never ∧ (t ∈ absentTypes ∨ t.isFalsyLiteral = true) ∨
    truthyMember t = Ty.booleanLiteral true ∧ t = Ty.boolean := by
  have hboolean : ∀ flags ∈ simpleFlags, flags.contains Flags.boolean = true →
      flags = Flags.boolean := by decide
  unfold truthyMember
  split
  next hkept =>
    have htwo : ∀ x ∈ [any, unknown], x ∉ absentTypes ∧ x.isFalsyLiteral = false := by decide
    exact .inl ⟨rfl, htwo t (h.mem_top_iff.mp hkept)⟩
  next =>
    split
    next hflag =>
      have heq := h.eq_of_flags (b := Ty.boolean) (by simp [basics]) (hboolean _ h.flags_mem hflag)
      exact .inr (.inr ⟨rfl, heq⟩)
    next =>
      split
      next hfalsy =>
        rw [Bool.or_eq_true, h.mem_absentTypes_iff] at hfalsy
        exact .inr (.inl ⟨rfl, hfalsy⟩)
      next htruthy =>
        rw [Bool.or_eq_true, h.mem_absentTypes_iff, not_or] at htruthy
        exact .inl ⟨rfl, htruthy.1, Bool.eq_false_iff.mpr htruthy.2⟩

/-- **One of the two parts keeps an atom whole,** unless it is `boolean`. -/
theorem Atom.kept_or_boolean (h : t.Atom) :
    falsyMember t = t ∨ truthyMember t = t ∨ t = Ty.boolean := by
  rcases h.falsyMember_cases with ⟨hkept, -⟩ | ⟨-, hpresent, htruthy⟩ | ⟨hliteral, hbase⟩
  · exact .inl hkept
  · rcases h.truthyMember_cases with ⟨hkept, -⟩ | ⟨-, hfalsy⟩ | ⟨-, heq⟩
    · exact .inr (.inl hkept)
    · rcases hfalsy with habsent | hfalsy
      · exact absurd habsent hpresent
      · rw [htruthy] at hfalsy
        cases hfalsy
    · exact .inr (.inr heq)
  · have hthree : ∀ x ∈ falsyLiterals, truthyMember x.base = x.base ∨ x.base = Ty.boolean := by
      decide
    have hkept := hthree _ hliteral
    rw [hbase] at hkept
    exact .inr hkept

theorem Atom.falsyMember (h : t.Atom) : t.falsyMember.Atom := by
  have hthree : ∀ x ∈ falsyLiterals, x.Atom := by
    simp [falsyLiterals, Atom.booleanLiteral, Atom.numberLiteral, Atom.stringLiteral]
  rcases h.falsyMember_cases with ⟨heq, -⟩ | ⟨heq, -⟩ | ⟨hmem, -⟩
  · rwa [heq]
  · rw [heq]
    exact .basic (by simp [basics])
  · exact hthree _ hmem

theorem Atom.truthyMember (h : t.Atom) : t.truthyMember.Atom := by
  rcases h.truthyMember_cases with ⟨heq, -⟩ | ⟨heq, -⟩ | ⟨heq, -⟩
  · rwa [heq]
  · rw [heq]
    exact .basic (by simp [basics])
  · rw [heq]
    exact .booleanLiteral true

theorem Atom.eq_any_of_falsyMember (h : t.Atom) (heq : t.falsyMember = any) : t = any := by
  rcases h.falsyMember_cases with ⟨hkept, -⟩ | ⟨hnever, -⟩ | ⟨hmem, -⟩
  · rw [← hkept, heq]
  · exact absurd (heq.symm.trans hnever) (by decide)
  · rw [heq] at hmem
    exact absurd hmem (by decide)

theorem Atom.eq_any_of_truthyMember (h : t.Atom) (heq : t.truthyMember = any) : t = any := by
  rcases h.truthyMember_cases with ⟨hkept, -⟩ | ⟨hnever, -⟩ | ⟨hliteral, -⟩
  · rw [← hkept, heq]
  · exact absurd (heq.symm.trans hnever) (by decide)
  · exact absurd (heq.symm.trans hliteral) (by decide)

/-- What is left of a member fits into it. -/
theorem Atom.falsyMember_assignable (h : t.Atom) : t.falsyMember.assignable t = true := by
  rw [h.falsyMember.assignable_iff h]
  rcases h.falsyMember_cases with ⟨heq, -⟩ | ⟨heq, -⟩ | ⟨-, hbase⟩
  · rw [heq]
    exact .same t
  · rw [heq]
    exact .bottom (by simp)
  · have hfits := FitsInto.literal t.falsyMember
    rwa [hbase] at hfits

theorem Atom.truthyMember_assignable (h : t.Atom) : t.truthyMember.assignable t = true := by
  rw [h.truthyMember.assignable_iff h]
  rcases h.truthyMember_cases with ⟨heq, -⟩ | ⟨heq, -⟩ | ⟨heq, rfl⟩
  · rw [heq]
    exact .same t
  · rw [heq]
    exact .bottom (by simp)
  · rw [heq]
    exact .literal (Ty.booleanLiteral true)

/-! ### Parts fit into the type -/

/-- What fits into a member fits into the type. -/
theorem assignable_of_mem_members (hn : n.Built) (ht : t.Built) (hm : m ∈ t.members)
    (h : n.assignable m = true) : n.assignable t = true := by
  have hatom := ht.atom_of_mem m hm
  rw [assignable_iff_members hn hatom.built, hatom.members] at h
  rw [assignable_iff_members hn ht]
  intro x hx
  obtain ⟨y, hy, hxy⟩ := h x hx
  rw [List.mem_singleton.mp hy] at hxy
  exact ⟨m, hm, hxy⟩

/-- A union of types that each fit into a member fits into the type. -/
theorem join_assignable_of_forall (hxs : ∀ x ∈ xs, x.Built) (ht : t.Built)
    (hany : any ∈ xs → any ∈ t.members)
    (h : ∀ x ∈ xs, ∃ m ∈ t.members, x.assignable m = true) : (join xs).assignable t = true := by
  by_cases hmem : any ∈ xs
  · rw [ht.eq_any_of_mem (hany hmem)]
    exact assignable_of_top (by decide)
  · have hnone : ∀ x ∈ xs, x.isAny = false := fun x hx =>
      (hxs x hx).isAny_eq_false fun heq => hmem (heq ▸ hx)
    rw [join_assignable_iff hxs hnone ht]
    intro x hx
    obtain ⟨m, hm, hfits⟩ := h x hx
    exact assignable_of_mem_members (hxs x hx) ht hm hfits

/-- A union of what is left of each member fits into the type. -/
theorem join_map_assignable (ht : t.Built) {f : Ty → Ty} (hatom : ∀ m : Ty, m.Atom → (f m).Atom)
    (hany : ∀ m : Ty, m.Atom → f m = any → m = any)
    (hfits : ∀ m : Ty, m.Atom → (f m).assignable m = true) :
    (join (t.members.map f)).assignable t = true := by
  refine join_assignable_of_forall ?_ ht ?_ ?_
  · intro x hx
    obtain ⟨m, hm, rfl⟩ := List.mem_map.mp hx
    exact (hatom m (ht.atom_of_mem m hm)).built
  · intro hmem
    obtain ⟨m, hm, heq⟩ := List.mem_map.mp hmem
    rwa [← hany m (ht.atom_of_mem m hm) heq]
  · intro x hx
    obtain ⟨m, hm, rfl⟩ := List.mem_map.mp hx
    exact ⟨m, hm, hfits m (ht.atom_of_mem m hm)⟩

namespace Built

theorem falsyPart_assignable (h : t.Built) : t.falsyPart.assignable t = true :=
  join_map_assignable h (fun _ hm => hm.falsyMember) (fun _ hm => hm.eq_any_of_falsyMember)
    fun _ hm => hm.falsyMember_assignable

theorem truthyPart_assignable (h : t.Built) : t.truthyPart.assignable t = true :=
  join_map_assignable h (fun _ hm => hm.truthyMember) (fun _ hm => hm.eq_any_of_truthyMember)
    fun _ hm => hm.truthyMember_assignable

/-! ### Nothing is lost -/

/-- **The falsy and the truthy part together take the whole type.** -/
theorem assignable_join_parts (h : t.Built) :
    t.assignable (Ty.join [t.falsyPart, t.truthyPart]) = true := by
  have hfalsy : ∀ x ∈ t.members.map Ty.falsyMember, x.Atom := by
    intro x hx
    obtain ⟨m, hm, rfl⟩ := List.mem_map.mp hx
    exact (h.atom_of_mem m hm).falsyMember
  have htruthy : ∀ x ∈ t.members.map Ty.truthyMember, x.Atom := by
    intro x hx
    obtain ⟨m, hm, rfl⟩ := List.mem_map.mp hx
    exact (h.atom_of_mem m hm).truthyMember
  have hatoms : ∀ x ∈ t.members.map Ty.falsyMember ++ t.members.map Ty.truthyMember, x.Atom :=
    fun x hx => (List.mem_append.mp hx).elim (hfalsy x) (htruthy x)
  -- member by member the two parts stand for the type
  have hsplit : Under t.members
      (t.members.map Ty.falsyMember ++ t.members.map Ty.truthyMember) := by
    intro m hm _
    rcases (h.atom_of_mem m hm).kept_or_boolean with hkept | hkept | rfl
    · exact .of_mem (List.mem_append_left _ (List.mem_map.mpr ⟨m, hm, hkept⟩))
    · exact .of_mem (List.mem_append_right _ (List.mem_map.mpr ⟨m, hm, hkept⟩))
    · refine .of_covers (by simp [truthTypes]) (.inr ⟨?_, ?_⟩)
      · exact List.mem_append_right _ (List.mem_map.mpr ⟨Ty.boolean, hm, by decide⟩)
      · exact List.mem_append_left _ (List.mem_map.mpr ⟨Ty.boolean, hm, by decide⟩)
  have hjoin := under_members_join fun x hx => (hatoms x hx).built
  rw [flatMap_members_eq_self fun x hx => (hatoms x hx).isUnion_eq_false] at hjoin
  have happend := reordered_join_append (fun x hx => (hfalsy x hx).built)
    fun x hx => (htruthy x hx).built
  have hall := hsplit.trans (hjoin.trans happend.under)
  exact hall.assignable h (.join_pair h.falsyPart h.truthyPart)

/-! ### Without `null` and `undefined` -/

/-- The type without `null` and `undefined` is the union of the other members. -/
theorem nonNullable_eq_join (h : t.Built) : t.nonNullable
    = Ty.join (t.members.filter (!·.flags.intersects Flags.nullable)) := by
  rcases h.atom_or_union with hatom | ⟨ms, -, rfl⟩
  · rw [hatom.members, Ty.nonNullable]
    by_cases hnullable : t.flags.intersects Flags.nullable = true
    · have hnone : [t].filter (!·.flags.intersects Flags.nullable) = [] := by simp [hnullable]
      rw [if_pos hnullable, hnone]
      rfl
    · have hself := hatom.tidy.join_members
      rw [hatom.members] at hself
      have hone : [t].filter (!·.flags.intersects Flags.nullable) = [t] := by simp [hnullable]
      rw [if_neg hnullable, hatom.isUnion_eq_false, hone]
      exact hself.symm
  · have hflags : (Ty.union ms).flags.intersects Flags.nullable = false := by
      show Flags.union.intersects Flags.nullable = false
      decide
    rw [Ty.nonNullable, hflags, isUnion_union, members_union]
    rfl

/-- A member that is kept is one of the type. -/
theorem built_of_mem_filter (h : t.Built) (p : Ty → Bool) :
    ∀ x ∈ t.members.filter p, x.Built :=
  fun x hx => (h.atom_of_mem x (List.mem_filter.mp hx).1).built

theorem nonNullable_assignable (h : t.Built) : t.nonNullable.assignable t = true := by
  rw [h.nonNullable_eq_join]
  refine join_assignable_of_forall (h.built_of_mem_filter _) h ?_ ?_
  · exact fun hany => (List.mem_filter.mp hany).1
  · intro x hx
    exact ⟨x, (List.mem_filter.mp hx).1, (h.built_of_mem_filter _ x hx).assignable_self⟩

/-- What is kept is neither `null` nor `undefined`. -/
theorem nullable_of_mem_nonNullable (h : t.Built) :
    ∀ m ∈ t.nonNullable.members, m.flags.intersects Flags.nullable = false := by
  intro m hm
  rw [h.nonNullable_eq_join] at hm
  rcases mem_members_join (fun x hx => (h.built_of_mem_filter _ x hx).simple_of_mem) hm
    with hthree | ⟨x, hx, hmx⟩
  · have hbasic : ∀ x ∈ [Ty.any, Ty.never, Ty.boolean],
        x.flags.intersects Flags.nullable = false := by decide
    exact hbasic m hthree
  · obtain ⟨hxt, hkept⟩ := List.mem_filter.mp hx
    rw [(h.atom_of_mem x hxt).members, List.mem_singleton] at hmx
    rw [hmx]
    simpa using hkept

theorem nonNullable_nonNullable (h : t.Built) : t.nonNullable.nonNullable = t.nonNullable := by
  have hall : t.nonNullable.members.filter (!·.flags.intersects Flags.nullable)
      = t.nonNullable.members := by
    rw [List.filter_eq_self]
    intro m hm
    rw [h.nullable_of_mem_nonNullable m hm]
    rfl
  rw [h.nonNullable.nonNullable_eq_join, hall, h.nonNullable.tidy.join_members]

/-- **Together with `null` and `undefined` the rest takes the whole type.** -/
theorem assignable_join_nonNullable (h : t.Built) :
    t.assignable (Ty.join [t.nonNullable, Ty.null, Ty.undefined]) = true := by
  have hbuilt : ∀ x ∈ [t.nonNullable, Ty.null, Ty.undefined], x.Built := by
    have htwo : ∀ x ∈ [Ty.null, Ty.undefined], x ∈ basics := by decide
    intro x hx
    rcases List.mem_cons.mp hx with rfl | hx
    · exact h.nonNullable
    · exact .basic (htwo x hx)
  have hrest := under_members_join (h.built_of_mem_filter (!·.flags.intersects Flags.nullable))
  rw [← h.nonNullable_eq_join, flatMap_members_eq_self fun x hx =>
    (h.atom_of_mem x (List.mem_filter.mp hx).1).isUnion_eq_false] at hrest
  have hsplit : Under t.members
      ([t.nonNullable, Ty.null, Ty.undefined].flatMap Ty.members) := by
    intro m hm hnever
    by_cases hnullable : m.flags.intersects Flags.nullable = true
    · have hflags : ∀ flags ∈ simpleFlags, flags.intersects Flags.nullable = true →
          flags ∈ [Ty.null, Ty.undefined].map Ty.flags := by decide
      have hatom := h.atom_of_mem m hm
      have htwo : m ∈ [Ty.null, Ty.undefined] :=
        hatom.mem_of_flags_mem (by decide) (hflags _ hatom.flags_mem hnullable)
      refine .of_mem (List.mem_flatMap.mpr ⟨m, List.mem_cons_of_mem _ htwo, ?_⟩)
      rw [hatom.members]
      exact List.mem_singleton_self m
    · have hkept : m ∈ t.members.filter (!·.flags.intersects Flags.nullable) :=
        List.mem_filter.mpr ⟨hm, by simpa using hnullable⟩
      refine (hrest m hkept hnever).mono fun n hn => ?_
      exact List.mem_flatMap.mpr ⟨t.nonNullable, by simp, hn⟩
  exact (hsplit.trans (under_members_join hbuilt)).assignable h (.join hbuilt)

/-- The truthy part has no member whose only values are `null` or `undefined`. -/
theorem not_mem_absentTypes_of_mem_truthyPart (h : t.Built) :
    ∀ m ∈ t.truthyPart.members, m ∉ absentTypes := by
  intro m hm
  have hatom : ∀ x ∈ t.members.map Ty.truthyMember, ∀ y ∈ x.members, y.Simple := by
    intro x hx
    obtain ⟨n, hn, rfl⟩ := List.mem_map.mp hx
    exact (h.atom_of_mem n hn).truthyMember.built.simple_of_mem
  rcases mem_members_join hatom hm with hthree | ⟨x, hx, hmx⟩
  · have hbasic : ∀ x ∈ [Ty.any, Ty.never, Ty.boolean], x ∉ absentTypes := by decide
    exact hbasic m hthree
  · obtain ⟨n, hn, rfl⟩ := List.mem_map.mp hx
    rw [(h.atom_of_mem n hn).truthyMember.members, List.mem_singleton] at hmx
    rw [hmx]
    rcases (h.atom_of_mem n hn).truthyMember_cases with ⟨heq, hpresent, -⟩ | ⟨heq, -⟩ | ⟨heq, -⟩
    · rwa [heq]
    · rw [heq]
      decide
    · rw [heq]
      decide

end Built

/-- **No part of the left operand is lost:** the falsy part, the truthy part and what is neither
`null` nor `undefined` fit into the type, and together with what they leave out they take all of
it. -/
theorem logical_parts (t : Ty) (ht : t.Built) :
    t.falsyPart.assignable t = true ∧ t.truthyPart.assignable t = true ∧
      t.nonNullable.assignable t = true ∧
    t.assignable (join [t.falsyPart, t.truthyPart]) = true ∧
    t.assignable (join [t.nonNullable, null, undefined]) = true ∧
    t.nonNullable.nonNullable = t.nonNullable ∧
    (∀ m ∈ t.nonNullable.members, m ≠ null ∧ m ≠ undefined) ∧
    ∀ m ∈ t.truthyPart.members, m ≠ null ∧ m ≠ undefined ∧ m ≠ void := by
  refine ⟨ht.falsyPart_assignable, ht.truthyPart_assignable, ht.nonNullable_assignable,
    ht.assignable_join_parts, ht.assignable_join_nonNullable, ht.nonNullable_nonNullable, ?_, ?_⟩
  · intro m hm
    have hflags := ht.nullable_of_mem_nonNullable m hm
    constructor
    · rintro rfl
      exact absurd hflags (by decide)
    · rintro rfl
      exact absurd hflags (by decide)
  · intro m hm
    simpa [absentTypes] using ht.not_mem_absentTypes_of_mem_truthyPart m hm

/-- Of `boolean | number | null` the falsy part is `false | 0 | null` and the truthy part is
`true | number`; together they are `0 | null | number | boolean`. -/
theorem logical_parts_mixed :
    (Ty.union [booleanLiteral false, numberLiteral Binary64.zero, null]).assignable
      (join [boolean, number, null]) = true ∧
    (join [boolean, number, null]).assignable
      (.union [numberLiteral Binary64.zero, null, number, boolean]) = true ∧
    (Ty.union [boolean, number]).nonNullable = .union [boolean, number] ∧
    ∀ m ∈ (Ty.union [booleanLiteral true, number]).members,
      m ≠ null ∧ m ≠ undefined ∧ m ≠ void := by
  have hbuilt : (join [boolean, number, null]).Built := by
    refine .join fun t ht => .basic ?_
    have hthree : ∀ t ∈ [boolean, number, null], t ∈ basics := by decide
    exact hthree t ht
  have hfalsy : (join [boolean, number, null]).falsyPart
      = .union [booleanLiteral false, numberLiteral Binary64.zero, null] := by decide
  have htruthy : (join [boolean, number, null]).truthyPart
      = .union [booleanLiteral true, number] := by decide
  have hboth : join [.union [booleanLiteral false, numberLiteral Binary64.zero, null],
      .union [booleanLiteral true, number]]
      = .union [numberLiteral Binary64.zero, null, number, boolean] := by decide
  have hrest : (join [boolean, number, null]).nonNullable = .union [boolean, number] := by decide
  obtain ⟨hfits, -, -, hwhole, -, honce, -, hpresent⟩ := logical_parts _ hbuilt
  rw [hfalsy] at hfits hwhole
  rw [htruthy] at hwhole hpresent
  rw [hboth] at hwhole
  rw [hrest] at honce
  exact ⟨hfits, hwhole, honce, hpresent⟩

end Ty

end ScriptLint
