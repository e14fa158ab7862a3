import ScriptLint.Proofs.Types.Assignability
/-!
# Assignability end to end

Where neither `any` nor `object` occurs, every type fits into itself, and
types of which each fits into the next fit end to end, but for one gap:
`Object` takes no `null`, but it takes `unknown`, and `unknown` takes `null`.
The gap is told by the members that meet in it, so that types fit end to end
just if there is none between them.

Key definitions: `Ty.Strict`, `Ty.Gap`.
Key theorems: `Ty.FitsInto.trans`, `Ty.assignable_preorder`.
-/

namespace ScriptLint

namespace Ty

variable {s t u m n : Ty}

/-! ### Types without `any` and `object` -/

/-- A type made from basic types other than `any`, literals and objects other than `object`, by
arrays and unions. -/
inductive Strict : Ty → Prop where
  | basic {t : Ty} : t ∈ basics → t ≠ any → Strict t
  | booleanLiteral (value : Bool) : Strict (booleanLiteral value)
  | numberLiteral (value : Binary64) : Strict (numberLiteral value)
  | stringLiteral (value : String) : Strict (stringLiteral value)
  | object {name : String} : name ≠ "object" → Strict (object name)
  | array {t : Ty} : Strict t → Strict (.array t)
  | join {ts : List Ty} : (∀ t ∈ ts, Strict t) → Strict (join ts)

theorem Strict.built (h : t.Strict) : t.Built := by
  induction h with
  | basic ht _ => exact .basic ht
  | booleanLiteral value => exact .booleanLiteral value
  | numberLiteral value => exact .numberLiteral value
  | stringLiteral value => exact .stringLiteral value
  | object _ => exact .object _
  | array _ ih => exact .array ih
  | join _ ih => exact .join ih

/-- Neither `any` nor `object` occurs in the type. -/
def Free (t : Ty) : Prop :=
  ∀ x ∈ [any, object "object"], ¬x.OccursIn t

theorem Free.of_mem (h : t.Free) (hm : m ∈ t.members) : m.Free :=
  fun x hx hoccurs => h x hx (hoccurs.of_mem_members hm)

theorem Free.element (h : (Ty.array t).Free) : t.Free :=
  fun x hx hoccurs => h x hx (.element hoccurs)

/-- An atom that occurs in a type occurs in one of its members. -/
theorem OccursIn.exists_mem (h : u.OccursIn t) (ht : t.Built) (hu : u.isUnion = false) :
    ∃ m ∈ t.members, u.OccursIn m := by
  rcases ht.atom_or_union with hatom | ⟨ms, -, rfl⟩
  · rw [hatom.members]
    exact ⟨t, List.mem_singleton_self t, h⟩
  · rw [members_union]
    cases h with
    | self => rw [isUnion_union] at hu; cases hu
    | member hm h => exact ⟨_, hm, h⟩

/-- Nothing but itself occurs in a type without members and element. -/
theorem OccursIn.eq (h : u.OccursIn t) (hparts : t.parts = []) (helement : t.element? = none) :
    u = t := by
  cases h with
  | self => rfl
  | element _ => cases helement
  | @member m ms hm _ =>
    have hnil : ms = [] := hparts
    rw [hnil] at hm
    cases hm

/-- **Neither `any` nor `object` occurs in a type that is made without them.** -/
theorem Strict.free (h : t.Strict) : t.Free := by
  have htwo : ∀ x ∈ [any, Ty.object "object"], x.isUnion = false ∧ x.element? = none ∧
      (x = any ∨ x ∉ basics) ∧ x ≠ never ∧ x ≠ boolean ∧
      x.flags ∉ [Flags.booleanLiteral, Flags.numberLiteral, Flags.stringLiteral] := by decide
  have hliteral : ∀ {flags text}, flags ∈ [Flags.booleanLiteral, Flags.numberLiteral,
      Flags.stringLiteral] → (Ty.plain flags text).Free := by
    intro flags text hflags x hx hoccurs
    have hother := (htwo x hx).2.2.2.2.2
    rw [hoccurs.eq rfl rfl] at hother
    exact hother hflags
  induction h with
  | @basic t ht hne =>
    intro x hx hoccurs
    have hbasic : ∀ b ∈ basics, b.parts = [] ∧ b.element? = none := by decide
    obtain rfl := hoccurs.eq (hbasic t ht).1 (hbasic t ht).2
    rcases (htwo x hx).2.2.1 with heq | hnot
    · exact hne heq
    · exact hnot ht
  | booleanLiteral value => exact hliteral (by simp)
  | numberLiteral value => exact hliteral (by simp)
  | stringLiteral value => exact hliteral (by simp)
  | @object name hname =>
    intro x hx hoccurs
    have heq := hoccurs.eq rfl rfl
    simp only [List.mem_cons, List.not_mem_nil, or_false] at hx
    rcases hx with rfl | rfl
    · exact absurd (congrArg flags heq) (by show Flags.any ≠ Flags.object; decide)
    · exact hname (congrArg display heq).symm
  | array _ ih =>
    intro x hx hoccurs
    cases hoccurs with
    | self => exact absurd (htwo _ hx).2.1 (by simp [element?])
    | element h => exact ih x hx h
  | @join ts hts ih =>
    intro x hx hoccurs
    obtain ⟨hunion, -, -, hnever, hboolean, -⟩ := htwo x hx
    have hbuilt : ∀ t ∈ ts, t.Built := fun t ht => (hts t ht).built
    have hany : ∀ t ∈ ts, t.isAny = false := by
      intro t ht
      refine (hbuilt t ht).isAny_eq_false ?_
      rintro rfl
      exact ih _ ht Ty.any (by simp) .self
    obtain ⟨m, hm, hoccurs⟩ := hoccurs.exists_mem (.join hbuilt) hunion
    rcases mem_of_mem_members_join hbuilt hany hm with rfl | hmem | ⟨rfl, -⟩
    · exact hnever (hoccurs.eq rfl rfl)
    · obtain ⟨t, ht, hmt⟩ := List.mem_flatMap.mp hmem
      exact ih t ht x hx (hoccurs.of_mem_members hmt)
    · exact hboolean (hoccurs.eq rfl rfl)

/-! ### Transitivity -/

/-- The one gap in the order: `unknown` takes `null`, `undefined` and `void`, and `Object` takes
`unknown`, but not these three. It lies between types if the three meet in their members, or in the
elements of arrays among them, and no other member of the last type takes what `Object` does not. -/
inductive Gap : Ty → Ty → Ty → Prop where
  | here {a b c m : Ty} : m ∈ a.members → m ∈ [null, undefined, Ty.void] → unknown ∈ b.members →
      object "Object" ∈ c.members → m.assignable c = false → Gap a b c
  | element {a b c x y z : Ty} : .array x ∈ a.members → .array y ∈ b.members →
      .array z ∈ c.members → (Ty.array x).assignable c = false → Gap x y z → Gap a b c

/-- A member of the first type is in the gap, and the last type does not take it. -/
theorem Gap.exists_member {a b c : Ty} (h : Gap a b c) :
    ∃ m ∈ a.members, m.assignable c = false := by
  cases h with
  | here hm _ _ _ hnot => exact ⟨_, hm, hnot⟩
  | element hx _ _ hnot _ => exact ⟨_, hx, hnot⟩

/-- Which named objects take anything of the given kind. -/
theorem fitsNamedObject_cases {source : Flags} {name : String}
    (h : fitsNamedObject source name = true) :
    name = "Boolean" ∧ source.intersects Flags.booleanLike = true ∨
    name = "Number" ∧ source.intersects Flags.numberLike = true ∨
    name = "String" ∧ source.intersects Flags.stringLike = true ∨
    name = "Object" ∧ source.intersects (Flags.nullable ||| Flags.void) = false ∨
    name = "object" ∧ source.contains Flags.object = true := by
  unfold fitsNamedObject at h
  split at h <;> simp_all

/-- Only `Object` and `object` take `unknown` and objects. -/
theorem eq_Object_of_fits {source : Flags} {name : String} (hname : name ≠ "object")
    (hsource : source ∈ [Flags.unknown, Flags.void, Flags.object])
    (h : fitsNamedObject source name = true) : name = "Object" ∧ source ≠ Flags.void := by
  have hnone : ∀ flags ∈ [Flags.unknown, Flags.void, Flags.object],
      flags.intersects Flags.booleanLike = false ∧ flags.intersects Flags.numberLike = false ∧
      flags.intersects Flags.stringLike = false := by decide
  obtain ⟨hboolean, hnumber, hstring⟩ := hnone source hsource
  rcases fitsNamedObject_cases h with ⟨-, h⟩ | ⟨-, h⟩ | ⟨-, h⟩ | ⟨rfl, h⟩ | ⟨hobject, -⟩
  · rw [h] at hboolean
    cases hboolean
  · rw [h] at hnumber
    cases hnumber
  · rw [h] at hstring
    cases hstring
  · refine ⟨rfl, ?_⟩
    rintro rfl
    exact absurd h (by decide)
  · exact absurd hobject hname

/-- What takes an atom that is neither a primitive nor a literal. -/
theorem FitsInto.target_cases (h : s.FitsInto t)
    (hs : s.flags ∈ [Flags.unknown, Flags.void, Flags.object]) :
    t ∈ [any, unknown] ∨ t = s ∨
      (∃ a b : Ty, s = .array a ∧ t = .array b ∧ a.assignable b = true) ∨
      ∃ name, t = object name ∧ fitsNamedObject s.flags name = true := by
  have hends : ∀ x ∈ [any, never, undefined],
      x.flags ∉ [Flags.unknown, Flags.void, Flags.object] := by decide
  cases h with
  | top ht => exact .inl ht
  | bottom hmem =>
    refine absurd hs (hends s ?_)
    simp only [List.mem_cons, List.not_mem_nil, or_false] at hmem ⊢
    exact hmem.imp_right .inl
  | same => exact .inr (.inl rfl)
  | literal => exact .inr (.inl (base_eq_self hs))
  | void => exact absurd hs (hends undefined (by simp))
  | element h => exact .inr (.inr (.inl ⟨_, _, rfl, rfl, h⟩))
  | named h => exact .inr (.inr (.inr ⟨_, rfl, h⟩))

/-- `Object` takes all atoms but three. -/
theorem Atom.fitsInto_Object (h : t.Atom) (hnot : t ∉ [null, undefined, void]) :
    t.FitsInto (Ty.object "Object") := by
  have hflags : ∀ flags ∈ simpleFlags,
      flags.intersects (Flags.nullable ||| Flags.void) = false ∨
        flags ∈ [Flags.null, Flags.undefined, Flags.void] := by decide
  rcases hflags _ h.flags_mem with hfits | hthree
  · refine .named ?_
    show (!t.flags.intersects (Flags.nullable ||| Flags.void)) = true
    rw [hfits]
    rfl
  · refine absurd ?_ hnot
    simp only [List.mem_cons, List.not_mem_nil, or_false] at hthree ⊢
    rcases hthree with hnull | hundefined | hvoid
    · exact .inl (h.eq_of_flags (by simp [basics]) hnull)
    · exact .inr (.inl (h.eq_of_flags (by simp [basics]) hundefined))
    · exact .inr (.inr (h.eq_of_flags (by simp [basics]) hvoid))

theorem Free.name_ne {name : String} (h : (object name).Free) : name ≠ "object" := by
  rintro rfl
  exact h (object "object") (by simp) .self

/-- **Atoms fit end to end,** unless they are the three of the gap, or arrays, where it depends on
the elements. -/
theorem FitsInto.trans {k : Ty} (hm : m.Atom) (hn : n.Free) (hk : k.Free) (h : m.FitsInto n)
    (h' : n.FitsInto k) :
    m.FitsInto k ∨ (m ∈ [null, undefined, Ty.void] ∧ n = unknown ∧ k = object "Object") ∨
      ∃ x y z : Ty, m = .array x ∧ n = .array y ∧ k = .array z ∧
        x.assignable y = true ∧ y.assignable z = true := by
  cases h with
  | top hmem =>
    have hunknown : n = unknown := by
      simp only [List.mem_cons, List.not_mem_nil, or_false] at hmem
      rcases hmem with rfl | rfl
      · exact absurd OccursIn.self (hn any (by simp))
      · rfl
    have hflags : n.flags ∈ [Flags.unknown, Flags.void, Flags.object] := by
      rw [hunknown]
      decide
    rcases h'.target_cases hflags with htop | rfl | ⟨a, b, ha, -⟩ | ⟨name, rfl, hfits⟩
    · exact .inl (.top htop)
    · exact .inl (.top hmem)
    · rw [hunknown] at ha
      cases ha
    · obtain ⟨rfl, -⟩ := eq_Object_of_fits hk.name_ne hflags hfits
      by_cases hthree : m ∈ [null, undefined, Ty.void]
      · exact .inr (.inl ⟨hthree, hunknown, rfl⟩)
      · exact .inl (hm.fitsInto_Object hthree)
  | bottom hmem => exact .inl (.bottom hmem)
  | same => exact .inl h'
  | literal => exact .inl (h'.of_base hm)
  | void =>
    have hflags : Ty.void.flags ∈ [Flags.unknown, Flags.void, Flags.object] := by decide
    rcases h'.target_cases hflags with htop | rfl | ⟨a, b, ha, -⟩ | ⟨name, rfl, hfits⟩
    · exact .inl (.top htop)
    · exact .inl .void
    · cases ha
    · exact absurd rfl (eq_Object_of_fits hk.name_ne hflags hfits).2
  | @element a b hab =>
    have hflags : (Ty.array b).flags ∈ [Flags.unknown, Flags.void, Flags.object] := by
      simp [flags]
    rcases h'.target_cases hflags with htop | rfl | ⟨b', c, hb, rfl, hbc⟩ | ⟨name, rfl, hfits⟩
    · exact .inl (.top htop)
    · exact .inl (.element hab)
    · obtain rfl := Ty.array.inj hb
      exact .inr (.inr ⟨a, b, c, rfl, rfl, rfl, hab, hbc⟩)
    · exact .inl (.named hfits)
  | @named _ name hfits =>
    have hflags : (object name).flags ∈ [Flags.unknown, Flags.void, Flags.object] := by
      simp [flags, object]
    rcases h'.target_cases hflags with htop | rfl | ⟨a, b, ha, -⟩ | ⟨name', rfl, hfits'⟩
    · exact .inl (.top htop)
    · exact .inl (.named hfits)
    · cases ha
    · obtain ⟨rfl, -⟩ := eq_Object_of_fits hk.name_ne hflags hfits'
      refine .inl (hm.fitsInto_Object fun hthree => ?_)
      -- none of the three fits into an object
      have hnone : ∀ x ∈ [null, undefined, Ty.void], ∀ name ∈ ["Boolean", "Number", "String",
          "Object", "object"], fitsNamedObject x.flags name = false := by decide
      have hname : name ∈ ["Boolean", "Number", "String", "Object", "object"] := by
        rcases fitsNamedObject_cases hfits with h | h | h | h | h <;> simp [h.1]
      rw [hnone m hthree name hname] at hfits
      cases hfits

theorem sizeOf_le_of_mem_members (h : m ∈ t.members) : sizeOf m ≤ sizeOf t := by
  unfold members at h
  split at h
  · exact Nat.le_of_lt (sizeOf_lt_of_mem_parts h)
  · exact Nat.le_of_eq (congrArg sizeOf (List.mem_singleton.mp h))

/-- An atom fits into a type that has a member which takes it. -/
theorem Atom.assignable_of_mem {k c : Ty} (hm : m.Atom) (hc : c.Built) (hk : k ∈ c.members)
    (h : m.FitsInto k) : m.assignable c = true := by
  rw [assignable_iff_members hm.built hc]
  intro m' hm'
  rw [hm.members, List.mem_singleton] at hm'
  exact ⟨k, hk, hm' ▸ (hm.assignable_iff (hc.atom_of_mem k hk)).mpr h⟩

/-- Types without `any` and `object` fit end to end, or there is a gap between them. -/
theorem assignable_or_gap {a b c : Ty} (ha : a.Built) (hb : b.Built) (hc : c.Built)
    (hbfree : b.Free) (hcfree : c.Free) (hab : a.assignable b = true)
    (hbc : b.assignable c = true) : a.assignable c = true ∨ Gap a b c := by
  refine Classical.or_iff_not_imp_right.mpr fun hgap => ?_
  rw [assignable_iff_members ha hc]
  intro m hm
  have hmatom := ha.atom_of_mem m hm
  cases hnot : m.assignable c with
  | true => exact (assignable_iff_members hmatom.built hc).mp hnot m (by simp [hmatom.members])
  | false =>
    have hnone : ∀ k ∈ c.members, ¬m.FitsInto k := fun k hk hmk => by
      rw [hmatom.assignable_of_mem hc hk hmk] at hnot
      cases hnot
    obtain ⟨n, hn, hmn⟩ := (assignable_iff_members ha hb).mp hab m hm
    obtain ⟨k, hk, hnk⟩ := (assignable_iff_members hb hc).mp hbc n hn
    have hnatom := hb.atom_of_mem n hn
    have hkatom := hc.atom_of_mem k hk
    rw [hmatom.assignable_iff hnatom] at hmn
    rw [hnatom.assignable_iff hkatom] at hnk
    rcases hmn.trans hmatom (hbfree.of_mem hn) (hcfree.of_mem hk) hnk with hmk | hthree | harrays
    · exact absurd hmk (hnone k hk)
    · obtain ⟨hmem, rfl, rfl⟩ := hthree
      exact absurd (.here hm hmem hn hk hnot) hgap
    · obtain ⟨x, y, z, rfl, rfl, rfl, hxy, hyz⟩ := harrays
      -- the elements of arrays are smaller types
      have hsize : sizeOf y < sizeOf b := by
        have hle := sizeOf_le_of_mem_members hn
        simp only [Ty.array.sizeOf_spec] at hle
        omega
      have helements := assignable_or_gap (hmatom.built.element rfl) (hnatom.built.element rfl)
        (hkatom.built.element rfl) (hbfree.of_mem hn).element (hcfree.of_mem hk).element hxy hyz
      have hinner : Gap x y z := helements.resolve_left fun hxz => hnone _ hk (.element hxz)
      exact absurd (.element hm hn hk hnot hinner) hgap
termination_by sizeOf b

/-- **Assignability is a preorder on types without `any` and `object`,** but for the gap: every type
fits into itself, and where each type fits into the next the first fits into the last just if there
is no gap between them. -/
theorem assignable_preorder {a b c : Ty} (ha : a.Strict) (hb : b.Strict) (hc : c.Strict) :
    a.assignable a = true ∧
    (a.assignable b = true → b.assignable c = true → (a.assignable c = true ↔ ¬Gap a b c)) := by
  refine ⟨ha.built.assignable_self, fun hab hbc => ⟨fun hac hgap => ?_, fun hgap => ?_⟩⟩
  · obtain ⟨m, hm, hnot⟩ := hgap.exists_member
    obtain ⟨k, hk, hmk⟩ := (assignable_iff_members ha.built hc.built).mp hac m hm
    have hmatom := ha.built.atom_of_mem m hm
    rw [hmatom.assignable_iff (hc.built.atom_of_mem k hk)] at hmk
    rw [hmatom.assignable_of_mem hc.built hk hmk] at hnot
    cases hnot
  · exact (assignable_or_gap ha.built hb.built hc.built hb.free hc.free hab hbc).resolve_right hgap

/-- From `null` through `unknown` to `Object | null`, in arrays: there is no gap, since the last type
takes `null` by another member. -/
theorem assignable_preorder_arrays :
    (Ty.array null).assignable (.array unknown) = true ∧
      (Ty.array unknown).assignable (.array (join [object "Object", null])) = true ∧
      (Ty.array null).assignable (.array (join [object "Object", null])) = true := by
  have hnull : null.Strict := .basic (by simp [basics]) (by decide)
  have hunknown : unknown.Strict := .basic (by simp [basics]) (by decide)
  have hobject : (object "Object").Strict := .object (by decide)
  have htarget : (Ty.array (join [object "Object", null])).Strict :=
    .array (.join (by simp [hobject, hnull]))
  have hgap : ¬Gap (.array null) (.array unknown) (.array (join [object "Object", null])) := by
    have hsingle : ∀ t : Ty, (Ty.array t).members = [.array t] := fun t =>
      members_of_isUnion_eq_false (by simp only [isUnion, flags]; decide)
    intro hgap
    cases hgap with
    | here hm hthree _ _ _ =>
      rw [hsingle, List.mem_singleton] at hm
      subst hm
      simp [null, undefined, void] at hthree
    | element hx hy hz _ hinner =>
      rw [hsingle, List.mem_singleton] at hx hy hz
      cases hx
      cases hy
      cases hz
      obtain ⟨m, hm, hnot⟩ := hinner.exists_member
      obtain rfl : m = null := List.mem_singleton.mp hm
      have htaken : null.assignable (join [object "Object", null]) = true := by decide +kernel
      rw [htaken] at hnot
      cases hnot
  have hab : (Ty.array null).assignable (.array unknown) = true := by decide +kernel
  have hbc : (Ty.array unknown).assignable (.array (join [object "Object", null])) = true := by
    decide +kernel
  exact ⟨hab, hbc,
    ((assignable_preorder (.array hnull) (.array hunknown) htarget).2 hab hbc).mpr hgap⟩

/-- The gap: `null` fits into `unknown` and `unknown` fits into `Object`, which takes no `null`. -/
theorem assignable_not_transitive :
    null.Strict ∧ unknown.Strict ∧ (object "Object").Strict ∧
      null.assignable unknown = true ∧ unknown.assignable (object "Object") = true ∧
      null.assignable (object "Object") = false := by
  have hnull : null.Strict := .basic (by simp [basics]) (by decide)
  have hunknown : unknown.Strict := .basic (by simp [basics]) (by decide)
  have hobject : (object "Object").Strict := .object (by decide)
  exact ⟨hnull, hunknown, hobject, by decide +kernel⟩

end Ty

end ScriptLint
