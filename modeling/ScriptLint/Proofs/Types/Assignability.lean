import ScriptLint.Proofs.Types.NormalForm
import ScriptLint.Types.Assignable
/-!
# Assignability of types

Assignability is decided member by member: a type fits into another one if
each of its members fits into some member of the other, and atoms fit by one
of seven rules. So every type fits into itself, and the union of types is
their least upper bound: all of them fit into it, and it fits wherever all
of them do.

Key definitions: `Ty.FitsInto`.
Key theorems: `Ty.Atom.assignable_iff`, `Ty.assignable_iff_members`, `Ty.join_least_upper_bound`.
-/

namespace ScriptLint

namespace Ty

variable {s t u m n : Ty} {ts : List Ty}

/-! ### Atoms -/

/-- One atom may be stored where another one is expected. -/
inductive FitsInto : Ty → Ty → Prop where
  | top {s t : Ty} : t ∈ [any, unknown] → FitsInto s t
  | bottom {s t : Ty} : s ∈ [any, never] → FitsInto s t
  | same (t : Ty) : FitsInto t t
  | literal (s : Ty) : FitsInto s s.base
  | void : FitsInto undefined void
  | element {s t : Ty} : s.assignable t = true → FitsInto (.array s) (.array t)
  | named {s : Ty} {name : String} : fitsNamedObject s.flags name = true →
    FitsInto s (object name)

theorem Atom.mem_top_iff (h : t.Atom) :
    t.flags.intersects (Flags.any ||| Flags.unknown) = true ↔ t ∈ [any, unknown] := by
  have hflags : ∀ flags ∈ simpleFlags, flags.intersects (Flags.any ||| Flags.unknown) = true →
      flags = Flags.any ∨ flags = Flags.unknown := by decide
  constructor
  · intro htop
    rcases hflags _ h.flags_mem htop with hany | hunknown
    · simp [h.eq_of_flags (b := any) (by simp [basics]) hany]
    · simp [h.eq_of_flags (b := unknown) (by simp [basics]) hunknown]
  · intro ht
    have htwo : ∀ x ∈ [any, unknown], x.flags.intersects (Flags.any ||| Flags.unknown) = true := by
      decide
    exact htwo t ht

theorem Atom.mem_bottom_iff (h : t.Atom) :
    t.flags.intersects (Flags.any ||| Flags.never) = true ↔ t ∈ [any, never] := by
  have hflags : ∀ flags ∈ simpleFlags, flags.intersects (Flags.any ||| Flags.never) = true →
      flags = Flags.any ∨ flags = Flags.never := by decide
  constructor
  · intro hbottom
    rcases hflags _ h.flags_mem hbottom with hany | hnever
    · simp [h.eq_of_flags (b := any) (by simp [basics]) hany]
    · simp [h.eq_of_flags (b := never) (by simp [basics]) hnever]
  · intro ht
    have htwo : ∀ x ∈ [any, never], x.flags.intersects (Flags.any ||| Flags.never) = true := by
      decide
    exact htwo t ht

/-- An array is none of the objects that take more than themselves. -/
theorem fitsNamedObject_array (flags : Flags) (e : Ty) :
    fitsNamedObject flags (Ty.array e).display = false := by
  obtain ⟨x, hx⟩ : ∃ x, (Ty.array e).display = x ++ "[]" := by
    rw [display]
    split
    · exact ⟨"(" ++ e.display ++ ")", by simp [String.append_assoc]⟩
    · exact ⟨e.display, rfl⟩
  have hlast : (Ty.array e).display.toList.getLast? = some ']' := by
    rw [hx, String.toList_append]
    simp
  unfold fitsNamedObject
  split
  case h_6 => rfl
  all_goals
    rename_i hname
    rw [hname] at hlast
    exact absurd hlast (by decide)

theorem Atom.widened_eq_base (h : t.Atom) : t.widened = t.base := by
  rw [widened, h.isUnion_eq_false]
  rfl

/-- The tests that are left for two atoms when neither is at an end of the order. -/
theorem Atom.assignable_eq (hs : s.Atom) (ht : t.Atom) (htop : t ∉ [any, unknown])
    (hbottom : s ∉ [any, never]) :
    s.assignable t =
      if s = t ∨ s.base = t then true
      else if t.flags.contains Flags.void then s.flags.contains Flags.undefined
      else
        match s.element?, t.element? with
        | some a, some b => a.assignable b
        | _, _ => t.flags.contains Flags.object && fitsNamedObject s.flags t.display := by
  have hends : (t.flags.intersects (Flags.any ||| Flags.unknown)
      || s.flags.intersects (Flags.any ||| Flags.never)) = false := by
    rw [Bool.or_eq_false_iff]
    exact ⟨Bool.eq_false_iff.mpr fun h => htop (ht.mem_top_iff.mp h),
      Bool.eq_false_iff.mpr fun h => hbottom (hs.mem_bottom_iff.mp h)⟩
  rw [assignable.eq_def, hends, hs.isUnion_eq_false, ht.isUnion_eq_false, hs.widened_eq_base]
  simp only [Bool.false_eq_true, ↓reduceIte]
  cases s <;> cases t <;> simp only [element?]

theorem assignable_of_top (h : t.flags.intersects (Flags.any ||| Flags.unknown) = true) :
    s.assignable t = true := by
  rw [assignable.eq_def, h]
  rfl

theorem assignable_of_bottom (h : s.flags.intersects (Flags.any ||| Flags.never) = true) :
    s.assignable t = true := by
  rw [assignable.eq_def, h, Bool.or_true]
  rfl

/-- An atom that takes objects by their flags is an object with a name. -/
theorem Atom.eq_object (h : t.Atom) (hobject : t.flags.contains Flags.object = true)
    {source : Flags} (hfits : fitsNamedObject source t.display = true) :
    ∃ name, t = Ty.object name := by
  have hbasic : ∀ x ∈ basics, x.flags.contains Flags.object ≠ true := by decide
  have hliteral : ∀ x ∈ [Flags.booleanLiteral, Flags.numberLiteral, Flags.stringLiteral],
      x.contains Flags.object ≠ true := by decide
  cases h with
  | basic ht => exact absurd hobject (hbasic t ht)
  | booleanLiteral value => exact absurd hobject (hliteral Flags.booleanLiteral (by simp))
  | numberLiteral value => exact absurd hobject (hliteral Flags.numberLiteral (by simp))
  | stringLiteral value => exact absurd hobject (hliteral Flags.stringLiteral (by simp))
  | object name => exact ⟨name, rfl⟩
  | @array e _ =>
    rw [fitsNamedObject_array] at hfits
    cases hfits

/-- **Atoms are assignable by the seven rules.** -/
theorem Atom.assignable_iff (hs : s.Atom) (ht : t.Atom) :
    s.assignable t = true ↔ s.FitsInto t := by
  by_cases htop : t ∈ [any, unknown]
  · exact iff_of_true (assignable_of_top (ht.mem_top_iff.mpr htop)) (.top htop)
  by_cases hbottom : s ∈ [any, never]
  · exact iff_of_true (assignable_of_bottom (hs.mem_bottom_iff.mpr hbottom)) (.bottom hbottom)
  constructor
  · intro h
    rw [hs.assignable_eq ht htop hbottom] at h
    split at h
    next heq =>
      rcases heq with rfl | rfl
      · exact .same s
      · exact .literal s
    next =>
      split at h
      next hvoid =>
        have hflags : ∀ flags ∈ simpleFlags, (flags.contains Flags.void = true →
            flags = Flags.void) ∧ (flags.contains Flags.undefined = true →
            flags = Flags.undefined) := by decide
        rw [ht.eq_of_flags (b := void) (by simp [basics]) ((hflags _ ht.flags_mem).1 hvoid),
          hs.eq_of_flags (b := undefined) (by simp [basics]) ((hflags _ hs.flags_mem).2 h)]
        exact .void
      next =>
        split at h
        next a b ha hb =>
          obtain rfl : s = .array a := by cases s <;> simp_all [element?]
          obtain rfl : t = .array b := by cases t <;> simp_all [element?]
          exact .element h
        next =>
          rw [Bool.and_eq_true] at h
          obtain ⟨name, rfl⟩ := ht.eq_object h.1 h.2
          exact .named h.2
  · intro h
    cases h with
    | top h => exact absurd h htop
    | bottom h => exact absurd h hbottom
    | same => rw [hs.assignable_eq ht htop hbottom, if_pos (.inl rfl)]
    | literal => rw [hs.assignable_eq ht htop hbottom, if_pos (.inr rfl)]
    | void => decide +kernel
    | @element a b h =>
      have hvoid : (Ty.array b).flags.contains Flags.void = false := by
        show Flags.object.contains Flags.void = false
        decide
      rw [hs.assignable_eq ht htop hbottom, hvoid]
      split
      · rfl
      · exact h
    | @named s name h =>
      have hobject : (Ty.object name).flags.contains Flags.object = true := by
        show Flags.object.contains Flags.object = true
        decide
      have hvoid : (Ty.object name).flags.contains Flags.void = false := by
        show Flags.object.contains Flags.void = false
        decide
      rw [hs.assignable_eq ht htop hbottom, hvoid, hobject]
      split
      · rfl
      · cases s <;> exact h

/-! ### Member by member -/

/-- An atom is assignable to a type if it is to one of its members. -/
theorem Atom.assignable_iff_exists (hs : s.Atom) (ht : t.Built) :
    s.assignable t = true ↔ ∃ n ∈ t.members, s.assignable n = true := by
  rcases ht.atom_or_union with hatom | ⟨ns, htwo, rfl⟩
  · rw [hatom.members]
    simp
  · have htop : (Ty.union ns).flags.intersects (Flags.any ||| Flags.unknown) = false := by
      show Flags.union.intersects (Flags.any ||| Flags.unknown) = false
      decide
    rw [← parts_eq_members (isUnion_union ns)]
    by_cases hbottom : s.flags.intersects (Flags.any ||| Flags.never) = true
    · obtain ⟨n, hn⟩ := List.exists_mem_of_length_pos (Nat.lt_of_lt_of_le Nat.two_pos htwo)
      exact iff_of_true (assignable_of_bottom hbottom) ⟨n, hn, assignable_of_bottom hbottom⟩
    · rw [assignable.eq_def, htop, Bool.eq_false_iff.mpr hbottom, hs.isUnion_eq_false,
        isUnion_union]
      simp

/-- **Assignability goes member by member.** -/
theorem assignable_iff_members (hs : s.Built) (ht : t.Built) :
    s.assignable t = true ↔ ∀ m ∈ s.members, ∃ n ∈ t.members, m.assignable n = true := by
  rcases hs.atom_or_union with hatom | ⟨ms, -, rfl⟩
  · rw [hatom.members, hatom.assignable_iff_exists ht]
    simp
  · have hbottom : (Ty.union ms).flags.intersects (Flags.any ||| Flags.never) = false := by
      show Flags.union.intersects (Flags.any ||| Flags.never) = false
      decide
    have hmember : ∀ m ∈ ms, (m.assignable t = true ↔ ∃ n ∈ t.members, m.assignable n = true) := by
      intro m hm
      rw [← members_union ms] at hm
      exact (hs.atom_of_mem m hm).assignable_iff_exists ht
    rw [members_union]
    by_cases htop : t.flags.intersects (Flags.any ||| Flags.unknown) = true
    · exact iff_of_true (assignable_of_top htop) fun m hm =>
        (hmember m hm).mp (assignable_of_top htop)
    · rw [assignable.eq_def, Bool.eq_false_iff.mpr htop, hbottom, isUnion_union,
        ← forall₂_congr hmember]
      simp [parts]

theorem Built.assignable_self (h : t.Built) : t.assignable t = true := by
  rw [assignable_iff_members h h]
  intro m hm
  have hatom := h.atom_of_mem m hm
  exact ⟨m, hm, (hatom.assignable_iff hatom).mpr (.same m)⟩

/-! ### Literals and their primitives -/

theorem base_cases (t : Ty) : t.base = t ∨ t.base ∈ [boolean, number, string] := by
  unfold base
  split
  · exact .inr (by simp)
  · split
    · exact .inr (by simp)
    · split
      · exact .inr (by simp)
      · exact .inl rfl

theorem base_base (t : Ty) : t.base.base = t.base := by
  have hthree : ∀ x ∈ [boolean, number, string], x.base = x := by decide
  rcases t.base_cases with heq | hmem
  · rw [heq, heq]
  · exact hthree _ hmem

theorem base_booleanLiteral (value : Bool) : (booleanLiteral value).base = boolean := by
  cases value <;> decide

theorem base_eq_self (h : t.flags ∈ [Flags.unknown, Flags.void, Flags.object]) : t.base = t := by
  have hflags : ∀ flags ∈ [Flags.unknown, Flags.void, Flags.object],
      flags.contains Flags.booleanLiteral = false ∧ flags.contains Flags.numberLiteral = false ∧
      flags.contains Flags.stringLiteral = false := by decide
  obtain ⟨hboolean, hnumber, hstring⟩ := hflags _ h
  rw [base, hboolean, hnumber, hstring]
  rfl

/-- Only some flags count for the objects that take more than themselves. -/
theorem fitsNamedObject_congr {f g : Flags} (hlike : ∀ mask ∈ [Flags.booleanLike, Flags.numberLike,
      Flags.stringLike, Flags.nullable ||| Flags.void], f.intersects mask = g.intersects mask)
    (hobject : f.contains Flags.object = g.contains Flags.object) (name : String) :
    fitsNamedObject f name = fitsNamedObject g name := by
  unfold fitsNamedObject
  rw [hlike Flags.booleanLike (by simp), hlike Flags.numberLike (by simp),
    hlike Flags.stringLike (by simp), hlike (Flags.nullable ||| Flags.void) (by simp), hobject]

/-- An object takes a literal if it takes the primitive. -/
theorem Atom.fitsNamedObject_base (h : t.Atom) (name : String) :
    fitsNamedObject t.base.flags name = fitsNamedObject t.flags name := by
  have hflags : ∀ flags ∈ simpleFlags,
      (flags.contains Flags.booleanLiteral = true → flags = Flags.booleanLiteral) ∧
      (flags.contains Flags.numberLiteral = true → flags = Flags.numberLiteral) ∧
      (flags.contains Flags.stringLiteral = true → flags = Flags.stringLiteral) := by decide
  obtain ⟨hboolean, hnumber, hstring⟩ := hflags _ h.flags_mem
  unfold base
  split
  next hliteral =>
    rw [hboolean hliteral]
    exact fitsNamedObject_congr (by decide) (by decide) name
  next =>
    split
    next hliteral =>
      rw [hnumber hliteral]
      exact fitsNamedObject_congr (by decide) (by decide) name
    next =>
      split
      next hliteral =>
        rw [hstring hliteral]
        exact fitsNamedObject_congr (by decide) (by decide) name
      next => rfl

namespace FitsInto

/-- What takes the primitive takes the literal. -/
theorem of_base (hs : s.Atom) (h : s.base.FitsInto t) : s.FitsInto t := by
  rcases s.base_cases with heq | hmem
  · rwa [heq] at h
  · have hthree : ∀ x ∈ [boolean, number, string], x ∉ [any, never] ∧ x.base = x ∧
        x ≠ undefined ∧ x.element? = none := by decide
    obtain ⟨hbottom, hbase, hundefined, helement⟩ := hthree _ hmem
    have hnamed := hs.fitsNamedObject_base
    have hliteral := FitsInto.literal s
    generalize s.base = b at *
    cases h with
    | top ht => exact .top ht
    | bottom hb => exact absurd hb hbottom
    | same => exact hliteral
    | literal => rwa [hbase]
    | void => exact absurd rfl hundefined
    | element _ => cases helement
    | named hfits => exact .named (hnamed _ ▸ hfits)

/-- What fits into a literal fits into its primitive. -/
theorem base (h : s.FitsInto t) : s.FitsInto t.base := by
  have htwo : ∀ x ∈ [any, unknown], x.base = x := by decide
  cases h with
  | top ht => exact .top (by rwa [htwo t ht])
  | bottom hs => exact .bottom hs
  | same => exact .literal s
  | literal =>
    rw [base_base]
    exact .literal s
  | void => exact .void
  | element h =>
    rw [base_eq_self (by simp [flags])]
    exact .element h
  | named h =>
    rw [base_eq_self (by simp [flags, object])]
    exact .named h

/-- Nothing fits into `never` that does not fit everywhere. -/
theorem mem_bottom (h : s.FitsInto t) (ht : t = never) : s ∈ [any, never] := by
  cases h with
  | top hmem => exact absurd hmem (by rw [ht]; decide)
  | bottom hmem => exact hmem
  | same => simp [ht]
  | literal =>
    rcases s.base_cases with heq | hmem
    · simp [← ht, heq]
    · exact absurd hmem (by rw [ht]; decide)
  | void => exact absurd ht (by decide)
  | element _ => cases ht
  | named _ => exact absurd (congrArg flags ht) (by show Flags.object ≠ Flags.never; decide)

/-- What takes one truth value is that literal, or it takes the other one as well. -/
theorem eq_or_boolean {value : Bool} (h : (booleanLiteral value).FitsInto t) :
    t = booleanLiteral value ∨ boolean.FitsInto t := by
  have hflags : (booleanLiteral value).flags = Flags.booleanLiteral := rfl
  have hbase := base_booleanLiteral value
  generalize booleanLiteral value = s at *
  cases h with
  | top ht => exact .inr (.top ht)
  | bottom hs =>
    have htwo : ∀ x ∈ [any, never], x.flags ≠ Flags.booleanLiteral := by decide
    exact absurd hflags (htwo s hs)
  | same => exact .inl rfl
  | literal =>
    rw [hbase]
    exact .inr (.same boolean)
  | void => exact absurd hflags (by decide)
  | element _ => exact absurd hflags (by show Flags.object ≠ Flags.booleanLiteral; decide)
  | named hfits =>
    rw [hflags] at hfits
    rw [fitsNamedObject_congr (g := Flags.boolean) (by decide) (by decide)] at hfits
    exact .inr (.named hfits)

end FitsInto

/-! ### Unions as least upper bounds -/

theorem Built.isAny_eq_false (h : t.Built) (hne : t ≠ Ty.any) : t.isAny = false :=
  Bool.eq_false_iff.mpr fun hany => hne (h.tidy.any hany)

/-- No type has both truth values as members. -/
theorem Built.not_both_literals (h : t.Built) :
    ¬(Ty.booleanLiteral true ∈ t.members ∧ Ty.booleanLiteral false ∈ t.members) := by
  rcases h.atom_or_union with hatom | ⟨ms, -, rfl⟩
  · rw [hatom.members, List.mem_singleton, List.mem_singleton]
    rintro ⟨htrue, hfalse⟩
    exact absurd (htrue.trans hfalse.symm) (by decide)
  · rw [← parts_eq_members (isUnion_union ms)]
    exact h.tidy.literals

/-- What fits into one of the types fits into their union. -/
theorem assignable_join_of_mem (hts : ∀ t ∈ ts, t.Built) (hs : s.Built) (ht : t ∈ ts)
    (h : s.assignable t = true) : s.assignable (join ts) = true := by
  rcases join_cases ts with heq | ⟨hany, -⟩
  · rw [heq]
    exact assignable_of_top (by decide)
  · have hjoin : (join ts).Built := .join hts
    rw [assignable_iff_members hs hjoin]
    intro m hm
    obtain ⟨n, hn, hmn⟩ := (assignable_iff_members hs (hts t ht)).mp h m hm
    have hmatom := hs.atom_of_mem m hm
    have hnatom := (hts t ht).atom_of_mem n hn
    rcases mem_members_join_of_mem hts hany ht hn with rfl | hmem | ⟨⟨value, rfl⟩, hmem⟩
    · obtain ⟨k, hk⟩ := List.exists_mem_of_ne_nil _ hjoin.members_ne_nil
      have hbottom := ((hmatom.assignable_iff hnatom).mp hmn).mem_bottom rfl
      exact ⟨k, hk, assignable_of_bottom (hmatom.mem_bottom_iff.mpr hbottom)⟩
    · exact ⟨n, hmem, hmn⟩
    · have hfits := ((hmatom.assignable_iff hnatom).mp hmn).base
      rw [base_booleanLiteral] at hfits
      exact ⟨boolean, hmem, (hmatom.assignable_iff (.basic (by simp [basics]))).mpr hfits⟩

/-- A union fits where all of the types fit, and nowhere else. -/
theorem join_assignable_iff (hts : ∀ t ∈ ts, t.Built) (hany : ∀ t ∈ ts, t.isAny = false)
    (hu : u.Built) :
    (join ts).assignable u = true ↔ ∀ t ∈ ts, t.assignable u = true := by
  have hjoin : (join ts).Built := .join hts
  have hboolean : boolean.Atom := .basic (by simp [basics])
  obtain ⟨k, hk⟩ := List.exists_mem_of_ne_nil _ hu.members_ne_nil
  have hnever : ∃ n ∈ u.members, never.assignable n = true :=
    ⟨k, hk, assignable_of_bottom (by decide)⟩
  rw [assignable_iff_members hjoin hu]
  constructor
  · intro h t ht
    rw [assignable_iff_members (hts t ht) hu]
    intro m hm
    rcases mem_members_join_of_mem hts hany ht hm with rfl | hmem | ⟨⟨value, rfl⟩, hmem⟩
    · exact hnever
    · exact h m hmem
    · obtain ⟨n, hn, hfits⟩ := h boolean hmem
      have hnatom := hu.atom_of_mem n hn
      rw [hboolean.assignable_iff hnatom, ← base_booleanLiteral value] at hfits
      have hliteral := FitsInto.of_base (.booleanLiteral value) hfits
      exact ⟨n, hn, ((Atom.booleanLiteral value).assignable_iff hnatom).mpr hliteral⟩
  · intro h m hm
    have hflat : ∀ x ∈ ts.flatMap members, ∃ n ∈ u.members, x.assignable n = true := by
      intro x hx
      obtain ⟨t, ht, hxt⟩ := List.mem_flatMap.mp hx
      exact (assignable_iff_members (hts t ht) hu).mp (h t ht) x hxt
    rcases mem_of_mem_members_join hts hany hm with rfl | hmem | ⟨rfl, hboth⟩
    · exact hnever
    · exact hflat m hmem
    · -- one place that takes a truth value and is not that value takes `boolean`
      have heither : ∀ value, booleanLiteral value ∈ u.members ∨
          ∃ n ∈ u.members, boolean.assignable n = true := by
        intro value
        obtain ⟨n, hn, hfits⟩ := hflat _ (hboth value)
        have hnatom := hu.atom_of_mem n hn
        rcases (((Atom.booleanLiteral value).assignable_iff hnatom).mp hfits).eq_or_boolean
          with rfl | hfits
        · exact .inl hn
        · exact .inr ⟨n, hn, (hboolean.assignable_iff hnatom).mpr hfits⟩
      rcases heither true with htrue | hfound
      · rcases heither false with hfalse | hfound
        · exact absurd ⟨htrue, hfalse⟩ hu.not_both_literals
        · exact hfound
      · exact hfound

/-- **The union of types is their least upper bound.** -/
theorem join_least_upper_bound (ts : List Ty) (hts : ∀ t ∈ ts, t.Built) :
    (∀ t ∈ ts, t.assignable (join ts) = true) ∧
    (∀ s : Ty, s.Built → (∃ t ∈ ts, s.assignable t = true) → s.assignable (join ts) = true) ∧
    ((∀ t ∈ ts, t ≠ any) → ∀ u : Ty, u.Built →
      ((join ts).assignable u = true ↔ ∀ t ∈ ts, t.assignable u = true)) := by
  refine ⟨fun t ht => ?_, fun s hs hfits => ?_, fun hany u hu => ?_⟩
  · exact assignable_join_of_mem hts (hts t ht) ht (hts t ht).assignable_self
  · obtain ⟨t, ht, hst⟩ := hfits
    exact assignable_join_of_mem hts hs ht hst
  · exact join_assignable_iff hts (fun t ht => (hts t ht).isAny_eq_false (hany t ht)) hu

/-- `true`, `false` and an array of numbers: the union is `boolean | number[]`, it takes an array
of zeros, and it fits into `Object`. -/
theorem join_least_upper_bound_truth_values :
    (booleanLiteral false).assignable
      (join [booleanLiteral true, booleanLiteral false, .array number]) = true ∧
    (Ty.array (numberLiteral Binary64.zero)).assignable
      (join [booleanLiteral true, booleanLiteral false, .array number]) = true ∧
    (join [booleanLiteral true, booleanLiteral false, .array number]).assignable
      (object "Object") = true := by
  have hbuilt : ∀ t ∈ [booleanLiteral true, booleanLiteral false, .array number], t.Built := by
    simp [Built.booleanLiteral, Built.array, Built.number]
  obtain ⟨hupper, hbelow, hleast⟩ := join_least_upper_bound _ hbuilt
  refine ⟨hupper _ (by simp), ?_, ?_⟩
  · exact hbelow _ (.array (.numberLiteral _)) ⟨.array number, by simp, by decide +kernel⟩
  · exact (hleast (by decide) _ (.object "Object")).mpr (by decide +kernel)

end Ty

end ScriptLint
