import ScriptLint.Proofs.Types.UnionLaws
/-!
# Widening

Widening replaces each member of a type by its base, and nothing else: the
members of the widened type are the bases of the members
(`Built.mem_members_widened`). So it is a closure operator with respect to
assignability. A type fits into its widened type, since a literal fits into
its primitive; widening twice is widening once, since a base is its own base;
and types that fit stay so, since each rule by which one atom fits into
another holds of their bases. Union and widening can change places, up to the
order of members.

Key theorems: `Ty.Built.mem_members_widened`, `Ty.FitsInto.map_base`,
`Ty.reordered_widened_join`, `Ty.widening_closure`.
-/

namespace ScriptLint

namespace Ty

variable {s t m n : Ty} {xs ys ts ms : List Ty}

/-! ### Bases of atoms -/

theorem Atom.base (h : t.Atom) : t.base.Atom := by
  have hthree : ∀ x ∈ [boolean, number, string], x ∈ basics := by decide
  rcases t.base_cases with heq | hmem
  · rwa [heq]
  · exact .basic (hthree _ hmem)

/-- A base is no literal of `boolean`. -/
theorem contains_booleanLiteral_base (t : Ty) :
    t.base.flags.contains Flags.booleanLiteral = false := by
  have hthree : ∀ x ∈ [boolean, number, string],
      x.flags.contains Flags.booleanLiteral = false := by decide
  by_cases hliteral : t.flags.contains Flags.booleanLiteral = true
  · rw [Ty.base, if_pos hliteral]
    decide
  · rcases t.base_cases with heq | hmem
    · rw [heq]
      exact Bool.eq_false_iff.mpr hliteral
    · exact hthree _ hmem

/-- **What fits still fits when both are widened,** whichever rule it fits by. -/
theorem FitsInto.map_base (hs : s.Atom) (h : s.FitsInto t) : s.base.FitsInto t.base := by
  have htop : ∀ x ∈ [any, unknown], x.base = x := by decide
  have hbottom : ∀ x ∈ [any, never], x.base = x := by decide
  cases h with
  | top ht => exact .top (by rwa [htop t ht])
  | bottom hmem => exact .bottom (by rwa [hbottom s hmem])
  | same => exact .same _
  | literal =>
    rw [base_base]
    exact .same _
  | void => exact .void
  | element h =>
    rw [base_eq_self (by simp [flags]), base_eq_self (by simp [flags])]
    exact .element h
  | @named _ name h =>
    have hself : (object name).base = object name := base_eq_self (by simp [flags, object])
    rw [hself]
    exact .named ((hs.fitsNamedObject_base name).trans h)

/-! ### Members of the widened type -/

/-- Atoms other than `any`, `never` and the literals of `boolean` are the members of their
union. -/
theorem mem_members_join_iff_mem (hatoms : ∀ m ∈ ms, m.Atom) (hne : ms ≠ [])
    (hany : ∀ m ∈ ms, m.isAny = false) (hnever : ∀ m ∈ ms, m.flags.contains Flags.never = false)
    (hliteral : ∀ m ∈ ms, m.flags.contains Flags.booleanLiteral = false) :
    n ∈ (join ms).members ↔ n ∈ ms := by
  have hflat : ms.flatMap members = ms :=
    flatMap_members_eq_self fun m hm => (hatoms m hm).isUnion_eq_false
  have hcovers : Covers ms → boolean ∈ ms := by
    rintro (hboolean | ⟨htrue, -⟩)
    · exact hboolean
    · exact absurd (hliteral _ htrue) (by decide)
  have hjoined : ∀ x, x ∈ joined ms ↔ x ∈ ms := by
    intro x
    rw [mem_joined, hflat]
    constructor
    · rintro (⟨rfl, h⟩ | ⟨hx, -⟩)
      · exact hcovers h
      · exact hx
    · intro hx
      exact .inr ⟨hx, hnever x hx, fun h => by simp [hliteral x hx] at h⟩
  obtain ⟨m, hm⟩ := List.exists_mem_of_ne_nil ms hne
  have hjoinedAtoms : ∀ x ∈ joined ms, x.Atom := fun x hx => hatoms x ((hjoined x).mp hx)
  rw [join_of_not_any hany, members_ofMembers hjoinedAtoms,
    if_neg (List.ne_nil_of_mem ((hjoined m).mpr hm)), hjoined]

namespace Built

/-- Neither `any` nor `never` is widened to anything else, so they are no bases in a union. -/
theorem base_of_mem_union (h : (Ty.union ms).Built) (hm : m ∈ ms) :
    m.base.isAny = false ∧ m.base.flags.contains Flags.never = false := by
  have hthree : ∀ x ∈ [Ty.boolean, Ty.number, Ty.string],
      x.isAny = false ∧ x.flags.contains Flags.never = false := by decide
  rcases m.base_cases with heq | hmem
  · rw [heq]
    exact (h.tidy.atoms m hm).2
  · exact hthree _ hmem

/-- **The members of the widened type are the bases of the members.** -/
theorem mem_members_widened (h : t.Built) :
    n ∈ t.widened.members ↔ ∃ m ∈ t.members, m.base = n := by
  rcases h.atom_or_union with hatom | ⟨ms, htwo, rfl⟩
  · rw [hatom.widened_eq_base, hatom.base.members, hatom.members]
    simp [eq_comm]
  · have hatoms : ∀ m ∈ ms, m.Atom := by
      rw [← members_union ms]
      exact h.atom_of_mem
    have hwidened : (Ty.union ms).widened = Ty.join (ms.map Ty.base) := by
      rw [Ty.widened, if_pos (isUnion_union ms)]
      rfl
    have hne : ms.map Ty.base ≠ [] := by
      intro hnil
      simp [List.map_eq_nil_iff.mp hnil] at htwo
    rw [hwidened, members_union, mem_members_join_iff_mem ?_ hne ?_ ?_ ?_, List.mem_map]
    all_goals
      intro x hx
      obtain ⟨m, hm, rfl⟩ := List.mem_map.mp hx
    · exact (hatoms m hm).base
    · exact (h.base_of_mem_union hm).1
    · exact (h.base_of_mem_union hm).2
    · exact m.contains_booleanLiteral_base

/-- The widened type is the union of the bases, also where there is one only. -/
theorem widened_eq_join (h : t.Built) : t.widened = Ty.join (t.members.map Ty.base) := by
  rcases h.atom_or_union with hatom | ⟨ms, -, rfl⟩
  · have hself := hatom.base.tidy.join_members
    rw [hatom.base.members] at hself
    rw [hatom.widened_eq_base, hatom.members, List.map_singleton, hself]
  · rw [Ty.widened, if_pos (isUnion_union ms), members_union]
    rfl

/-! ### A closure operator -/

theorem assignable_widened (h : t.Built) : t.assignable t.widened = true := by
  rw [assignable_iff_members h h.widened]
  intro m hm
  have hatom := h.atom_of_mem m hm
  have hbase : m.base ∈ t.widened.members := h.mem_members_widened.mpr ⟨m, hm, rfl⟩
  exact ⟨m.base, hbase, (hatom.assignable_iff hatom.base).mpr (.literal m)⟩

theorem widened_widened (h : t.Built) : t.widened.widened = t.widened := by
  -- the members are bases already
  have hbases : t.widened.members.map Ty.base = t.widened.members := by
    calc t.widened.members.map Ty.base = t.widened.members.map id := by
          refine List.map_congr_left fun n hn => ?_
          obtain ⟨m, -, rfl⟩ := h.mem_members_widened.mp hn
          exact m.base_base
      _ = t.widened.members := List.map_id _
  rw [h.widened.widened_eq_join, hbases, h.widened.tidy.join_members]

theorem widened_mono (hs : s.Built) (ht : t.Built) (h : s.assignable t = true) :
    s.widened.assignable t.widened = true := by
  rw [assignable_iff_members hs.widened ht.widened]
  intro b hb
  obtain ⟨m, hm, rfl⟩ := hs.mem_members_widened.mp hb
  obtain ⟨n, hn, hmn⟩ := (assignable_iff_members hs ht).mp h m hm
  have hmatom := hs.atom_of_mem m hm
  have hnatom := ht.atom_of_mem n hn
  have hfits : m.base.FitsInto n.base :=
    ((hmatom.assignable_iff hnatom).mp hmn).map_base hmatom
  exact ⟨n.base, ht.mem_members_widened.mpr ⟨n, hn, rfl⟩,
    (hmatom.base.assignable_iff hnatom.base).mpr hfits⟩

end Built

/-! ### Widening and union -/

/-- Lists of types that stand for each other do so when they are widened. -/
theorem Under.map_base (hxs : ∀ m ∈ xs, m.Atom) (h : Under xs ys) :
    Under (xs.map Ty.base) (ys.map Ty.base) := by
  intro b hb hnever
  obtain ⟨m, hm, rfl⟩ := List.mem_map.mp hb
  have hmnever : m.flags.contains Flags.never = false := by
    refine Bool.eq_false_iff.mpr fun hcontains => ?_
    rw [(hxs m hm).eq_never hcontains] at hnever
    exact absurd hnever (by decide)
  rcases h m hm hmnever with hmem | hany | ⟨htruth, hcovers⟩
  · exact .of_mem (List.mem_map_of_mem hmem)
  · exact .of_any (List.mem_map.mpr ⟨any, hany, by decide⟩)
  · have hthree : ∀ x ∈ truthTypes, x.base = boolean := by decide
    -- whichever covers the truth values, its base is `boolean`
    have hboolean : boolean ∈ ys.map Ty.base := by
      rcases hcovers with hmem | ⟨htrue, -⟩
      · exact List.mem_map.mpr ⟨boolean, hmem, by decide⟩
      · exact List.mem_map.mpr ⟨booleanLiteral true, htrue, by decide⟩
    rw [hthree m htruth]
    exact .of_mem hboolean

/-- **Union and widening can change places,** up to the order of members. -/
theorem reordered_widened_join (hts : ∀ t ∈ ts, t.Built) :
    (join ts).widened.Reordered (join (ts.map widened)) := by
  have hjoin : (join ts).Built := .join hts
  have hflat : ∀ m ∈ ts.flatMap members, m.Atom := by
    intro m hm
    obtain ⟨t, ht, hmt⟩ := List.mem_flatMap.mp hm
    exact (hts t ht).atom_of_mem m hmt
  have hbases : ∀ {l : List Ty}, (∀ m ∈ l, m.Atom) → ∀ b ∈ l.map Ty.base, b.Atom := by
    intro l hl b hb
    obtain ⟨m, hm, rfl⟩ := List.mem_map.mp hb
    exact (hl m hm).base
  have hself : ∀ {l : List Ty}, (∀ m ∈ l, m.Atom) →
      (l.map Ty.base).flatMap members = l.map Ty.base :=
    fun hl => flatMap_members_eq_self fun b hb => (hbases hl b hb).isUnion_eq_false
  -- both sides are unions of the bases of all members
  have hmiddle : (join ((join ts).members.map Ty.base)).Reordered
      (join ((ts.flatMap members).map Ty.base)) := by
    refine reordered_join (fun b hb => (hbases hjoin.atom_of_mem b hb).built)
      (fun b hb => (hbases hflat b hb).built) ?_ ?_
    · rw [hself hjoin.atom_of_mem, hself hflat]
      exact (members_join_under hts).map_base hjoin.atom_of_mem
    · rw [hself hjoin.atom_of_mem, hself hflat]
      exact (under_members_join hts).map_base hflat
  have hright : ts.map widened = (ts.map fun t => t.members.map Ty.base).map join := by
    rw [List.map_map]
    exact List.map_congr_left fun t ht => (hts t ht).widened_eq_join
  have hflatten : (ts.map fun t => t.members.map Ty.base).flatten
      = (ts.flatMap members).map Ty.base := by
    rw [List.map_flatMap, List.flatMap_def]
  have hall : (join ((ts.flatMap members).map Ty.base)).Reordered (join (ts.map widened)) := by
    rw [hright, ← hflatten]
    refine reordered_join_flatten fun l hl b hb => ?_
    obtain ⟨t, ht, rfl⟩ := List.mem_map.mp hl
    exact (hbases (hts t ht).atom_of_mem b hb).built
  rw [hjoin.widened_eq_join]
  exact hmiddle.trans hall

/-- **Widening is a closure operator that goes together with union:** a type fits into the widened
type, to widen once is enough, what fits still fits, and a union is widened by its parts. -/
theorem widening_closure (a b : Ty) (ts : List Ty) (ha : a.Built) (hb : b.Built)
    (hts : ∀ t ∈ ts, t.Built) :
    a.assignable a.widened = true ∧
    a.widened.widened = a.widened ∧
    (a.assignable b = true → a.widened.assignable b.widened = true) ∧
    (join ts).widened.Reordered (join (ts.map widened)) := by
  refine ⟨ha.assignable_widened, ha.widened_widened, ?_, reordered_widened_join hts⟩
  exact ha.widened_mono hb

/-- `0 | true` is widened to `number | boolean`, which fits into `Object | null` as `0 | true` does;
together with `false` and a string it is widened to `string | number | boolean` in some order. -/
theorem widening_closure_literals :
    (join [numberLiteral Binary64.zero, booleanLiteral true]).assignable
      (.union [number, boolean]) = true ∧
    (Ty.union [number, boolean]).widened = .union [number, boolean] ∧
    (Ty.union [number, boolean]).assignable (join [object "Object", null]) = true ∧
    (join [stringLiteral "a", booleanLiteral true, numberLiteral Binary64.zero,
      booleanLiteral false]).widened.Reordered (.union [string, boolean, number]) := by
  have hliterals : (join [numberLiteral Binary64.zero, booleanLiteral true]).Built :=
    .join_pair (.numberLiteral _) (.booleanLiteral true)
  have hobject : (join [object "Object", null]).Built :=
    .join_pair (.object "Object") (.basic (by simp [basics]))
  have hall : ∀ t ∈ [stringLiteral "a", booleanLiteral true, numberLiteral Binary64.zero,
      booleanLiteral false], t.Built := by
    simp [Built.stringLiteral, Built.booleanLiteral, Built.numberLiteral]
  have hwidened : (join [numberLiteral Binary64.zero, booleanLiteral true]).widened
      = .union [number, boolean] := by decide
  have hself : (join [object "Object", null]).widened = join [object "Object", null] := by decide
  have hfits : (join [numberLiteral Binary64.zero, booleanLiteral true]).assignable
      (join [object "Object", null]) = true := by decide +kernel
  have hparts : join ([stringLiteral "a", booleanLiteral true, numberLiteral Binary64.zero,
      booleanLiteral false].map widened) = .union [string, boolean, number] := by decide
  obtain ⟨hextends, honce, hmono, hunion⟩ := widening_closure _ _ _ hliterals hobject hall
  rw [hwidened] at hextends honce hmono
  rw [hself] at hmono
  rw [hparts] at hunion
  exact ⟨hextends, honce, hmono hfits, hunion⟩

end Ty

end ScriptLint
