import ScriptLint.Proofs.Types.Built
/-!
# The members of a union

A type that is built up is an atom or a union of atoms. The members of a
union of types are the members of these types, each once and without
`never`, but for the truth values: `boolean` is a member as soon as the
types cover it, and then its literals are not.

Key definitions: `Ty.Atom`, `Ty.joined`, `Ty.Covers`.
Key theorems: `Ty.Built.atom_of_mem`, `Ty.nodup_joined`, `Ty.mem_joined`,
`Ty.join_eq_union_or_atom`.
-/

namespace ScriptLint

namespace Ty

variable {t m : Ty} {ts ms : List Ty}

/-! ### Atoms -/

/-- A type that is no union, by the way it is made. -/
inductive Atom : Ty → Prop where
  | basic {t : Ty} : t ∈ basics → Atom t
  | booleanLiteral (value : Bool) : Atom (booleanLiteral value)
  | numberLiteral (value : Binary64) : Atom (numberLiteral value)
  | stringLiteral (value : String) : Atom (stringLiteral value)
  | object (name : String) : Atom (object name)
  | array {t : Ty} : t.Built → Atom (.array t)

namespace Atom

theorem built (h : t.Atom) : t.Built := by
  cases h with
  | basic ht => exact .basic ht
  | booleanLiteral value => exact .booleanLiteral value
  | numberLiteral value => exact .numberLiteral value
  | stringLiteral value => exact .stringLiteral value
  | object name => exact .object name
  | array ht => exact .array ht

theorem flags_mem (h : t.Atom) : t.flags ∈ simpleFlags := by
  have hbasic : ∀ x ∈ basics, x.flags ∈ simpleFlags := by decide
  cases h with
  | basic ht => exact hbasic t ht
  | _ => simp [flags, Ty.booleanLiteral, Ty.numberLiteral, Ty.stringLiteral, Ty.object, simpleFlags]

theorem isUnion_eq_false (h : t.Atom) : t.isUnion = false :=
  Ty.isUnion_eq_false h.flags_mem

theorem members (h : t.Atom) : t.members = [t] :=
  members_of_isUnion_eq_false h.isUnion_eq_false

/-- A type that carries the flag of a basic type is that type. -/
theorem eq_of_flags (h : t.Atom) {b : Ty} (hb : b ∈ basics) (hflags : t.flags = b.flags) :
    t = b := by
  have hbasic : ∀ x ∈ basics, ∀ y ∈ basics, x.flags = y.flags → x = y := by decide
  have hother : ∀ y ∈ basics, y.flags ∉
      [Flags.booleanLiteral, Flags.numberLiteral, Flags.stringLiteral, Flags.object] := by decide
  cases h with
  | basic ht => exact hbasic t ht b hb hflags
  | _ => exact absurd (by rw [← hflags]; simp [flags, Ty.booleanLiteral, Ty.numberLiteral,
      Ty.stringLiteral, Ty.object]) (hother b hb)

theorem eq_any (h : t.Atom) (hany : t.isAny = true) : t = any := by
  have hall : ∀ flags ∈ simpleFlags, flags.intersects Flags.any = true → flags = Flags.any := by
    decide
  exact h.eq_of_flags (by simp [basics]) (hall _ h.flags_mem hany)

theorem eq_never (h : t.Atom) (hnever : t.flags.contains Flags.never = true) : t = never := by
  have hall : ∀ flags ∈ simpleFlags, flags.contains Flags.never = true → flags = Flags.never := by
    decide
  exact h.eq_of_flags (by simp [basics]) (hall _ h.flags_mem hnever)

theorem eq_booleanLiteral (h : t.Atom) (hflags : t.flags.contains Flags.booleanLiteral = true) :
    ∃ value, t = Ty.booleanLiteral value := by
  have hall : ∀ flags ∈ simpleFlags, flags.contains Flags.booleanLiteral = true →
      flags = Flags.booleanLiteral := by decide
  have hliteral := hall _ h.flags_mem hflags
  have hbasic : ∀ x ∈ basics, x.flags ≠ Flags.booleanLiteral := by decide
  have hother : ∀ flags ∈ [Flags.numberLiteral, Flags.stringLiteral, Flags.object],
      flags ≠ Flags.booleanLiteral := by decide
  cases h with
  | basic ht => exact absurd hliteral (hbasic t ht)
  | booleanLiteral value => exact ⟨value, rfl⟩
  | numberLiteral value => exact absurd hliteral (hother Flags.numberLiteral (by simp))
  | stringLiteral value => exact absurd hliteral (hother Flags.stringLiteral (by simp))
  | object name => exact absurd hliteral (hother Flags.object (by simp))
  | array _ => exact absurd hliteral (hother Flags.object (by simp))

end Atom

/-- What holds of atoms, and of a union if it holds of what is joined, holds of all types that
are built up. -/
@[elab_as_elim]
theorem Built.induction_join {P : Ty → Prop} (h : t.Built) (atom : ∀ a : Ty, a.Atom → P a)
    (join : ∀ ts : List Ty, (∀ t ∈ ts, t.Built) → (∀ t ∈ ts, P t) → P (Ty.join ts)) : P t := by
  induction h with
  | basic ht => exact atom _ (.basic ht)
  | booleanLiteral value => exact atom _ (.booleanLiteral value)
  | numberLiteral value => exact atom _ (.numberLiteral value)
  | stringLiteral value => exact atom _ (.stringLiteral value)
  | object name => exact atom _ (.object name)
  | array ht _ => exact atom _ (.array ht)
  | join hts ih => exact join _ hts ih

/-- **The members of a type are atoms.** -/
theorem Built.atom_of_mem (h : t.Built) : ∀ m ∈ t.members, m.Atom := by
  refine h.induction_join (fun a ha m hm => ?_) fun ts hts ih m hm => ?_
  · rw [ha.members, List.mem_singleton] at hm
    rwa [hm]
  · rcases mem_members_join (fun t ht => (hts t ht).simple_of_mem) hm with hm | ⟨t, ht, hmt⟩
    · have hthree : ∀ x ∈ [Ty.any, Ty.never, Ty.boolean], x ∈ basics := by decide
      exact .basic (hthree m hm)
    · exact ih t ht m hmt

theorem Built.atom (h : t.Built) (hunion : t.isUnion = false) : t.Atom := by
  refine h.atom_of_mem t ?_
  rw [members_of_isUnion_eq_false hunion]
  exact List.mem_singleton_self t

theorem isUnion_union (ms : List Ty) : (union ms).isUnion = true := by
  show Flags.union.contains Flags.union = true
  decide

/-- Types that are no unions are their own members. -/
theorem flatMap_members_eq_self (h : ∀ m ∈ ts, m.isUnion = false) : ts.flatMap members = ts := by
  have hsingle : ts.map members = ts.map ([·]) := List.map_congr_left fun m hm =>
    members_of_isUnion_eq_false (h m hm)
  rw [List.flatMap_def, hsingle, ← List.flatMap_def, List.flatMap_singleton']

/-! ### Each type once -/

theorem mem_distinct_iff : m ∈ distinct ts ↔ m ∈ ts := by
  refine ⟨mem_distinct, fun hm => ?_⟩
  induction ts with
  | nil => exact hm
  | cons t ts ih =>
    rw [distinct, List.mem_cons, List.mem_filter]
    by_cases heq : m = t
    · exact .inl heq
    · exact .inr ⟨ih ((List.mem_cons.mp hm).resolve_left heq), by simpa using heq⟩

theorem nodup_distinct (ts : List Ty) : (distinct ts).Nodup := by
  induction ts with
  | nil => exact List.nodup_nil
  | cons t ts ih =>
    rw [distinct, List.nodup_cons]
    exact ⟨by simp, ih.filter _⟩

theorem distinct_of_nodup (h : ts.Nodup) : distinct ts = ts := by
  induction ts with
  | nil => rfl
  | cons t ts ih =>
    obtain ⟨ht, hts⟩ := List.nodup_cons.mp h
    rw [distinct, ih hts, List.filter_eq_self.mpr]
    intro m hm
    simpa using fun heq : m = t => ht (heq ▸ hm)

/-! ### Truth values -/

/-- The list has all truth values: `boolean`, or both literals. -/
def Covers (ts : List Ty) : Prop :=
  boolean ∈ ts ∨ booleanLiteral true ∈ ts ∧ booleanLiteral false ∈ ts

/-- `boolean` is there if the truth values are covered, and then no literal is. -/
theorem mem_collapseBooleans_iff : m ∈ collapseBooleans ts ↔
    m = boolean ∧ Covers ts ∨
      m ∈ ts ∧ ¬(m.flags.contains Flags.booleanLiteral = true ∧ Covers ts) := by
  have hboolean : boolean.flags.contains Flags.booleanLiteral = false := by decide
  unfold collapseBooleans
  by_cases hmem : boolean ∈ ts
  · have hcovers : Covers ts := .inl hmem
    rw [if_pos hmem, List.mem_filter]
    constructor
    · rintro ⟨hm, hliteral⟩
      exact .inr ⟨hm, fun h => by simp [h.1] at hliteral⟩
    · rintro (⟨rfl, -⟩ | ⟨hm, hnot⟩)
      · exact ⟨hmem, by simp [hboolean]⟩
      · exact ⟨hm, by simpa using fun h => hnot ⟨h, hcovers⟩⟩
  · rw [if_neg hmem]
    by_cases hboth : booleanLiteral true ∈ ts ∧ booleanLiteral false ∈ ts
    · have hcovers : Covers ts := .inr hboth
      rw [if_pos hboth, List.mem_append, List.mem_filter, List.mem_singleton]
      constructor
      · rintro (⟨hm, hliteral⟩ | rfl)
        · exact .inr ⟨hm, fun h => by simp [h.1] at hliteral⟩
        · exact .inl ⟨rfl, hcovers⟩
      · rintro (⟨rfl, -⟩ | ⟨hm, hnot⟩)
        · exact .inr rfl
        · exact .inl ⟨hm, by simpa using fun h => hnot ⟨h, hcovers⟩⟩
    · have hcovers : ¬Covers ts := not_or.mpr ⟨hmem, hboth⟩
      rw [if_neg hboth]
      simp [hcovers]

theorem nodup_collapseBooleans (h : ts.Nodup) : (collapseBooleans ts).Nodup := by
  unfold collapseBooleans
  by_cases hmem : boolean ∈ ts
  · rw [if_pos hmem]
    exact h.filter _
  · rw [if_neg hmem]
    split
    · refine List.nodup_append.mpr ⟨h.filter _, by simp, fun x hx y hy => ?_⟩
      rintro rfl
      rw [List.mem_singleton] at hy
      exact hmem (hy ▸ (List.mem_filter.mp hx).1)
    · exact h

/-! ### Joined members -/

/-- The members of a union of types, of which none is `any`. -/
def joined (ts : List Ty) : List Ty :=
  collapseBooleans (distinct ((ts.flatMap members).filter (!·.flags.contains Flags.never)))

theorem join_of_any (h : ∃ t ∈ ts, t.isAny = true) : join ts = any := by
  rw [join, if_pos (List.any_eq_true.mpr h)]

theorem join_of_not_any (h : ∀ t ∈ ts, t.isAny = false) : join ts = ofMembers (joined ts) := by
  have hany : ts.any isAny = false := by
    rw [List.any_eq_false]
    intro t ht
    simp [h t ht]
  rw [join, hany]
  rfl

/-- A union is `any`, or it is made up of its joined members. -/
theorem join_cases (ts : List Ty) :
    join ts = any ∨ (∀ t ∈ ts, t.isAny = false) ∧ join ts = ofMembers (joined ts) := by
  by_cases hany : ∃ t ∈ ts, t.isAny = true
  · exact .inl (join_of_any hany)
  · have hnone : ∀ t ∈ ts, t.isAny = false := fun t ht =>
      Bool.eq_false_iff.mpr fun h => hany ⟨t, ht, h⟩
    exact .inr ⟨hnone, join_of_not_any hnone⟩

theorem nodup_joined (ts : List Ty) : (joined ts).Nodup :=
  nodup_collapseBooleans (nodup_distinct _)

/-- **The members of a union** are those of the types but for `never`, unless the types cover
the truth values: then `boolean` stands for its literals. -/
theorem mem_joined : m ∈ joined ts ↔
    m = boolean ∧ Covers (ts.flatMap members) ∨
      m ∈ ts.flatMap members ∧ m.flags.contains Flags.never = false ∧
        ¬(m.flags.contains Flags.booleanLiteral = true ∧ Covers (ts.flatMap members)) := by
  have hkept : ∀ x, x ∈ distinct ((ts.flatMap members).filter (!·.flags.contains Flags.never)) ↔
      x ∈ ts.flatMap members ∧ x.flags.contains Flags.never = false := by
    intro x
    rw [mem_distinct_iff, List.mem_filter, Bool.not_eq_true']
  -- truth values are not `never`
  have hcovers : Covers (distinct ((ts.flatMap members).filter (!·.flags.contains Flags.never))) ↔
      Covers (ts.flatMap members) := by
    have hthree : ∀ x ∈ [boolean, booleanLiteral true, booleanLiteral false],
        x.flags.contains Flags.never = false := by decide
    have hiff : ∀ x ∈ [boolean, booleanLiteral true, booleanLiteral false],
        (x ∈ distinct ((ts.flatMap members).filter (!·.flags.contains Flags.never)) ↔
          x ∈ ts.flatMap members) := by
      intro x hx
      rw [hkept, and_iff_left (hthree x hx)]
    rw [Covers, Covers, hiff _ (by simp), hiff _ (by simp), hiff _ (by simp)]
  rw [joined, mem_collapseBooleans_iff, hcovers, hkept, and_assoc]

/-- A joined member is a member of one of the types, or `boolean`. -/
theorem atom_of_mem_joined (hts : ∀ t ∈ ts, t.Built) (hm : m ∈ joined ts) : m.Atom := by
  rcases mem_joined.mp hm with ⟨rfl, -⟩ | ⟨hm, -⟩
  · exact .basic (by simp [basics])
  · obtain ⟨t, ht, hmt⟩ := List.mem_flatMap.mp hm
    exact (hts t ht).atom_of_mem m hmt

theorem members_ofMembers (h : ∀ m ∈ ms, m.Atom) :
    (ofMembers ms).members = if ms = [] then [never] else ms := by
  match ms, h with
  | [], _ => exact members_of_isUnion_eq_false rfl
  | [t], h => exact (h t (List.mem_singleton_self t)).members
  | t :: t' :: ts, _ => exact members_union (t :: t' :: ts)

/-- Joined members make up an atom, unless there are two of them. -/
theorem ofMembers_eq_union_or_atom (h : ∀ m ∈ ms, m.Atom) :
    (ofMembers ms).Atom ∨ 2 ≤ ms.length ∧ ofMembers ms = .union ms := by
  match ms, h with
  | [], _ => exact .inl (.basic (by simp [ofMembers, basics]))
  | [t], h => exact .inl (h t (List.mem_singleton_self t))
  | t :: t' :: ts, _ => exact .inr ⟨by simp, rfl⟩

/-- **A union of types is an atom or a union of two atoms or more,** and then none of the types
is `any`. -/
theorem join_eq_union_or_atom (hts : ∀ t ∈ ts, t.Built) :
    (join ts).Atom ∨ (∀ t ∈ ts, t.isAny = false) ∧ 2 ≤ (joined ts).length ∧
      join ts = .union (joined ts) := by
  rcases join_cases ts with heq | ⟨hany, heq⟩
  · rw [heq]
    exact .inl (.basic (by simp [basics]))
  · rw [heq]
    exact (ofMembers_eq_union_or_atom fun m hm => atom_of_mem_joined hts hm).imp_right (.intro hany)

/-- What is joined is found among the members of the union, or it is `never` or a literal that
`boolean` stands for. -/
theorem mem_members_join_of_mem (hts : ∀ t ∈ ts, t.Built) (hany : ∀ t ∈ ts, t.isAny = false)
    (ht : t ∈ ts) (hm : m ∈ t.members) :
    m = never ∨ m ∈ (join ts).members ∨
      (∃ value, m = booleanLiteral value) ∧ boolean ∈ (join ts).members := by
  have hatom := (hts t ht).atom_of_mem m hm
  have hflat : m ∈ ts.flatMap members := List.mem_flatMap.mpr ⟨t, ht, hm⟩
  have hjoined : ∀ x ∈ joined ts, x ∈ (join ts).members := by
    intro x hx
    rw [join_of_not_any hany, members_ofMembers fun y hy => atom_of_mem_joined hts hy,
      if_neg (List.ne_nil_of_mem hx)]
    exact hx
  by_cases hnever : m.flags.contains Flags.never = true
  · exact .inl (hatom.eq_never hnever)
  · refine .inr ?_
    by_cases hgone : m.flags.contains Flags.booleanLiteral = true ∧ Covers (ts.flatMap members)
    · exact .inr ⟨hatom.eq_booleanLiteral hgone.1,
        hjoined _ (mem_joined.mpr (.inl ⟨rfl, hgone.2⟩))⟩
    · exact .inl (hjoined _ (mem_joined.mpr
        (.inr ⟨hflat, Bool.eq_false_iff.mpr hnever, hgone⟩)))

/-- A member of a union is `never`, a member of what was joined, or `boolean` for both of its
literals. -/
theorem mem_of_mem_members_join (hts : ∀ t ∈ ts, t.Built) (hany : ∀ t ∈ ts, t.isAny = false)
    (hm : m ∈ (join ts).members) :
    m = never ∨ m ∈ ts.flatMap members ∨
      m = boolean ∧ ∀ value, booleanLiteral value ∈ ts.flatMap members := by
  rw [join_of_not_any hany, members_ofMembers fun y hy => atom_of_mem_joined hts hy] at hm
  split at hm
  · exact .inl (List.mem_singleton.mp hm)
  · refine .inr ?_
    rcases mem_joined.mp hm with ⟨rfl, hmem | ⟨htrue, hfalse⟩⟩ | ⟨hm, -⟩
    · exact .inl hmem
    · exact .inr ⟨rfl, fun value => by cases value <;> assumption⟩
    · exact .inl hm

/-! ### Types that are built up -/

/-- A type is an atom or a union. -/
theorem Built.atom_or_union (h : t.Built) : t.Atom ∨ ∃ ms, 2 ≤ ms.length ∧ t = .union ms := by
  refine h.induction_join (fun a ha => .inl ha) fun ts hts _ => ?_
  exact (join_eq_union_or_atom hts).imp_right fun ⟨_, htwo, heq⟩ => ⟨_, htwo, heq⟩

theorem Built.members_ne_nil (h : t.Built) : t.members ≠ [] := by
  rcases h.atom_or_union with hatom | ⟨ms, htwo, rfl⟩
  · rw [hatom.members]
    exact List.cons_ne_nil _ _
  · rw [members_union]
    rintro rfl
    simp at htwo

end Ty

end ScriptLint
