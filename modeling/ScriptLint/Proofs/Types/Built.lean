import ScriptLint.Types.Truthiness
/-!
# Types that are built up

All types of a script are built from the basic types, the literals and the
named objects, by making arrays and by taking unions. Such a type is plain,
an array or a union; the members of a union are built up themselves, and
none of them is a union. So what is done to a type member by member ends
there, and the widened type has no literal left.

Key definitions: `Ty.Built`, `Ty.Simple`, `Ty.LiteralFree`.
Key theorems: `Ty.Built.simple_of_mem`, `Ty.Built.widened`, `Ty.Built.literalFree_widened`.
-/

namespace ScriptLint

namespace Ty

variable {t m : Ty} {ts : List Ty}

/-- The types that have a word of their own. -/
def basics : List Ty :=
  [any, unknown, boolean, number, string, void, never, null, undefined]

/-- A type made from basic types, literals and objects by arrays and unions. -/
inductive Built : Ty → Prop where
  | basic {t : Ty} : t ∈ basics → Built t
  | booleanLiteral (value : Bool) : Built (booleanLiteral value)
  | numberLiteral (value : Binary64) : Built (numberLiteral value)
  | stringLiteral (value : String) : Built (stringLiteral value)
  | object (name : String) : Built (object name)
  | array {t : Ty} : Built t → Built (.array t)
  | join {ts : List Ty} : (∀ t ∈ ts, Built t) → Built (join ts)

theorem Built.any : Built Ty.any := .basic (by simp [basics])

theorem Built.boolean : Built Ty.boolean := .basic (by simp [basics])

theorem Built.number : Built Ty.number := .basic (by simp [basics])

theorem Built.string : Built Ty.string := .basic (by simp [basics])

theorem Built.void : Built Ty.void := .basic (by simp [basics])

theorem Built.never : Built Ty.never := .basic (by simp [basics])

/-- The flags that a type has which is no union. -/
def simpleFlags : List Flags :=
  [Flags.any, Flags.unknown, Flags.string, Flags.number, Flags.boolean, Flags.stringLiteral,
    Flags.numberLiteral, Flags.booleanLiteral, Flags.void, Flags.undefined, Flags.null,
    Flags.never, Flags.object]

/-- A type that can be the member of a union. -/
structure Simple (t : Ty) : Prop where
  built : t.Built
  flags : t.flags ∈ simpleFlags
  element : ∀ e, t.element? = some e → e.Built

/-- Neither the type nor one of its members is a literal. -/
def LiteralFree (t : Ty) : Prop :=
  ∀ m ∈ t.members, m.flags.intersects Flags.literal = false

/-! ### Members -/

theorem isUnion_eq_false (h : t.flags ∈ simpleFlags) : t.isUnion = false := by
  have hall : ∀ flags ∈ simpleFlags, flags.contains Flags.union = false := by decide
  exact hall _ h

theorem members_of_isUnion_eq_false (h : t.isUnion = false) : t.members = [t] := by
  rw [members, h]
  rfl

theorem parts_eq_members (h : t.isUnion = true) : t.parts = t.members := by
  rw [members, h]
  rfl

theorem Simple.members (h : t.Simple) : t.members = [t] :=
  members_of_isUnion_eq_false (isUnion_eq_false h.flags)

theorem members_union (ms : List Ty) : (union ms).members = ms := by
  have h : (union ms).isUnion = true := by
    show Flags.union.contains Flags.union = true
    decide
  rw [members, h]
  rfl

theorem mem_distinct : m ∈ distinct ts → m ∈ ts := by
  induction ts with
  | nil => exact id
  | cons t ts ih =>
    intro hm
    rw [distinct, List.mem_cons, List.mem_filter] at hm
    rw [List.mem_cons]
    exact hm.imp_right fun h => ih h.1

theorem mem_collapseBooleans (h : m ∈ collapseBooleans ts) : m ∈ ts ∨ m = boolean := by
  unfold collapseBooleans at h
  split at h
  · exact .inl (List.mem_filter.mp h).1
  · split at h
    · rw [List.mem_append, List.mem_singleton, List.mem_filter] at h
      exact h.imp_left And.left
    · exact .inl h

/-- The members of a type with the given members. -/
theorem mem_members_ofMembers (hts : ∀ t ∈ ts, t.Simple) (h : m ∈ (ofMembers ts).members) :
    m = never ∨ m ∈ ts := by
  match ts, h with
  | [], h =>
    refine .inl ?_
    rw [ofMembers, members_of_isUnion_eq_false rfl, List.mem_singleton] at h
    exact h
  | [t], h =>
    rw [ofMembers, (hts t (List.mem_singleton_self t)).members] at h
    exact .inr h
  | t :: t' :: ts, h =>
    have hunion : ofMembers (t :: t' :: ts) = .union (t :: t' :: ts) := rfl
    rw [hunion, members_union] at h
    exact .inr h

/-- A member of a union is a member of what was joined, unless it is one of three basic types. -/
theorem mem_members_join (hts : ∀ t ∈ ts, ∀ m ∈ t.members, m.Simple)
    (h : m ∈ (join ts).members) :
    m ∈ [any, never, boolean] ∨ ∃ t ∈ ts, m ∈ t.members := by
  have hboolean : boolean.Simple := ⟨.boolean, by decide, by simp [boolean, element?]⟩
  unfold join at h
  split at h
  · rw [members_of_isUnion_eq_false rfl, List.mem_singleton] at h
    simp [h]
  · have hcollapsed : ∀ x ∈ collapseBooleans (distinct
        ((ts.flatMap members).filter (!·.flags.contains Flags.never))),
        x = boolean ∨ ∃ t ∈ ts, x ∈ t.members := by
      intro x hx
      rcases mem_collapseBooleans hx with hx | hx
      · exact .inr (List.mem_flatMap.mp (List.mem_filter.mp (mem_distinct hx)).1)
      · exact .inl hx
    have hm := mem_members_ofMembers ?_ h
    · rcases hm with rfl | hm
      · simp
      · rcases hcollapsed m hm with rfl | hfound
        · simp
        · exact .inr hfound
    · intro x hx
      rcases hcollapsed x hx with rfl | ⟨t, ht, hxt⟩
      · exact hboolean
      · exact hts t ht x hxt

namespace Built

/-- **The members of a type are built up, and none is a union.** -/
theorem simple_of_mem (h : t.Built) : ∀ m ∈ t.members, m.Simple := by
  -- a type that is no union is its own member
  have hself : ∀ {x : Ty}, x.Simple → ∀ m ∈ x.members, m.Simple := by
    intro x hx m hm
    rw [hx.members, List.mem_singleton] at hm
    rwa [hm]
  have hbasic : ∀ x ∈ basics, x.flags ∈ simpleFlags ∧ x.element? = none := by decide
  induction h with
  | @basic t ht =>
    obtain ⟨hflags, helement⟩ := hbasic t ht
    exact hself ⟨.basic ht, hflags, by simp [helement]⟩
  | booleanLiteral value =>
    exact hself ⟨.booleanLiteral value, by simp [flags, Ty.booleanLiteral, simpleFlags],
      by simp [Ty.booleanLiteral, element?]⟩
  | numberLiteral value =>
    exact hself ⟨.numberLiteral value, by simp [flags, Ty.numberLiteral, simpleFlags],
      by simp [Ty.numberLiteral, element?]⟩
  | stringLiteral value =>
    exact hself ⟨.stringLiteral value, by simp [flags, Ty.stringLiteral, simpleFlags],
      by simp [Ty.stringLiteral, element?]⟩
  | object name =>
    exact hself ⟨.object name, by simp [flags, Ty.object, simpleFlags],
      by simp [Ty.object, element?]⟩
  | @array t ht _ =>
    refine hself ⟨.array ht, by simp [flags, simpleFlags], fun e he => ?_⟩
    rwa [← Option.some.inj he]
  | @join ts _ ih =>
    intro m hm
    rcases mem_members_join ih hm with hm | ⟨t, ht, hmt⟩
    · have hthree : ∀ x ∈ [Ty.any, Ty.never, Ty.boolean], x ∈ basics := by decide
      obtain ⟨hflags, helement⟩ := hbasic m (hthree m hm)
      exact ⟨.basic (hthree m hm), hflags, by simp [helement]⟩
    · exact ih t ht m hmt

theorem simple_of_isUnion_eq_false (h : t.Built) (hunion : t.isUnion = false) : t.Simple := by
  refine h.simple_of_mem t ?_
  rw [members_of_isUnion_eq_false hunion]
  exact List.mem_singleton_self t

theorem element (h : t.Built) {e : Ty} (he : t.element? = some e) : e.Built := by
  have hunion : t.isUnion = false := by
    cases t with
    | array _ => exact isUnion_eq_false (by simp [flags, simpleFlags])
    | plain _ _ => cases he
    | union _ => cases he
  exact (h.simple_of_isUnion_eq_false hunion).element e he

/-! ### Operations -/

/-- The union of what is made of each member. -/
theorem join_map (h : t.Built) {f : Ty → Ty} (hf : ∀ m : Ty, m.Built → (f m).Built) :
    (Ty.join (t.members.map f)).Built := by
  refine .join fun x hx => ?_
  obtain ⟨m, hm, rfl⟩ := List.mem_map.mp hx
  exact hf m (h.simple_of_mem m hm).built

theorem base (h : t.Built) : t.base.Built := by
  unfold Ty.base
  split
  · exact .boolean
  · split
    · exact .number
    · split
      · exact .string
      · exact h

theorem widened (h : t.Built) : t.widened.Built := by
  unfold Ty.widened
  by_cases hunion : t.isUnion = true
  · rw [if_pos hunion, parts_eq_members hunion]
    exact h.join_map fun _ => base
  · rw [if_neg hunion]
    exact h.base

theorem nonNullable (h : t.Built) : t.nonNullable.Built := by
  unfold Ty.nonNullable
  split
  · exact .never
  · by_cases hunion : t.isUnion = true
    · rw [if_pos hunion, parts_eq_members hunion]
      exact .join fun m hm => (h.simple_of_mem m (List.mem_filter.mp hm).1).built
    · rw [if_neg hunion]
      exact h

theorem falsyPart (h : t.Built) : t.falsyPart.Built := by
  refine h.join_map fun m hm => ?_
  unfold falsyMember
  split
  · exact hm
  · split
    · exact .booleanLiteral false
    · split
      · exact .numberLiteral Binary64.zero
      · split
        · exact .stringLiteral ""
        · split
          · exact hm
          · exact .never

theorem truthyPart (h : t.Built) : t.truthyPart.Built := by
  refine h.join_map fun m hm => ?_
  unfold truthyMember
  split
  · exact hm
  · split
    · exact .booleanLiteral true
    · split
      · exact .never
      · exact hm

theorem join_pair {s : Ty} (hs : s.Built) (ht : t.Built) : (Ty.join [s, t]).Built := by
  refine .join fun x hx => ?_
  simp only [List.mem_cons, List.not_mem_nil, or_false] at hx
  rcases hx with rfl | rfl
  · exact hs
  · exact ht

theorem join_widened (h : ∀ t ∈ ts, t.Built) : (Ty.join (ts.map Ty.widened)).Built := by
  refine .join fun x hx => ?_
  obtain ⟨t, ht, rfl⟩ := List.mem_map.mp hx
  exact (h t ht).widened

/-- The base of a member is no literal. -/
theorem literalFree_base (h : t.Simple) : ∀ m ∈ t.base.members,
    m.flags.intersects Flags.literal = false := by
  have hflags : t.base.flags.intersects Flags.literal = false := by
    have hall : ∀ flags ∈ simpleFlags, flags.contains Flags.booleanLiteral = false →
        flags.contains Flags.numberLiteral = false → flags.contains Flags.stringLiteral = false →
        flags.intersects Flags.literal = false := by decide
    unfold Ty.base
    split
    · rfl
    · split
      · rfl
      · split
        · rfl
        · rename_i hb hn hs
          exact hall _ h.flags (Bool.eq_false_iff.mpr hb) (Bool.eq_false_iff.mpr hn)
            (Bool.eq_false_iff.mpr hs)
  have hsimple : t.base.isUnion = false := by
    have hunion := isUnion_eq_false h.flags
    unfold Ty.base
    split
    · rfl
    · split
      · rfl
      · split
        · rfl
        · exact hunion
  intro m hm
  rw [members_of_isUnion_eq_false hsimple, List.mem_singleton] at hm
  rwa [hm]

/-- **A widened type has no literal,** neither as itself nor as a member. -/
theorem literalFree_widened (h : t.Built) : t.widened.LiteralFree := by
  intro m hm
  unfold Ty.widened at hm
  by_cases hunion : t.isUnion = true
  · rw [if_pos hunion, parts_eq_members hunion] at hm
    have hbase : ∀ x ∈ t.members.map Ty.base, ∀ y ∈ x.members, y.Simple := by
      intro x hx
      obtain ⟨p, hp, rfl⟩ := List.mem_map.mp hx
      exact (h.simple_of_mem p hp).built.base.simple_of_mem
    rcases mem_members_join hbase hm with hm | ⟨x, hx, hmx⟩
    · have hthree : ∀ x ∈ [Ty.any, Ty.never, Ty.boolean],
          x.flags.intersects Flags.literal = false := by decide
      exact hthree m hm
    · obtain ⟨p, hp, rfl⟩ := List.mem_map.mp hx
      exact literalFree_base (h.simple_of_mem p hp) m hmx
  · rw [if_neg hunion] at hm
    exact literalFree_base (h.simple_of_isUnion_eq_false (Bool.eq_false_iff.mpr hunion)) m hm

end Built

end Ty

end ScriptLint
