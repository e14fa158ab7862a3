import ScriptLint.Proofs.Types.Assignability
/-!
# Laws of unions

The order in which types are joined shows in the order of the members, and in
nothing else. For what a union is made of comes down to what the members of
its types stand for: themselves; the truth values, where `boolean` or both of
its literals are among them; and everything, where `any` is. Two lists of
types that stand for the same types have unions with the same members
(`reordered_join`), and a union stands for what its types stand for
(`under_members_join`, `members_join_under`). From these two facts a union of
unions is the union of all (`reordered_join_flatten`), and neither the order
of the types nor how often they are named counts.

Key definitions: `Ty.Reordered`, `Ty.StandFor`, `Ty.Under`.
Key theorems: `Ty.reordered_join`, `Ty.reordered_join_flatten`, `Ty.join_laws`.
-/

namespace ScriptLint

namespace Ty

variable {s t u m : Ty} {xs ys zs ts ms ns : List Ty}

/-! ### Types that differ in order -/

/-- The same type, or a union of the same members in another order. -/
inductive Reordered : Ty → Ty → Prop where
  | refl (t : Ty) : Reordered t t
  | union {ms ns : List Ty} : ms.Perm ns → Reordered (.union ms) (.union ns)

namespace Reordered

theorem symm (h : s.Reordered t) : t.Reordered s := by
  cases h with
  | refl => exact .refl s
  | union h => exact .union h.symm

theorem trans (h : s.Reordered t) (h' : t.Reordered u) : s.Reordered u := by
  cases h with
  | refl => exact h'
  | union h =>
    cases h' with
    | refl => exact .union h
    | union h' => exact .union (h.trans h')

theorem members (h : s.Reordered t) : s.members.Perm t.members := by
  cases h with
  | refl => exact .refl _
  | union h =>
    rw [members_union, members_union]
    exact h

/-- The same members in another order make up the same type in another order. -/
theorem ofMembers (h : ms.Perm ns) : (Ty.ofMembers ms).Reordered (Ty.ofMembers ns) := by
  match ms, ns, h with
  | [], ns, h =>
    rw [h.nil_eq]
    exact .refl _
  | [m], ns, h =>
    rw [h.singleton_eq]
    exact .refl _
  | m :: m' :: ms, [], h => exact absurd h.length_eq (by simp)
  | m :: m' :: ms, [n], h => exact absurd h.length_eq (by simp)
  | m :: m' :: ms, n :: n' :: ns, h => exact .union h

end Reordered

/-! ### What types stand for -/

/-- The types of the truth values: `boolean` and its literals. -/
def truthTypes : List Ty :=
  [boolean, booleanLiteral true, booleanLiteral false]

/-- The types of a list stand for a type: it is one of them, or `any` is, or they cover the truth
values and it is the type of some of these. -/
def StandFor (ms : List Ty) (m : Ty) : Prop :=
  m ∈ ms ∨ any ∈ ms ∨ m ∈ truthTypes ∧ Covers ms

/-- The second list stands for all types of the first one; `never` does not count. -/
def Under (xs ys : List Ty) : Prop :=
  ∀ m ∈ xs, m.flags.contains Flags.never = false → StandFor ys m

namespace StandFor

theorem of_mem (h : m ∈ ms) : StandFor ms m :=
  .inl h

theorem of_any (h : any ∈ ms) : StandFor ms m :=
  .inr (.inl h)

theorem of_covers (hm : m ∈ truthTypes) (h : Covers ms) : StandFor ms m :=
  .inr (.inr ⟨hm, h⟩)

/-- Nothing stands for `any` but itself. -/
theorem any_mem (h : StandFor ms any) : any ∈ ms := by
  rcases h with hmem | hmem | ⟨htruth, -⟩
  · exact hmem
  · exact hmem
  · exact absurd htruth (by decide)

theorem mono (hsub : ms ⊆ ns) (h : StandFor ms m) : StandFor ns m := by
  rcases h with hmem | hany | ⟨htruth, hcovers⟩
  · exact of_mem (hsub hmem)
  · exact of_any (hsub hany)
  · refine of_covers htruth ?_
    exact hcovers.imp (fun h => hsub h) fun h => ⟨hsub h.1, hsub h.2⟩

/-- What stands for `boolean` stands for all truth values. -/
theorem covers_of_boolean (h : StandFor ms boolean) : any ∈ ms ∨ Covers ms := by
  rcases h with hmem | hany | ⟨-, hcovers⟩
  · exact .inr (.inl hmem)
  · exact .inl hany
  · exact .inr hcovers

/-- So does what stands for both literals. -/
theorem covers_of_literals (htrue : StandFor ms (booleanLiteral true))
    (hfalse : StandFor ms (booleanLiteral false)) : any ∈ ms ∨ Covers ms := by
  rcases htrue with htrue | hany | ⟨-, hcovers⟩
  · rcases hfalse with hfalse | hany | ⟨-, hcovers⟩
    · exact .inr (.inr ⟨htrue, hfalse⟩)
    · exact .inl hany
    · exact .inr hcovers
  · exact .inl hany
  · exact .inr hcovers

end StandFor

namespace Under

theorem of_subset (h : xs ⊆ ys) : Under xs ys :=
  fun _ hm _ => .of_mem (h hm)

/-- A list stands for whatever the lists under it stand for. -/
theorem standFor (h : Under xs ys) (hm : StandFor xs m)
    (hnever : m.flags.contains Flags.never = false) : StandFor ys m := by
  have hfour : ∀ x ∈ any :: truthTypes, x.flags.contains Flags.never = false := by decide
  rcases hm with hmem | hany | ⟨htruth, hcovers⟩
  · exact h m hmem hnever
  · exact .of_any (h any hany (hfour any (by simp))).any_mem
  · have hcovered : any ∈ ys ∨ Covers ys := by
      rcases hcovers with hboolean | ⟨htrue, hfalse⟩
      · exact (h boolean hboolean (hfour _ (by simp [truthTypes]))).covers_of_boolean
      · exact (h _ htrue (hfour _ (by simp [truthTypes]))).covers_of_literals
          (h _ hfalse (hfour _ (by simp [truthTypes])))
    rcases hcovered with hany | hcovers
    · exact .of_any hany
    · exact .of_covers htruth hcovers

theorem trans (h : Under xs ys) (h' : Under ys zs) : Under xs zs :=
  fun m hm hnever => h'.standFor (h m hm hnever) hnever

/-- Lists that are put together from lists under each other are so too. -/
theorem flatMap {α : Type} {l : List α} {f g : α → List Ty}
    (h : ∀ x ∈ l, Under (f x) (g x)) : Under (l.flatMap f) (l.flatMap g) := by
  intro m hm hnever
  obtain ⟨x, hx, hmx⟩ := List.mem_flatMap.mp hm
  refine (h x hx m hmx hnever).mono fun n hn => ?_
  exact List.mem_flatMap.mpr ⟨x, hx, hn⟩

end Under

/-- An atom fits into a type whose members stand for it. -/
theorem StandFor.assignable (h : StandFor t.members m) (hm : m.Atom) (ht : t.Built) :
    m.assignable t = true := by
  rcases h with hmem | hany | ⟨htruth, hcovers⟩
  · exact (hm.assignable_iff_exists ht).mpr ⟨m, hmem, hm.built.assignable_self⟩
  · rw [ht.eq_any_of_mem hany]
    exact assignable_of_top (by decide)
  · have hboolean : boolean ∈ t.members := hcovers.resolve_right ht.not_both_literals
    have hthree : ∀ x ∈ truthTypes, x.assignable boolean = true := by decide +kernel
    exact (hm.assignable_iff_exists ht).mpr ⟨boolean, hboolean, hthree m htruth⟩

/-- **A type fits into a type whose members stand for its own.** -/
theorem Under.assignable (h : Under s.members t.members) (hs : s.Built) (ht : t.Built) :
    s.assignable t = true := by
  rw [assignable_iff_members hs ht]
  intro m hm
  have hatom := hs.atom_of_mem m hm
  rw [← hatom.assignable_iff_exists ht]
  by_cases hnever : m.flags.contains Flags.never = true
  · rw [hatom.eq_never hnever]
    exact assignable_of_bottom (by decide)
  · exact (h m hm (Bool.eq_false_iff.mpr hnever)).assignable hatom ht

theorem Reordered.under (h : s.Reordered t) : Under s.members t.members :=
  .of_subset h.members.subset

/-! ### Unions by what they stand for -/

theorem join_eq_any (hts : ∀ t ∈ ts, t.Built) (h : any ∈ ts.flatMap members) : join ts = any := by
  obtain ⟨t, ht, hmt⟩ := List.mem_flatMap.mp h
  obtain rfl := (hts t ht).eq_any_of_mem hmt
  exact join_of_any ⟨any, ht, by decide⟩

theorem isAny_eq_false_of_not_mem (hts : ∀ t ∈ ts, t.Built) (h : any ∉ ts.flatMap members) :
    ∀ t ∈ ts, t.isAny = false := by
  intro t ht
  refine (hts t ht).isAny_eq_false ?_
  rintro rfl
  exact h (List.mem_flatMap.mpr ⟨any, ht, by decide⟩)

/-- The members of a union are the types that its types stand for, `never` apart, with no literal
beside `boolean`. -/
theorem mem_joined_iff (hany : any ∉ ts.flatMap members) :
    m ∈ joined ts ↔ m.flags.contains Flags.never = false ∧ StandFor (ts.flatMap members) m ∧
      ¬(m.flags.contains Flags.booleanLiteral = true ∧
        StandFor (ts.flatMap members) boolean) := by
  have hboolean : StandFor (ts.flatMap members) boolean ↔ Covers (ts.flatMap members) :=
    ⟨fun h => h.covers_of_boolean.resolve_left hany, .of_covers (by simp [truthTypes])⟩
  rw [mem_joined, hboolean]
  constructor
  · rintro (⟨rfl, hcovers⟩ | ⟨hm, hnever, hkept⟩)
    · exact ⟨by decide, hboolean.mpr hcovers, fun h => absurd h.1 (by decide)⟩
    · exact ⟨hnever, .of_mem hm, hkept⟩
  · rintro ⟨hnever, hm | hmem | ⟨htruth, hcovers⟩, hkept⟩
    · exact .inr ⟨hm, hnever, hkept⟩
    · exact absurd hmem hany
    · have hliteral : m = boolean ∨ m.flags.contains Flags.booleanLiteral = true := by
        have hthree : ∀ x ∈ truthTypes,
            x = boolean ∨ x.flags.contains Flags.booleanLiteral = true := by decide
        exact hthree m htruth
      rcases hliteral with rfl | hliteral
      · exact .inl ⟨rfl, hcovers⟩
      · exact absurd ⟨hliteral, hcovers⟩ hkept

/-- **What lists of types stand for determines their unions,** up to the order of the members. -/
theorem reordered_join (hxs : ∀ t ∈ xs, t.Built) (hys : ∀ t ∈ ys, t.Built)
    (h : Under (xs.flatMap members) (ys.flatMap members))
    (h' : Under (ys.flatMap members) (xs.flatMap members)) :
    (join xs).Reordered (join ys) := by
  by_cases hany : any ∈ xs.flatMap members
  · have hany' : any ∈ ys.flatMap members := (h any hany (by decide)).any_mem
    rw [join_eq_any hxs hany, join_eq_any hys hany']
    exact .refl any
  · have hany' : any ∉ ys.flatMap members := fun hmem => hany (h' any hmem (by decide)).any_mem
    rw [join_of_not_any (isAny_eq_false_of_not_mem hxs hany),
      join_of_not_any (isAny_eq_false_of_not_mem hys hany')]
    refine .ofMembers ((List.perm_ext_iff_of_nodup (nodup_joined xs) (nodup_joined ys)).mpr ?_)
    intro m
    have hsame : ∀ x : Ty, x.flags.contains Flags.never = false →
        (StandFor (xs.flatMap members) x ↔ StandFor (ys.flatMap members) x) :=
      fun x hnever => ⟨fun hx => h.standFor hx hnever, fun hx => h'.standFor hx hnever⟩
    rw [mem_joined_iff hany, mem_joined_iff hany', hsame boolean (by decide)]
    refine and_congr_right fun hnever => ?_
    rw [hsame m hnever]

/-- A union stands for what is joined. -/
theorem under_members_join (hts : ∀ t ∈ ts, t.Built) :
    Under (ts.flatMap members) (join ts).members := by
  by_cases hany : any ∈ ts.flatMap members
  · rw [join_eq_any hts hany]
    exact fun _ _ _ => .of_any (by decide)
  · intro m hm hnever
    obtain ⟨t, ht, hmt⟩ := List.mem_flatMap.mp hm
    rcases mem_members_join_of_mem hts (isAny_eq_false_of_not_mem hts hany) ht hmt
      with rfl | hmem | ⟨⟨value, rfl⟩, hboolean⟩
    · exact absurd hnever (by decide)
    · exact .of_mem hmem
    · exact .of_covers (by cases value <;> simp [truthTypes]) (.inl hboolean)

/-- What is joined stands for the union. -/
theorem members_join_under (hts : ∀ t ∈ ts, t.Built) :
    Under (join ts).members (ts.flatMap members) := by
  by_cases hany : any ∈ ts.flatMap members
  · exact fun _ _ _ => .of_any hany
  · intro m hm hnever
    rcases mem_of_mem_members_join hts (isAny_eq_false_of_not_mem hts hany) hm
      with rfl | hmem | ⟨rfl, hboth⟩
    · exact absurd hnever (by decide)
    · exact .of_mem hmem
    · exact .of_covers (by simp [truthTypes]) (.inr ⟨hboth true, hboth false⟩)

/-! ### The laws -/

/-- **The union of unions is the union of all that they join,** up to order. -/
theorem reordered_join_flatten {tss : List (List Ty)} (h : ∀ ts ∈ tss, ∀ t ∈ ts, t.Built) :
    (join tss.flatten).Reordered (join (tss.map join)) := by
  have hflatten : tss.flatten.flatMap members = tss.flatMap (List.flatMap members) := by
    rw [List.flatMap_def, List.map_flatten, List.flatMap_def, List.flatten_flatten, List.map_map]
    rfl
  have hjoins : (tss.map join).flatMap members = tss.flatMap fun ts => (join ts).members :=
    List.flatMap_map ..
  refine reordered_join ?_ ?_ ?_ ?_
  · intro t ht
    obtain ⟨ts, hts, htts⟩ := List.mem_flatten.mp ht
    exact h ts hts t htts
  · intro t ht
    obtain ⟨ts, hts, rfl⟩ := List.mem_map.mp ht
    exact .join (h ts hts)
  · rw [hflatten, hjoins]
    exact .flatMap fun ts hts => under_members_join (h ts hts)
  · rw [hflatten, hjoins]
    exact .flatMap fun ts hts => members_join_under (h ts hts)

theorem reordered_join_append (hxs : ∀ t ∈ xs, t.Built) (hys : ∀ t ∈ ys, t.Built) :
    (join (xs ++ ys)).Reordered (join [join xs, join ys]) := by
  have hboth : ∀ ts ∈ [xs, ys], ∀ t ∈ ts, t.Built := by
    simpa using ⟨hxs, hys⟩
  simpa using reordered_join_flatten hboth

/-- Types that are found in each other's list have the same union. -/
theorem reordered_join_of_subset (hys : ∀ t ∈ ys, t.Built) (h : xs ⊆ ys) (h' : ys ⊆ xs) :
    (join xs).Reordered (join ys) := by
  have hflat : ∀ {as bs : List Ty}, as ⊆ bs → as.flatMap members ⊆ bs.flatMap members := by
    intro as bs hsub m hm
    obtain ⟨t, ht, hmt⟩ := List.mem_flatMap.mp hm
    exact List.mem_flatMap.mpr ⟨t, hsub ht, hmt⟩
  exact reordered_join (fun t ht => hys t (h ht)) hys (.of_subset (hflat h)) (.of_subset (hflat h'))

/-- **Union is associative, commutative and idempotent** up to the order of members, which makes
no difference to where a type fits. -/
theorem join_laws (xs ys : List Ty) (hxs : ∀ t ∈ xs, t.Built) (hys : ∀ t ∈ ys, t.Built) :
    (join (xs ++ ys)).Reordered (join [join xs, join ys]) ∧
    (xs.Perm ys → (join xs).Reordered (join ys)) ∧
    (join (xs ++ xs)).Reordered (join xs) ∧
    ∀ s t : Ty, s.Built → t.Built → s.Reordered t →
      s.members.Perm t.members ∧ s.assignable t = true ∧ t.assignable s = true := by
  refine ⟨reordered_join_append hxs hys, fun hperm => ?_, ?_, fun s t hs ht hst => ?_⟩
  · exact reordered_join_of_subset hys hperm.subset hperm.symm.subset
  · exact reordered_join_of_subset hxs (by simp) (by simp)
  · exact ⟨hst.members, hst.under.assignable hs ht, hst.symm.under.assignable ht hs⟩

/-- `true` and `false` joined first give `boolean | number`, and `number | boolean` otherwise; and
`boolean` keeps the place where it is named. -/
theorem join_laws_truth_values :
    join ([booleanLiteral true, booleanLiteral false] ++ [number]) = .union [number, boolean] ∧
    join [join [booleanLiteral true, booleanLiteral false], join [number]]
      = .union [boolean, number] ∧
    (Ty.union [number, boolean]).Reordered (.union [boolean, number]) ∧
    (join [boolean, number, booleanLiteral true]).Reordered
      (join [number, booleanLiteral true, boolean]) ∧
    (Ty.union [number, boolean]).assignable (.union [boolean, number]) = true := by
  have htruth : ∀ t ∈ [booleanLiteral true, booleanLiteral false], t.Built := by
    simp [Built.booleanLiteral]
  have hmixed : ∀ t ∈ [boolean, number, booleanLiteral true], t.Built := by
    simp [Built.boolean, Built.number, Built.booleanLiteral]
  have hswapped : ∀ t ∈ [number, booleanLiteral true, boolean], t.Built := by
    simp [Built.boolean, Built.number, Built.booleanLiteral]
  have hperm : [boolean, number, booleanLiteral true].Perm
      [number, booleanLiteral true, boolean] := by decide
  have hleft : join ([booleanLiteral true, booleanLiteral false] ++ [number])
      = .union [number, boolean] := by decide
  have hright : join [join [booleanLiteral true, booleanLiteral false], join [number]]
      = .union [boolean, number] := by decide
  obtain ⟨hassoc, -, -, hfit⟩ := join_laws _ [number] htruth (by simp [Built.number])
  rw [hleft, hright] at hassoc
  have hbuilt : (Ty.union [number, boolean]).Built := by
    rw [← hleft]
    exact .join (by simp [Built.number, Built.booleanLiteral])
  have hbuilt' : (Ty.union [boolean, number]).Built := by
    rw [← hright]
    exact .join_pair (.join htruth) (.join (by simp [Built.number]))
  exact ⟨hleft, hright, hassoc, (join_laws _ _ hmixed hswapped).2.1 hperm,
    (hfit _ _ hbuilt hbuilt' hassoc).2.1⟩

end Ty

end ScriptLint
