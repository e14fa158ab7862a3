import ScriptLint.Types.Assignable
/-!
# How deep types are compared

Whether one type fits into another is found by comparing members and
elements. Here one comparison is taken apart: what is done if the answers
for smaller types are given, and then the comparison that goes only so many
steps down and answers something else, whatever it is, for what lies deeper.
As far as the two types are high there is nothing deeper. And it has to go
that far: `boolean[][]` and `boolean[]` are told apart by their elements
only, level by level.

Key definitions: `Ty.height`, `Ty.assignableBy`, `Ty.assignableTo`, `Ty.arrayed`.
Key theorems: `Ty.assignable_eq_assignableBy`, `Ty.assignableTo_eq`, `Ty.assignableTo_arrayed`.
-/

namespace ScriptLint.Ty

mutual

/-- The number of types one inside another, this one included. -/
def height : Ty → Nat
  | .plain _ _ => 1
  | .array element => element.height + 1
  | .union members => heightAll members + 1

/-- The height of the highest type of a list. -/
def heightAll : List Ty → Nat
  | [] => 0
  | t :: ts => max t.height (heightAll ts)

end

variable {s t m : Ty}

theorem height_pos (t : Ty) : 0 < t.height := by
  cases t with
  | plain _ _ => exact Nat.one_pos
  | array _ => exact Nat.succ_pos _
  | union _ => exact Nat.succ_pos _

theorem height_le_heightAll {ts : List Ty} (h : m ∈ ts) : m.height ≤ heightAll ts := by
  induction ts with
  | nil => cases h
  | cons t ts ih =>
    rw [heightAll]
    rcases List.mem_cons.mp h with rfl | h
    · exact Nat.le_max_left _ _
    · exact Nat.le_trans (ih h) (Nat.le_max_right _ _)

theorem height_lt_of_mem_parts (h : m ∈ t.parts) : m.height < t.height := by
  cases t with
  | plain _ _ => cases h
  | array _ => cases h
  | union ms => exact Nat.lt_succ_of_le (height_le_heightAll h)

/-! ### One comparison -/

/-- Whether a value fits, if `inner` gives the answers for smaller types. -/
def assignableBy (inner : Ty → Ty → Bool) (source target : Ty) : Bool :=
  if target.flags.intersects (Flags.any ||| Flags.unknown)
      || source.flags.intersects (Flags.any ||| Flags.never) then true
  else if source.isUnion then source.parts.all fun m => inner m target
  else if target.isUnion then target.parts.any fun m => inner source m
  else if source = target ∨ source.widened = target then true
  else if target.flags.contains Flags.void then source.flags.contains Flags.undefined
  else
    match source, target with
    | .array s, .array t => inner s t
    | source, target =>
      target.flags.contains Flags.object && fitsNamedObject source.flags target.display

/-- Types are compared by comparing smaller ones. -/
theorem assignable_eq_assignableBy (s t : Ty) : s.assignable t = assignableBy assignable s t := by
  rewrite [assignable.eq_def, assignableBy.eq_def,
    List.all_subtype (g := fun m => m.assignable t) fun _ _ => rfl,
    List.any_subtype (g := fun m => s.assignable m) fun _ _ => rfl,
    List.unattach_attach, List.unattach_attach]
  rfl

theorem assignableBy_congr {f g : Ty → Ty → Bool}
    (h : ∀ s' t', s'.height + t'.height < s.height + t.height → f s' t' = g s' t') :
    assignableBy f s t = assignableBy g s t := by
  have hsource : (s.parts.all fun m => f m t) = s.parts.all fun m => g m t := by
    rw [Bool.eq_iff_iff, List.all_eq_true, List.all_eq_true]
    exact forall₂_congr fun m hm => by
      rw [h m t (Nat.add_lt_add_right (height_lt_of_mem_parts hm) _)]
  have htarget : (t.parts.any fun m => f s m) = t.parts.any fun m => g s m := by
    rw [Bool.eq_iff_iff, List.any_eq_true, List.any_eq_true]
    exact exists_congr fun m => and_congr_right fun hm => by
      rw [h s m (Nat.add_lt_add_left (height_lt_of_mem_parts hm) _)]
  unfold assignableBy
  rw [hsource, htarget]
  cases s with
  | plain _ _ => rfl
  | union _ => rfl
  | array s =>
    cases t with
    | plain _ _ => rfl
    | union _ => rfl
    | array t =>
      have helements : f s t = g s t := h s t (by simp only [height]; omega)
      simp only [helements]

/-! ### Comparisons inside one another -/

/-- Whether a value fits, found with `limit` comparisons inside one another and by `beyond` from
there on. -/
def assignableTo (beyond : Ty → Ty → Bool) : Nat → Ty → Ty → Bool
  | 0 => beyond
  | limit + 1 => assignableBy (assignableTo beyond limit)

/-- **No comparison goes deeper than the two types are high.** -/
theorem assignableTo_eq (beyond : Ty → Ty → Bool) : ∀ (limit : Nat) (s t : Ty),
    s.height + t.height ≤ limit + 1 → assignableTo beyond limit s t = s.assignable t
  | 0, s, t, h => by
    have hs := s.height_pos
    have ht := t.height_pos
    omega
  | limit + 1, s, t, h => by
    rw [assignableTo, assignable_eq_assignableBy]
    exact assignableBy_congr fun s' t' hlt => assignableTo_eq beyond limit s' t' (by omega)

/-! ### Arrays of arrays -/

/-- `boolean` with the given number of brackets behind it. -/
def arrayed : Nat → Ty
  | 0 => boolean
  | n + 1 => .array (arrayed n)

theorem height_arrayed (n : Nat) : (arrayed n).height = n + 1 := by
  induction n with
  | zero => rfl
  | succ n ih => rw [arrayed, height, ih]

/-- A type that is no union, and neither `any`, `never` nor a truth value, is the union of itself. -/
theorem join_singleton {t : Ty} (hany : t.isAny = false) (hunion : t.isUnion = false)
    (hnever : t.flags.contains Flags.never = false)
    (hliteral : t.flags.contains Flags.booleanLiteral = false) : join [t] = t := by
  have hmembers : collapseBooleans [t] = [t] := by
    unfold collapseBooleans
    split
    · simp [hliteral]
    · split
      · next hboth =>
        rw [← List.mem_singleton.mp hboth.1] at hliteral
        exact absurd hliteral (by decide)
      · rfl
  simp [join, members, distinct, hany, hunion, hnever, hmembers, ofMembers]

/-- Arrays are no literals and no unions. -/
theorem widened_array (t : Ty) : (array t).widened = .array t := by
  have hflags : Flags.object.contains Flags.union = false ∧
      Flags.object.contains Flags.booleanLiteral = false ∧
      Flags.object.contains Flags.numberLiteral = false ∧
      Flags.object.contains Flags.stringLiteral = false := by decide
  obtain ⟨hunion, hboolean, hnumber, hstring⟩ := hflags
  simp [widened, base, isUnion, flags, hunion, hboolean, hnumber, hstring]

theorem join_arrayed (n : Nat) : join [arrayed n] = arrayed n := by
  cases n with
  | zero => exact join_singleton rfl rfl rfl rfl
  | succ n =>
    have hflags : Flags.object.intersects Flags.any = false ∧
        Flags.object.contains Flags.union = false ∧ Flags.object.contains Flags.never = false ∧
        Flags.object.contains Flags.booleanLiteral = false := by decide
    obtain ⟨hany, hunion, hnever, hliteral⟩ := hflags
    exact join_singleton hany hunion hnever hliteral

theorem widened_arrayed (n : Nat) : (arrayed n).widened = arrayed n := by
  cases n with
  | zero => rfl
  | succ n => exact widened_array _

/-- Arrays that differ are compared by their elements. -/
theorem assignableBy_array {inner : Ty → Ty → Bool} (h : s ≠ t) :
    assignableBy inner (.array s) (.array t) = inner s t := by
  have hflags : Flags.object.intersects (Flags.any ||| Flags.unknown) = false ∧
      Flags.object.intersects (Flags.any ||| Flags.never) = false ∧
      Flags.object.contains Flags.union = false ∧ Flags.object.contains Flags.void = false := by decide
  obtain ⟨hany, hnever, hunion, hvoid⟩ := hflags
  simp [assignableBy, widened_array, isUnion, flags, hany, hnever, hunion, hvoid, h]

theorem arrayed_ne (n : Nat) : arrayed (n + 1) ≠ arrayed n := by
  intro heq
  have hheight := congrArg height heq
  rw [height_arrayed, height_arrayed] at hheight
  omega

/-- Each level of arrays is one comparison more. -/
theorem assignableTo_arrayed (beyond : Ty → Ty → Bool) (limit n : Nat) :
    assignableTo beyond limit (arrayed (n + limit + 1)) (arrayed (n + limit)) =
      beyond (arrayed (n + 1)) (arrayed n) := by
  induction limit with
  | zero => rfl
  | succ limit ih => exact (assignableBy_array (arrayed_ne _)).trans ih

/-- An array of arrays does not fit into one with fewer levels. -/
theorem not_assignable_arrayed (n : Nat) : (arrayed (n + 1)).assignable (arrayed n) = false := by
  induction n with
  | zero => decide +kernel
  | succ n ih =>
    rw [assignable_eq_assignableBy]
    exact (assignableBy_array (arrayed_ne n)).trans ih

end ScriptLint.Ty
