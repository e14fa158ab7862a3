import Mathlib.Data.List.Induction
import Mathlib.Data.List.Nodup
import ScriptLint.Rule.Registry
/-!
# The rules that are registered

Rules are registered one after the other, and an id may be registered more
than once. Of an id only the rule that was registered last is kept, and it
stands behind all rules that were registered before it. A registration puts a
rule under its id and leaves the other ids alone (`Registry.find?_register`);
it moves all earlier registrations one step into the past, so the rules stay
in the order of their ages (`Registry.ordered_registered`).

Key definitions: `Registry.registered`, `Registry.age`.
Key theorems: `Registry.find?_registered`, `Registry.ordered_registered`,
`Registry.mem_registered_iff`.
-/

namespace ScriptLint.Registry

/-- The registry after the given registrations. -/
def registered (rules : List Rule) : Registry :=
  rules.foldl register empty

/-- How many registrations ago the id was registered for the last time. -/
def age (rules : List Rule) (id : String) : Nat :=
  (rules.reverse.map Rule.id).idxOf id

theorem registered_concat (rules : List Rule) (rule : Rule) :
    registered (rules ++ [rule]) = (registered rules).register rule := by
  rw [registered, List.foldl_concat, registered]

/-! ### What stands under an id -/

/-- A registration puts the rule under its id, and leaves the other ids alone. -/
theorem find?_register (registry : Registry) (rule : Rule) (id : String) :
    (registry.register rule).find? id = if rule.id = id then some rule else registry.find? id := by
  unfold find? register
  rw [List.find?_append, List.find?_filter]
  by_cases hid : rule.id = id
  · have hnone : registry.rules.find?
        (fun r => decide ((r.id != rule.id) = true ∧ (r.id == id) = true)) = none := by
      simp [List.find?_eq_none, hid]
    rw [hnone, if_pos hid]
    simp [hid]
  · have hsame : (fun r : Rule => decide ((r.id != rule.id) = true ∧ (r.id == id) = true))
        = fun r => r.id == id := by
      funext r
      by_cases hr : r.id = id
      · simp [hr, Ne.symm hid]
      · simp [hr]
    rw [hsame, if_neg hid]
    simp [hid]

/-- **Of each id the rule is kept that was registered last.** -/
theorem find?_registered (rules : List Rule) (id : String) :
    (registered rules).find? id = rules.reverse.find? (·.id == id) := by
  induction rules using List.reverseRecOn with
  | nil => rfl
  | append_singleton rules rule ih =>
    rw [registered_concat, find?_register, ih, List.reverse_concat]
    by_cases hid : rule.id = id
    · rw [if_pos hid, List.find?_cons_of_pos (by simpa using hid)]
    · rw [if_neg hid, List.find?_cons_of_neg (by simpa using hid)]

/-! ### In which order -/

@[simp] theorem age_concat_self (rules : List Rule) (rule : Rule) :
    age (rules ++ [rule]) rule.id = 0 := by
  simp [age]

theorem age_concat_of_ne (rules : List Rule) {rule : Rule} {id : String} (h : id ≠ rule.id) :
    age (rules ++ [rule]) id = age rules id + 1 := by
  simp [age, List.idxOf_cons_ne _ (Ne.symm h)]

/-- **The rules stand in the order of their last registrations.** -/
theorem ordered_registered (rules : List Rule) :
    (registered rules).rules.Pairwise fun a b => age rules b.id < age rules a.id := by
  induction rules using List.reverseRecOn with
  | nil => exact .nil
  | append_singleton rules rule ih =>
    rw [registered_concat]
    refine List.pairwise_append.mpr ⟨?_, List.pairwise_singleton _ _, fun a ha b hb => ?_⟩
    · refine List.pairwise_filter.mpr (ih.imp fun {a b} hlt ha hb => ?_)
      rw [age_concat_of_ne rules (bne_iff_ne.mp ha), age_concat_of_ne rules (bne_iff_ne.mp hb)]
      omega
    · have hne : a.id ≠ rule.id := bne_iff_ne.mp (List.mem_filter.mp ha).2
      rw [List.mem_singleton.mp hb, age_concat_self, age_concat_of_ne rules hne]
      omega

/-- No id is there twice. -/
theorem nodup_ids (rules : List Rule) : ((registered rules).rules.map Rule.id).Nodup := by
  refine List.pairwise_map.mpr ((ordered_registered rules).imp fun {a b} hlt heq => ?_)
  rw [heq] at hlt
  omega

/-- A rule is there if it was registered and its id was not registered again. -/
theorem mem_registered_iff {rules : List Rule} {rule : Rule} :
    rule ∈ (registered rules).rules ↔ rules.reverse.find? (·.id == rule.id) = some rule := by
  rw [← find?_registered]
  refine ⟨fun hmem => ?_, List.mem_of_find?_eq_some⟩
  obtain ⟨found, hfound⟩ : ∃ found, (registered rules).find? rule.id = some found :=
    Option.isSome_iff_exists.mp (List.find?_isSome.mpr ⟨rule, hmem, beq_iff_eq.mpr rfl⟩)
  have hid : found.id = rule.id := by
    simpa using List.find?_some hfound
  rw [hfound, List.inj_on_of_nodup_map (nodup_ids rules) (List.mem_of_find?_eq_some hfound) hmem hid]

end ScriptLint.Registry
