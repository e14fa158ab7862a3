import ScriptLint.Parsing.Script
import ScriptLint.Proofs.Rule.Registered
import ScriptLint.Proofs.Syntax.Declared
import ScriptLint.Proofs.Syntax.Depth
/-!
# Rules do not interfere

An analysis can be told as a walk: it goes over the outline of a script, and
at each part every rule that is not switched off may put findings into the one
collector of the run. If the rules do nothing but add findings, and what a rule
finds depends on the script, the types and the part alone, the walk yields the
findings part by part and at each part rule by rule. So every finding can be
attributed to the rule that made it, the findings of one rule are those that it
makes alone, and what is switched off is missing and nothing else.

Key definitions: `Inspection`, `Inspection.Appends`, `Registry.run`, `Registry.attributed`.
Key theorems: `Registry.run_eq`, `Registry.attributed_alone`, `Registry.value_analyze`,
`Registry.rules_independent`.
-/

namespace ScriptLint

namespace Outline

mutual

/-- The parts of an outline at any depth, itself included, in pre-order. -/
def subtrees : Outline → List Outline
  | .node root children => .node root children :: subtreesAll children

/-- The parts of outlines that stand side by side. -/
def subtreesAll : List Outline → List Outline
  | [] => []
  | o :: os => subtrees o ++ subtreesAll os

end

mutual

theorem map_root_subtrees (depth : Nat) : ∀ o : Outline,
    o.subtrees.map root = (o.preorder depth).map Prod.snd
  | .node _ children => by
    rw [subtrees, preorder, List.map_cons, List.map_cons,
      map_root_subtreesAll (depth + 1) children, root]

theorem map_root_subtreesAll (depth : Nat) : ∀ os : List Outline,
    (subtreesAll os).map root = (preorderAll depth os).map Prod.snd
  | [] => rfl
  | o :: os => by
    rw [subtreesAll, preorderAll, List.map_append, List.map_append, map_root_subtrees depth o,
      map_root_subtreesAll depth os]

end

/-- The parts stand below the nodes, in the same order. -/
theorem map_root_subtrees_eq (o : Outline) : o.subtrees.map root = o.nodes :=
  map_root_subtrees 0 o

end Outline

/-! ### The walk -/

/-- What a rule does at a part of a script: it is handed the collector of the run. -/
abbrev Inspection := Rule → RuleContext → Outline → Collector → Collector

/-- The rules only add findings, and what they add is told by the context and the part. -/
def Inspection.Appends (inspect : Inspection)
    (found : Rule → RuleContext → Outline → List Diagnostic) : Prop :=
  ∀ rule context part (c : Collector), c.file = context.script.name →
    inspect rule context part c = { c with diagnostics := c.diagnostics ++ found rule context part }

/-- A rule reports what it finds at the root of a part. -/
def Rule.collect (rule : Rule) (context : RuleContext) (part : Outline) (c : Collector) :
    Collector :=
  (rule.inspect context part.root).value.foldl (fun c finding =>
    c.report rule.category (some rule.source) rule.code finding.message finding.span) c

namespace Registry

section Walk

variable (registry : Registry) (inspect : Inspection) (context : RuleContext)
  (disabled : List String)

/-- At a part all rules take their turn that are not switched off. -/
def inspectPart (part : Outline) (c : Collector) : Collector :=
  registry.rules.foldl
    (fun c rule => if disabled.contains rule.id then c else inspect rule context part c) c

mutual

/-- The walk over an outline: first at its root, then over its children. -/
def walk : Outline → Collector → Collector
  | .node root children, c =>
    walkAll children (registry.inspectPart inspect context disabled (.node root children) c)

/-- The walk over outlines that stand side by side. -/
def walkAll : List Outline → Collector → Collector
  | [], c => c
  | o :: os, c => walkAll os (walk o c)

end

/-- What has been collected behind the walk over a script. -/
def run : List Diagnostic :=
  (registry.walk inspect context disabled context.script.outline
    (Collector.new context.script.name)).diagnostics

end Walk

variable {registry : Registry} {inspect : Inspection} {context : RuleContext}
  {found : Rule → RuleContext → Outline → List Diagnostic}

/-- What the rules find at a part, rule by rule. -/
def foundAt (found : Rule → RuleContext → Outline → List Diagnostic) (registry : Registry)
    (context : RuleContext) (disabled : List String) (part : Outline) : List Diagnostic :=
  (registry.enabled disabled).flatMap fun rule => found rule context part

theorem inspectPart_eq (h : inspect.Appends found) (disabled : List String) (part : Outline)
    (c : Collector) (hc : c.file = context.script.name) :
    registry.inspectPart inspect context disabled part c =
      { c with diagnostics := c.diagnostics ++ foundAt found registry context disabled part } := by
  unfold inspectPart foundAt enabled
  induction registry.rules generalizing c with
  | nil => simp
  | cons rule rules ih =>
    rw [List.foldl_cons]
    by_cases hoff : disabled.contains rule.id = true
    · rw [if_pos hoff, ih c hc, List.filter_cons_of_neg (by rw [hoff]; decide)]
    · rw [if_neg hoff, h rule context part c hc,
        ih { c with diagnostics := c.diagnostics ++ found rule context part } hc,
        List.filter_cons_of_pos (by rw [Bool.not_eq_true] at hoff; rw [hoff]; decide),
        List.flatMap_cons, List.append_assoc]

mutual

theorem walk_eq (h : inspect.Appends found) (disabled : List String) : ∀ (o : Outline)
    (c : Collector), c.file = context.script.name →
    registry.walk inspect context disabled o c =
      { c with diagnostics := c.diagnostics ++
        o.subtrees.flatMap (foundAt found registry context disabled) }
  | .node root children, c, hc => by
    rw [walk, inspectPart_eq h disabled _ c hc, Outline.subtrees, List.flatMap_cons,
      ← List.append_assoc]
    exact walkAll_eq h disabled children { c with diagnostics := c.diagnostics ++ _ } hc

/-- The walk goes on where it was. -/
theorem walkAll_eq (h : inspect.Appends found) (disabled : List String) : ∀ (os : List Outline)
    (c : Collector), c.file = context.script.name →
    registry.walkAll inspect context disabled os c =
      { c with diagnostics := c.diagnostics ++
        (Outline.subtreesAll os).flatMap (foundAt found registry context disabled) }
  | [], c, _ => by simp [walkAll, Outline.subtreesAll]
  | o :: os, c, hc => by
    rw [walkAll, walk_eq h disabled o c hc, Outline.subtreesAll, List.flatMap_append,
      ← List.append_assoc]
    exact walkAll_eq h disabled os { c with diagnostics := c.diagnostics ++ _ } hc

end

/-- **A walk yields the findings part by part, and at each part rule by rule.** -/
theorem run_eq (h : inspect.Appends found) (registry : Registry) (context : RuleContext)
    (disabled : List String) : registry.run inspect context disabled =
      context.script.outline.subtrees.flatMap (foundAt found registry context disabled) := by
  rw [run, walk_eq h disabled _ _ rfl]
  rfl

/-! ### The analysis is such a walk -/

/-- What a rule reports at a part is what it finds at its root. -/
theorem appends_collect : Inspection.Appends Rule.collect fun rule context part =>
    (rule.visit context part.root).value := by
  intro rule context part c hc
  unfold Rule.collect Rule.visit
  dsimp only
  rw [← hc]
  generalize (rule.inspect context part.root).value = found
  induction found generalizing c with
  | nil => simp
  | cons finding found ih =>
    rw [List.foldl_cons, ih _ (by exact hc)]
    simp [Collector.report, Collector.add, Rule.toDiagnostic]

/-- The findings of an analysis are what the walk collects. -/
theorem value_analyze (registry : Registry) (script : Script) (types : TypeLookup)
    (disabled : List String) : (registry.analyze script types disabled).value =
      registry.run Rule.collect ⟨script, types⟩ disabled := by
  rw [run_eq appends_collect]
  show (registry.findings ⟨script, types⟩ disabled).value = _
  unfold findings Traced.concat
  rw [← Outline.map_root_subtrees_eq]
  simp only [List.flatMap_map, List.map_map]
  rfl

/-! ### Attribution -/

/-- The findings of a walk, each with the id of the rule that made it. -/
def attributed (found : Rule → RuleContext → Outline → List Diagnostic) (registry : Registry)
    (context : RuleContext) (disabled : List String) : List (String × Diagnostic) :=
  context.script.outline.subtrees.flatMap fun part =>
    (registry.enabled disabled).flatMap fun rule =>
      (found rule context part).map fun d => (rule.id, d)

theorem map_snd_attributed (found : Rule → RuleContext → Outline → List Diagnostic)
    (registry : Registry) (context : RuleContext) (disabled : List String) :
    (attributed found registry context disabled).map Prod.snd =
      context.script.outline.subtrees.flatMap (foundAt found registry context disabled) := by
  unfold attributed foundAt
  simp only [List.map_flatMap, List.map_map, Function.comp_def, List.map_id']

/-- The findings of the rules whose ids are kept are attributed as they were. -/
theorem filter_attributed (found : Rule → RuleContext → Outline → List Diagnostic)
    (registry : Registry) (context : RuleContext) (disabled : List String) (keep : String → Bool) :
    (attributed found registry context disabled).filter (fun entry => keep entry.1) =
      context.script.outline.subtrees.flatMap fun part =>
        ((registry.enabled disabled).filter fun rule => keep rule.id).flatMap fun rule =>
          (found rule context part).map fun d => (rule.id, d) := by
  unfold attributed
  rw [List.filter_flatMap]
  refine List.flatMap_congr fun part _ => ?_
  generalize registry.enabled disabled = rules
  rw [List.filter_flatMap]
  induction rules with
  | nil => rfl
  | cons rule rules ih =>
    rw [List.flatMap_cons, ih]
    by_cases hkeep : keep rule.id = true
    · have hkept : (rule :: rules).filter (fun rule => keep rule.id)
          = rule :: rules.filter fun rule => keep rule.id := by simp [hkeep]
      rw [hkept, List.flatMap_cons]
      simp [List.filter_map, Function.comp_def, hkeep]
    · have hkept : (rule :: rules).filter (fun rule => keep rule.id)
          = rules.filter fun rule => keep rule.id := by simp [hkeep]
      rw [hkept]
      simp [List.filter_map, Function.comp_def, hkeep]

/-- Among rules with different ids, one is alone with its id. -/
theorem filter_id_eq {rules : List Rule} (h : (rules.map Rule.id).Nodup) {rule : Rule}
    (hrule : rule ∈ rules) : (rules.filter fun r => r.id == rule.id) = [rule] := by
  obtain ⟨before, after, rfl⟩ := List.append_of_mem hrule
  rw [List.map_append, List.map_cons, List.nodup_append, List.nodup_cons] at h
  obtain ⟨-, ⟨hafter, -⟩, hbefore⟩ := h
  have hnone : ∀ rules : List Rule, rule.id ∉ rules.map Rule.id →
      (rules.filter fun r => r.id == rule.id) = [] := fun rules hout =>
    List.filter_eq_nil_iff.mpr fun r hr heq =>
      hout (beq_iff_eq.mp heq ▸ List.mem_map_of_mem hr)
  have hout : rule.id ∉ before.map Rule.id := fun hin =>
    hbefore _ hin _ List.mem_cons_self rfl
  simp [hnone after hafter, hnone before hout]

/-- Of the findings of a walk, those of one rule are what it finds alone. -/
theorem attributed_alone (h : inspect.Appends found) {rules : List Rule} (context : RuleContext)
    {disabled : List String} {rule : Rule}
    (hrule : rule ∈ (registered rules).enabled disabled) :
    ((attributed found (registered rules) context disabled).filter
        fun entry => entry.1 == rule.id).map Prod.snd =
      (registered [rule]).run inspect context disabled := by
  have hids : (((registered rules).enabled disabled).map Rule.id).Nodup :=
    (nodup_ids rules).sublist (List.filter_sublist.map Rule.id)
  have halone : (registered [rule]).enabled disabled = [rule] :=
    List.filter_eq_self.mpr fun r hr => by
      rw [List.mem_singleton.mp hr]
      exact (List.mem_filter.mp hrule).2
  have hfound : foundAt found (registered [rule]) context disabled = found rule context := by
    funext part
    rw [foundAt, halone, List.flatMap_singleton]
  rw [run_eq h, hfound, filter_attributed found _ _ _ fun id => id == rule.id,
    filter_id_eq hids hrule]
  simp [List.map_flatMap, Function.comp_def]

/-- Switching rules off takes their findings away, and no others. -/
theorem run_switchedOff (h : inspect.Appends found) (registry : Registry) (context : RuleContext)
    (disabled more : List String) : registry.run inspect context (more ++ disabled) =
      ((attributed found registry context disabled).filter
        fun entry => !more.contains entry.1).map Prod.snd := by
  have henabled : registry.enabled (more ++ disabled) =
      (registry.enabled disabled).filter fun rule => !more.contains rule.id := by
    unfold enabled
    rw [List.filter_filter]
    refine List.filter_congr fun rule _ => ?_
    rw [Bool.eq_iff_iff]
    simp
  rw [run_eq h, filter_attributed found _ _ _ fun id => !more.contains id, ← henabled]
  unfold foundAt
  simp [List.map_flatMap, Function.comp_def]

/-- **Rules do not interfere.** Whatever has been registered: the ids are different, of each id
the rule registered last is kept, and the rules stand in the order of their last registrations.
If the rules only add findings, a walk yields the findings of the enabled rules part by part and
at each part in the order of the rules. So what one enabled rule finds among others is what it
finds alone, and switching rules off takes away their findings and nothing else. The analysis of
a script is such a walk. -/
theorem rules_independent (rules : List Rule) (script : Script) (types : TypeLookup)
    (disabled : List String) (inspect : Inspection)
    (found : Rule → RuleContext → Outline → List Diagnostic) (h : inspect.Appends found) :
    ((registered rules).rules.map Rule.id).Nodup ∧
    (∀ id, (registered rules).find? id = rules.reverse.find? (·.id == id)) ∧
    (∀ rule, rule ∈ (registered rules).rules ↔
      rules.reverse.find? (·.id == rule.id) = some rule) ∧
    ((registered rules).rules.Pairwise fun a b => age rules b.id < age rules a.id) ∧
    (registered rules).run inspect ⟨script, types⟩ disabled =
      script.outline.subtrees.flatMap (fun part =>
        ((registered rules).enabled disabled).flatMap fun rule =>
          found rule ⟨script, types⟩ part) ∧
    (attributed found (registered rules) ⟨script, types⟩ disabled).map Prod.snd =
      (registered rules).run inspect ⟨script, types⟩ disabled ∧
    (∀ rule ∈ (registered rules).enabled disabled,
      ((attributed found (registered rules) ⟨script, types⟩ disabled).filter
          fun entry => entry.1 == rule.id).map Prod.snd =
        (registered [rule]).run inspect ⟨script, types⟩ disabled) ∧
    (∀ more, (registered rules).run inspect ⟨script, types⟩ (more ++ disabled) =
      ((attributed found (registered rules) ⟨script, types⟩ disabled).filter
        fun entry => !more.contains entry.1).map Prod.snd) ∧
    ((registered rules).analyze script types disabled).value =
      (registered rules).run Rule.collect ⟨script, types⟩ disabled := by
  refine ⟨nodup_ids rules, find?_registered rules, fun _ => mem_registered_iff,
    ordered_registered rules, run_eq h _ _ _, ?_, fun rule hrule => attributed_alone h _ hrule,
    run_switchedOff h _ _ _, value_analyze _ _ _ _⟩
  rw [map_snd_attributed, run_eq h]

/-- The theorem at a rule that is registered again behind another one. -/
theorem rules_independent_registered_again :
    let naming := Rule.booleanNaming Flags.booleanLike
    let again := Rule.booleanNaming Flags.numberLike
    let other := { Rule.booleanNaming Flags.numberLiteral with id := "other" }
    let rules := [naming, other, again, other]
    let script := (Script.recover "a.ts" "let isA = 1; let isB = ''; let isC = true;").1
    let types : TypeLookup := fun _ d => some (if d.name.name = "isA" then .number else .string)
    let found := fun rule context part => (Rule.visit rule context part.root).value
    Inspection.Appends Rule.collect found ∧
      ((registered rules).rules.Pairwise fun a b => age rules b.id < age rules a.id) ∧
      (attributed found (registered rules) ⟨script, types⟩ []).map Prod.fst =
        ["other", "boolean-naming", "other", "boolean-naming", "other"] ∧
      ((attributed found (registered rules) ⟨script, types⟩ []).filter
          fun entry => entry.1 == again.id).map Prod.snd =
        (registered [again]).run Rule.collect ⟨script, types⟩ [] := by
  intro naming again other rules script types found
  obtain ⟨-, -, -, hordered, -, -, halone, -⟩ :=
    rules_independent rules script types [] Rule.collect found appends_collect
  have hagain : again ∈ (registered rules).enabled [] :=
    List.mem_cons_self
  exact ⟨appends_collect, hordered, by decide +kernel, halone again hagain⟩

end Registry

end ScriptLint
