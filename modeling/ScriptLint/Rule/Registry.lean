import ScriptLint.Rule.BooleanNaming
/-!
# Registered rules

Rules run in the order in which they were registered; a rule that is
registered again takes the place of its older self, at the end. A script is
analysed node by node in pre-order, and at each node by every rule that is
not switched off.

Key definitions: `Registry`, `Registry.register`, `Registry.analyze`.
-/

namespace ScriptLint

/-- The findings and the events of several runs, one after the other. -/
def Traced.concat {α : Type} (runs : List (Traced (List α))) : Traced (List α) :=
  ⟨runs.flatMap Traced.value, runs.flatMap Traced.events⟩

/-- The rules of an analysis, in order. -/
structure Registry where
  rules : List Rule

namespace Registry

/-- No rules. -/
def empty : Registry :=
  ⟨[]⟩

/-- Adds a rule at the end, in place of one with the same id. -/
def register (registry : Registry) (rule : Rule) : Registry :=
  ⟨registry.rules.filter (fun r => r.id != rule.id) ++ [rule]⟩

/-- The built-in rules, with the flags that count as boolean-like. -/
def withBooleanLike (booleanLike : Flags) : Registry :=
  empty.register (Rule.booleanNaming booleanLike)

/-- The built-in rules. -/
def standard : Registry :=
  withBooleanLike Flags.booleanLike

/-- The rule with the given id. -/
def find? (registry : Registry) (id : String) : Option Rule :=
  registry.rules.find? (·.id == id)

/-- The rules that are not switched off. -/
def enabled (registry : Registry) (disabled : List String) : List Rule :=
  registry.rules.filter (fun r => !disabled.contains r.id)

/-- The findings in a script, node by node. -/
def findings (registry : Registry) (context : RuleContext) (disabled : List String) :
    Traced (List Diagnostic) :=
  let rules := registry.enabled disabled
  Traced.concat (context.script.outline.nodes.map fun node =>
    Traced.concat (rules.map fun rule => rule.visit context node))

/-- Analyses a script and tells how much was found. -/
def analyze (registry : Registry) (script : Script) (types : TypeLookup)
    (disabled : List String) : Traced (List Diagnostic) := do
  let found ← registry.findings ⟨script, types⟩ disabled
  Traced.tell .debug (script.name ++ ": " ++ toString found.length ++ " finding(s)")
  return found

end Registry

end ScriptLint
