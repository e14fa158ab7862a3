import ScriptLint.Diagnostic.Basic
import ScriptLint.Event
import ScriptLint.Syntax.Outline
import ScriptLint.Types.Ty
/-!
# Rules

A rule looks at one node of a script at a time and says what it finds there.
It knows the script and the types of its variables, and nothing of other
rules or of earlier nodes. The findings carry the rule's own source,
category and number.

Key definitions: `TypeLookup`, `RuleContext`, `Rule`, `Rule.visit`.
-/

namespace ScriptLint

/-- The type of a variable that a script declares, if it is known. -/
abbrev TypeLookup := Script → Declarator → Option Ty

/-- What a rule may look at besides the node. -/
structure RuleContext where
  script : Script
  types : TypeLookup

/-- What a rule finds: where, and what it says about it. -/
structure Finding where
  span : Span
  message : String
  deriving DecidableEq, Repr

/-- A rule. Its `id` tells it from other rules, and its `source` is shown with its findings. -/
structure Rule where
  id : String
  source : String
  description : String
  category : Category
  code : Nat
  inspect : RuleContext → Node → Traced (List Finding)

namespace Rule

/-- A finding of the rule as a diagnostic of a file. -/
def toDiagnostic (rule : Rule) (file : String) (finding : Finding) : Diagnostic where
  file := file
  span := finding.span
  message := finding.message
  category := rule.category
  source := some rule.source
  code := rule.code

/-- What the rule finds at a node, as diagnostics. -/
def visit (rule : Rule) (context : RuleContext) (node : Node) : Traced (List Diagnostic) :=
  let found := rule.inspect context node
  ⟨found.value.map (rule.toDiagnostic context.script.name), found.events⟩

end Rule

end ScriptLint
