import ScriptLint.Rule.Basic
/-!
# The naming rule

A variable whose name begins with `is` promises a truth value, so its type
has to be boolean-like. Which flags count as boolean-like is up to the host.
A variable without a known type is left alone.

Key definitions: `Rule.booleanNaming`.
-/

namespace ScriptLint.Rule

/-- The name begins with the two letters `is`, whatever follows. -/
def claimsBoolean (name : String) : Bool :=
  ['i', 's'].isPrefixOf name.toList

/-- What the rule says about a name. -/
def renameMessage (name : String) : String :=
  "Rename " ++ name ++ " or make it type \"boolean\""

/-- The rule at one variable. A name that lies outside of the text is not reported. -/
def inspectDeclaration (booleanLike : Flags) (context : RuleContext) (d : Declarator) :
    Traced (List Finding) :=
  let file := context.script.name
  let name := d.name
  if claimsBoolean name.name then
    match context.types context.script d with
    | none =>
      ⟨[], [⟨.debug, "no type for `" ++ name.name ++ "` in " ++ file ++ ", skipping"⟩]⟩
    | some type =>
      if type.flags.intersects booleanLike then ⟨[], []⟩
      else if context.script.span.contains name.span then
        ⟨[⟨name.span, renameMessage name.name⟩],
          [⟨.debug, file ++ ": `" ++ name.name ++ "` has type `" ++ type.display
            ++ "`, expected boolean"⟩]⟩
      else
        ⟨[], [⟨.warn, "`" ++ name.name ++ "` at " ++ name.span.render ++ " lies outside " ++ file
          ++ ", not reporting"⟩]⟩
  else ⟨[], []⟩

/-- Flags variables that are named like truth values and are none. -/
def booleanNaming (booleanLike : Flags) : Rule where
  id := "boolean-naming"
  source := "dotJS"
  description := "Variables whose name starts with `is` must have a boolean type"
  category := .error
  code := 42
  inspect context node :=
    match node.form with
    | .declaration _ d => inspectDeclaration booleanLike context d
    | _ => ⟨[], []⟩

end ScriptLint.Rule
