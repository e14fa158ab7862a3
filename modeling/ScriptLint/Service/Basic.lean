import ScriptLint.Rule.Basic
/-!
# Services

A service answers questions about the files of a project. The project's
program is there once the project has been resolved.

Key definitions: `Program`, `Service`.
-/

namespace ScriptLint

/-- The files of a project, and the types of their variables. -/
structure Program where
  script? : String → Option Script
  types : TypeLookup
  fileNames : List String

/-- What can be asked about a project. -/
structure Service where
  syntactic : String → Traced (List Diagnostic)
  semantic : String → Traced (List Diagnostic)
  program? : Option Program

end ScriptLint
