import ScriptLint.Diagnostic.Printer
import ScriptLint.Service.Plugin
import ScriptLint.Service.Workspace
/-!
# The report on a file

A file alone in a workspace, seen through the plugin as it comes: its syntax
errors, then its semantic diagnostics with the findings of the rules, all
printed.

Key definitions: `report`.
-/

namespace ScriptLint

/-- All diagnostics of a file, syntax errors first. -/
def reportDiagnostics (name text : String) : Traced (List Diagnostic) := do
  let workspace ← Workspace.new.add name text
  let plugin ← Plugin.init Flags.booleanLike
  let proxy ← plugin.create workspace.service PluginConfig.standard
  let syntactic ← proxy.service.syntactic name
  let semantic ← proxy.semantic name
  return syntactic ++ semantic

/-- The printed diagnostics of a file. -/
def report (name text : String) (colours : Option Painter) : Traced String := do
  let diagnostics ← reportDiagnostics name text
  return (Printer.new name text colours).render diagnostics

end ScriptLint
