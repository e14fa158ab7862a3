import ScriptLint.Rule.Registry
import ScriptLint.Service.Basic
/-!
# The plugin

The plugin stands between a service and whoever asks it. It adds the
findings of the rules to the semantic diagnostics and hands every other
answer through. Since it answers as a service does, plugins can be stacked.

Key definitions: `Plugin.init`, `Plugin.create`, `Proxy.service`.
-/

namespace ScriptLint

/-- What a project asks of the plugin. The compiler options are only told about. -/
structure PluginConfig where
  projectRoot : String
  compilerOptions : List (String × String)
  disabledRules : List String

namespace PluginConfig

/-- Nothing in particular. -/
def standard : PluginConfig :=
  ⟨"", [], []⟩

/-- The compiler options in the order of their names. -/
def sortedOptions (config : PluginConfig) : List (String × String) :=
  config.compilerOptions.mergeSort fun a b => a.1 ≤ b.1

end PluginConfig

/-- The plugin, once it knows which flags count as boolean-like. -/
structure Plugin where
  booleanLike : Flags

/-- A service with the plugin around it. -/
structure Proxy where
  inner : Service
  registry : Registry
  config : PluginConfig

/-- A number in hexadecimal digits, behind its mark. -/
def hexadecimal (n : Nat) : String :=
  "0x" ++ String.ofList (Nat.toDigits 16 n)

namespace Plugin

/-- Starts the plugin. -/
def init (booleanLike : Flags) : Traced Plugin := do
  Traced.tell .debug
    ("plugin initialized, boolean-like flags " ++ hexadecimal booleanLike.bits.toNat)
  return ⟨booleanLike⟩

/-- Puts the plugin around a service. -/
def create (plugin : Plugin) (inner : Service) (config : PluginConfig) : Traced Proxy := do
  let options := config.sortedOptions
  Traced.tell .info ("creating dotJS proxy for " ++ config.projectRoot ++ " ("
    ++ toString options.length ++ " compiler option(s))")
  let _ ← options.mapM fun option =>
    Traced.tell .debug ("compiler option " ++ option.1 ++ " = " ++ option.2)
  return ⟨inner, Registry.withBooleanLike plugin.booleanLike, config⟩

end Plugin

namespace Proxy

/-- The findings of the plugin's own rules in a file of the program. -/
def extra (proxy : Proxy) (file : String) : Traced (List Diagnostic) := do
  match proxy.inner.program? with
  | none =>
    Traced.tell .debug ("no program yet, " ++ file ++ " gets no additional diagnostics")
    return []
  | some program =>
    match program.script? file with
    | none =>
      Traced.tell .warn (file ++ " is not part of the program, skipping")
      return []
    | some script => proxy.registry.analyze script program.types proxy.config.disabledRules

/-- The semantic diagnostics of the service, followed by the findings. -/
def semantic (proxy : Proxy) (file : String) : Traced (List Diagnostic) := do
  let own ← proxy.inner.semantic file
  let found ← proxy.extra file
  return own ++ found

/-- The proxy as a service. -/
def service (proxy : Proxy) : Service where
  syntactic := proxy.inner.syntactic
  semantic := proxy.semantic
  program? := proxy.inner.program?

end Proxy

end ScriptLint
