import ScriptLint.Lint
import ScriptLint.Proofs.Parsing.Run
import ScriptLint.Proofs.Service.History
import ScriptLint.Service.Plugin
/-!
# Plugins around plugins

A plugin answers as a service does, so plugins can be stacked. Each of them
asks the service for its program, and the answer comes from the innermost
service unchanged, so what a plugin finds does not depend on the plugins
between it and the service. A stack therefore adds to the semantic
diagnostics what its plugins would add alone, from the innermost to the
outermost, and hands through everything else.

The plugin as it comes, around a workspace, finds what linting the file alone
finds. The types are asked for by the name of the file there, and the
workspace has checked the file under that name.

Key definitions: `Layer`, `Layer.around`, `Service.stacked`.
Key theorems: `Layer.value_extra`, `Service.value_semantic_stacked`, `Service.stacked_transparent`.
-/

namespace ScriptLint

/-! ### Layers -/

/-- A plugin and what the project asks of it. -/
structure Layer where
  plugin : Plugin
  config : PluginConfig

namespace Layer

/-- The plugin as it comes. -/
def standard : Layer :=
  ⟨⟨Flags.booleanLike⟩, .standard⟩

/-- The proxy that puts the layer around a service. -/
def around (layer : Layer) (s : Service) : Proxy :=
  (layer.plugin.create s layer.config).value

variable (layer : Layer) (s : Service)

theorem around_eq :
    layer.around s = ⟨s, Registry.withBooleanLike layer.plugin.booleanLike, layer.config⟩ := rfl

theorem value_semantic_around (file : String) : ((layer.around s).service.semantic file).value =
    (s.semantic file).value ++ ((layer.around s).extra file).value := rfl

/-- What a layer finds by itself in a file: what its rules find in the file's tree, if there is a
program that has the file. -/
theorem value_extra (file : String) : ((layer.around s).extra file).value =
    match s.program? with
    | none => []
    | some program =>
      match program.script? file with
      | none => []
      | some script => ((Registry.withBooleanLike layer.plugin.booleanLike).analyze script
          program.types layer.config.disabledRules).value := by
  rw [around_eq]
  unfold Proxy.extra
  cases s.program? with
  | none => rfl
  | some program =>
    dsimp only
    cases program.script? file <;> rfl

/-- Layers find the same around services that have one program. -/
theorem value_extra_congr {s t : Service} (h : s.program? = t.program?) (file : String) :
    ((layer.around s).extra file).value = ((layer.around t).extra file).value := by
  rw [value_extra, value_extra, h]

end Layer

/-! ### Stacks -/

namespace Service

/-- The service with layers around it, the innermost first. -/
def stacked (s : Service) (layers : List Layer) : Service :=
  layers.foldl (fun inner layer => (layer.around inner).service) s

variable (s : Service) (layers : List Layer)

theorem program?_stacked : (s.stacked layers).program? = s.program? := by
  induction layers generalizing s with
  | nil => rfl
  | cons layer layers ih => exact ih (layer.around s).service

theorem syntactic_stacked : (s.stacked layers).syntactic = s.syntactic := by
  induction layers generalizing s with
  | nil => rfl
  | cons layer layers ih => exact ih (layer.around s).service

/-- **Each layer adds what it would add alone,** behind what the layers inside it add. -/
theorem value_semantic_stacked (file : String) : ((s.stacked layers).semantic file).value =
    (s.semantic file).value ++ layers.flatMap fun layer => ((layer.around s).extra file).value := by
  induction layers generalizing s with
  | nil => exact (List.append_nil _).symm
  | cons layer layers ih =>
    have hinner : ∀ l : Layer, ((l.around (layer.around s).service).extra file).value =
        ((l.around s).extra file).value := fun l => l.value_extra_congr rfl file
    calc ((s.stacked (layer :: layers)).semantic file).value
        = (((layer.around s).service.stacked layers).semantic file).value := rfl
      _ = ((layer.around s).service.semantic file).value ++
          layers.flatMap fun l => ((l.around (layer.around s).service).extra file).value := ih _
      _ = (s.semantic file).value ++ (layer :: layers).flatMap fun l =>
          ((l.around s).extra file).value := by
        simp only [hinner, Layer.value_semantic_around, List.flatMap_cons, List.append_assoc]

end Service

/-! ### A workspace inside -/

/-- The naming rule asks for the types of the file at hand only. -/
theorem Rule.visit_booleanNaming_congr (booleanLike : Flags) {script : Script} {t t' : TypeLookup}
    (h : t script = t' script) (node : Node) :
    (booleanNaming booleanLike).visit ⟨script, t⟩ node =
      (booleanNaming booleanLike).visit ⟨script, t'⟩ node := by
  have hinspect : ∀ d, inspectDeclaration booleanLike ⟨script, t⟩ d =
      inspectDeclaration booleanLike ⟨script, t'⟩ d := by
    intro d
    unfold inspectDeclaration
    simp only [h]
  simp only [visit, booleanNaming, hinspect]

theorem Registry.analyze_congr (booleanLike : Flags) {script : Script} {t t' : TypeLookup}
    (h : t script = t' script) (disabled : List String) :
    (Registry.withBooleanLike booleanLike).analyze script t disabled =
      (Registry.withBooleanLike booleanLike).analyze script t' disabled := by
  have hfindings : (Registry.withBooleanLike booleanLike).findings ⟨script, t⟩ disabled =
      (Registry.withBooleanLike booleanLike).findings ⟨script, t'⟩ disabled := by
    unfold findings
    refine congrArg Traced.concat (List.map_congr_left fun node _ => ?_)
    refine congrArg Traced.concat (List.map_congr_left fun rule hrule => ?_)
    obtain rfl : rule = Rule.booleanNaming booleanLike :=
      List.mem_singleton.mp (List.mem_filter.mp hrule).1
    exact Rule.visit_booleanNaming_congr booleanLike h node
  unfold analyze
  rw [hfindings]

/-- What linting yields, when the types of the file are known. -/
theorem lint_eq_of_types {name text : String} {types : TypeLookup}
    (herrors : (Script.recover name text).2 = [])
    (htypes : types (Script.recover name text).1 =
      (Script.recover name text).1.check.typeOf? (Script.recover name text).1) :
    (lint name text).value = .ok ((Script.recover name text).1.check.diagnostics ++
      (Registry.standard.analyze (Script.recover name text).1 types []).value) := by
  have hstrict : Script.parseStrict name text = .ok (Script.recover name text).1 := by
    unfold Script.parseStrict Script.parse
    cases hread : Script.recover name text with
    | mk script errors =>
      rw [hread] at herrors
      cases herrors
      rfl
  have hanalyze : Registry.standard.analyze (Script.recover name text).1 types [] =
      Registry.standard.analyze (Script.recover name text).1
        (Script.recover name text).1.check.typeOf? [] :=
    Registry.analyze_congr Flags.booleanLike htypes []
  unfold lint
  rw [hstrict, hanalyze]
  rfl

/-- A resolved workspace with the plugin around it finds in a file without syntax errors what
linting the file alone finds. -/
theorem lint_eq_value_semantic {start : Start} {edits : List Edit} {program : Program}
    {file : String} {script : Script}
    (hprogram : (start.workspace.run edits).service.program? = some program)
    (hscript : program.script? file = some script)
    (hclean : ((start.workspace.run edits).service.syntactic file).value = []) :
    (lint file script.text).value =
      .ok ((Layer.standard.around (start.workspace.run edits).service).semantic file).value := by
  have h := follows_run start edits
  generalize start.workspace.run edits = w at h hprogram hclean ⊢
  obtain rfl : w.program = program := by
    unfold Workspace.service at hprogram
    split at hprogram
    · exact Option.some.inj hprogram
    · cases hprogram
  obtain ⟨found, hfound, rfl⟩ := Option.map_eq_some_iff.mp hscript
  have htext : textAfter edits file = some found.script.text := by
    rw [← h.text, hfound]
    rfl
  generalize found.script.text = text at htext ⊢
  -- the file is what reading and checking its text under its name gives
  have hfile : w.file? file = some (WorkspaceFile.load file text).value := h.file?_eq htext
  have hscript : w.program.script? file = some (Script.recover file text).1 := by
    rw [Workspace.script?_program, hfile]
    rfl
  have herrors : (Script.recover file text).2 = [] := by
    have hvalue : (w.service.syntactic file).value =
        (Script.recover file text).2.map (SyntaxError.toDiagnostic file) := by
      rw [Workspace.service, Workspace.value_ask, hfile]
      rfl
    rw [hvalue, List.map_eq_nil_iff] at hclean
    exact hclean
  have htypes : w.program.types (Script.recover file text).1 =
      (Script.recover file text).1.check.typeOf? (Script.recover file text).1 := by
    have hname : (Script.recover file text).1.name = file := rfl
    funext d
    rw [Workspace.types_program, hname, hfile]
    rfl
  have hown : (w.service.semantic file).value = (Script.recover file text).1.check.diagnostics := by
    rw [Workspace.service, Workspace.value_ask, hfile]
    rfl
  have hextra : ((Layer.standard.around w.service).extra file).value =
      (Registry.standard.analyze (Script.recover file text).1 w.program.types []).value := by
    rw [Layer.value_extra, hprogram]
    simp only [hscript]
    rfl
  have hsemantic : ((Layer.standard.around w.service).semantic file).value =
      (w.service.semantic file).value ++ ((Layer.standard.around w.service).extra file).value := rfl
  rw [hsemantic, hown, hextra]
  exact lint_eq_of_types herrors htypes

/-! ### All of it -/

/-- **Stacks of plugins are transparent.** Around any service, and with any masks and switched off
rules, a stack has the program and the syntactic diagnostics of the service. Its semantic
diagnostics are those of the service and then, layer by layer from the innermost on, what each layer
adds when it stands alone around the service: what its rules find in the file's tree, and nothing if
there is no program or the file is not in it. If the service is a workspace, whatever requests it
has seen, then the plugin as it comes yields what linting yields, for every file of its program
without syntax errors. -/
theorem Service.stacked_transparent (s : Service) (layers : List Layer) :
    (s.stacked layers).program? = s.program? ∧
    (s.stacked layers).syntactic = s.syntactic ∧
    (∀ file, ∃ found : Layer → List Diagnostic,
      ((s.stacked layers).semantic file).value =
        (s.semantic file).value ++ layers.flatMap found ∧
      (∀ layer, ((s.stacked [layer]).semantic file).value =
        (s.semantic file).value ++ found layer) ∧
      (s.program? = none → ∀ layer, found layer = []) ∧
      ∀ program, s.program? = some program →
        (program.script? file = none → ∀ layer, found layer = []) ∧
        ∀ script, program.script? file = some script → ∀ layer, found layer =
          ((Registry.withBooleanLike layer.plugin.booleanLike).analyze script program.types
            layer.config.disabledRules).value) ∧
    ∀ (start : Start) edits program file script, s = (start.workspace.run edits).service →
      s.program? = some program → program.script? file = some script →
      (s.syntactic file).value = [] →
      (lint file script.text).value = .ok ((s.stacked [Layer.standard]).semantic file).value := by
  refine ⟨s.program?_stacked layers, s.syntactic_stacked layers, fun file => ?_, ?_⟩
  · refine ⟨fun layer => ((layer.around s).extra file).value, s.value_semantic_stacked layers file,
      fun layer => layer.value_semantic_around s file, fun hnone layer => ?_,
      fun program hprogram => ⟨fun hnone layer => ?_, fun script hscript layer => ?_⟩⟩
    · simp only [Layer.value_extra, hnone]
    · simp only [Layer.value_extra, hprogram, hnone]
    · simp only [Layer.value_extra, hprogram, hscript]
  · rintro start edits program file script rfl hprogram hscript hclean
    exact lint_eq_value_semantic hprogram hscript hclean

/-- The theorem at a workspace that was resolved late, with one plugin that has its rule switched off
and two that have not: what is misnamed is found twice, behind the error of the checker. -/
theorem Service.stacked_transparent_thrice :
    let s := (Start.unresolved.workspace.run [.add "b.ts" "1 +", .add "a.ts" "let x = y, isA = 1",
      .resolve]).service
    let layers := [Layer.standard, ⟨⟨Flags.booleanLike⟩, ⟨"", [], ["boolean-naming"]⟩⟩,
      Layer.standard]
    ∃ program script found, s.program? = some program ∧
      program.script? "a.ts" = some script ∧ (s.syntactic "a.ts").value = [] ∧
      (lint "a.ts" script.text).value = .ok ((s.stacked [Layer.standard]).semantic "a.ts").value ∧
      ((s.stacked layers).semantic "a.ts").value =
        (s.semantic "a.ts").value ++ layers.flatMap found ∧
      (s.semantic "a.ts").value.length = 1 ∧ (layers.flatMap found).length = 2 := by
  intro s layers
  obtain ⟨-, -, hsemantic, hlint⟩ := Service.stacked_transparent s layers
  have hprogram : s.program? = some (Start.unresolved.workspace.run [.add "b.ts" "1 +",
    .add "a.ts" "let x = y, isA = 1", .resolve]).program := rfl
  obtain ⟨found, hvalue, -⟩ := hsemantic "a.ts"
  have hclean : (s.syntactic "a.ts").value = [] := by decide +kernel
  have hown : (s.semantic "a.ts").value.length = 1 := by decide +kernel
  have hall : ((s.stacked layers).semantic "a.ts").value.length = 3 := by decide +kernel
  refine ⟨_, (Script.recover "a.ts" "let x = y, isA = 1").1, found, hprogram, rfl, hclean,
    hlint .unresolved _ _ _ _ rfl hprogram rfl hclean, hvalue, hown, ?_⟩
  rw [hvalue, List.length_append, hown] at hall
  omega

end ScriptLint
