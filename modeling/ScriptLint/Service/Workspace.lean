import ScriptLint.Failure
import ScriptLint.Parsing.Script
import ScriptLint.Service.Basic
import ScriptLint.Typing.CheckedScript
/-!
# Workspaces

A workspace holds the files of a project in the order in which they were
added. A file is read and checked when it is added or updated, and on its
own: files do not see each other. A request that may fail yields its outcome
and the workspace behind it.

Key definitions: `Workspace`, `Workspace.add`, `Workspace.update`, `Workspace.remove`,
`Workspace.service`.
-/

namespace ScriptLint

/-- A file of a workspace with all that is known about it. -/
structure WorkspaceFile where
  script : Script
  errors : List SyntaxError
  checked : CheckedScript

namespace WorkspaceFile

/-- Reads and checks a file. -/
def load (name text : String) : Traced WorkspaceFile := do
  let (script, errors) := Script.recover name text
  let checked ← script.checkTraced
  return ⟨script, errors, checked⟩

/-- The name of the file. -/
def name (file : WorkspaceFile) : String :=
  file.script.name

end WorkspaceFile

/-- The files of a project. There is a program once it is resolved. -/
structure Workspace where
  files : List WorkspaceFile
  resolved : Bool

namespace Workspace

/-- A project without files. -/
def new : Workspace :=
  ⟨[], true⟩

/-- A project without files that is still to be resolved. -/
def unresolved : Workspace :=
  ⟨[], false⟩

/-- The project is now resolved. -/
def resolve (w : Workspace) : Workspace :=
  { w with resolved := true }

/-- The file of the given name. -/
def file? (w : Workspace) (name : String) : Option WorkspaceFile :=
  w.files.find? (·.name == name)

/-- The place of the file of the given name. -/
def position? (w : Workspace) (name : String) : Option Nat :=
  w.files.findIdx? (·.name == name)

/-- Puts a file at a place in the project, or at the end. -/
def put (w : Workspace) (file : WorkspaceFile) : Option Nat → Workspace
  | some i => { w with files := w.files.set i file }
  | none => { w with files := w.files ++ [file] }

/-- Adds a file, in place of one with the same name. -/
def add (w : Workspace) (name text : String) : Traced Workspace := do
  let file ← WorkspaceFile.load name text
  Traced.tell .debug ("added " ++ name ++ ": " ++ toString file.errors.length
    ++ " syntax error(s), " ++ toString file.checked.diagnostics.length
    ++ " semantic diagnostic(s)")
  return w.put file (w.position? name)

/-- Gives a file of the project a new text. -/
def update (w : Workspace) (name text : String) :
    Traced (Except Failure Unit × Workspace) := do
  match w.position? name with
  | none => return (.error (.unknownFile name), w)
  | some i =>
    let file ← WorkspaceFile.load name text
    Traced.tell .debug ("updated " ++ name)
    return (.ok (), w.put file (some i))

/-- Takes a file out of the project. -/
def remove (w : Workspace) (name : String) : Traced (Except Failure Unit × Workspace) := do
  match w.position? name with
  | none => return (.error (.unknownFile name), w)
  | some i =>
    Traced.tell .debug ("removed " ++ name)
    return (.ok (), { w with files := w.files.eraseIdx i })

/-- Asks a file of the project for diagnostics; another file has none. -/
def ask (w : Workspace) (name : String) (f : WorkspaceFile → List Diagnostic) :
    Traced (List Diagnostic) := do
  match w.file? name with
  | some file => return f file
  | none =>
    Traced.tell .warn (name ++ " is not part of the project")
    return []

/-- The program of the project. -/
def program (w : Workspace) : Program where
  script? name := (w.file? name).map (·.script)
  types script d := (w.file? script.name).bind (·.checked.typeOf? script d)
  fileNames := w.files.map (·.name)

/-- The answers of a workspace. -/
def service (w : Workspace) : Service where
  syntactic name := w.ask name fun file => file.errors.map (SyntaxError.toDiagnostic name)
  semantic name := w.ask name fun file => file.checked.diagnostics
  program? := if w.resolved then some w.program else none

end Workspace

end ScriptLint
