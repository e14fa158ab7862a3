import ScriptLint.Proofs.Typing.Returns
import ScriptLint.Proofs.Typing.ScopeTable
/-!
# Checking over a table of scopes

The checker as it is with a table of scopes and a count of trials. It knows
the scope it is in and the scope of the function it is in by their numbers, a
scope that is left stays in the table, and a trial is one more on the count
while it lasts. At every place it sees the stack of the scopes around it, and
it does to that stack what the checker with a stack does.

Whatever it has been through, a statement ends in the scopes, with as many
functions around it and in as many trials as it began, and it has changed no
scope but those two. The body of a function ends with all scopes as they were:
its parameters, its functions and what `var` declares in it go into scopes that
are new. So a trial leaves no trace.

Key definitions: `Typing.TableState`, `Typing.TableState.view`, `Typing.TableState.Sound`,
`Check.Tabled.statement`, `Check.Keeps`, `Check.Follows`.
Key theorems: `Check.Follows.inScope`, `Check.Follows.inFunctionScope`, `Check.follows_statement`,
`Check.trials_leave_no_trace`.
-/

namespace ScriptLint

namespace Typing

/-! ### States -/

/-- What a checker with a table of scopes knows at a place: besides the table the scope it is in,
the scope of the function it is in, and the number of trials it is in. -/
structure TableState where
  table : ScopeTable
  current : Nat
  function : Nat
  types : List (Nat × Ty)
  frames : List Frame
  trials : Nat
  log : List TypeError

namespace TableState

variable {t u : TableState}

/-- The checker before the first statement. -/
def initial : TableState :=
  ⟨ScopeTable.file, 0, 0, [], [], 0, []⟩

/-- What it sees: the scopes around it, and whether it is in a trial. -/
def view (t : TableState) : State :=
  ⟨t.table.stack t.current t.function, t.types, t.frames, decide (0 < t.trials), t.log⟩

/-- How many scopes lie around the given one. -/
def depth (t : TableState) (id : Nat) : Nat :=
  (t.table.path t.current).idxOf id

/-- The checker in a new scope. -/
def enter (t : TableState) : TableState :=
  { t with table := t.table.create (some t.current), current := t.table.next }

/-- The checker back in the scope around, if there is one. -/
def exit (t : TableState) : TableState :=
  { t with current := (t.table.parent? t.current).getD t.current }

/-- The scopes are a forest, and the checker is in one of them, inside of the scope of its
function. -/
structure Sound (t : TableState) : Prop where
  forest : t.table.Forest
  current_lt : t.current < t.table.next
  function_mem : t.function ∈ t.table.path t.current

/-- Only the scopes and the place in them matter. -/
theorem Sound.congr (h : t.Sound) (htable : u.table = t.table) (hcurrent : u.current = t.current)
    (hfunction : u.function = t.function) : u.Sound := by
  constructor
  · rw [htable]
    exact h.forest
  · rw [htable, hcurrent]
    exact h.current_lt
  · rw [htable, hcurrent, hfunction]
    exact h.function_mem

theorem sound_initial : initial.Sound :=
  ⟨ScopeTable.forest_file, Nat.one_pos, ScopeTable.mem_path_self _ _⟩

theorem view_initial : initial.view = State.initial := by
  have hpath : ScopeTable.file.path 0 = [0] := by
    rcases ScopeTable.file.path_cases 0 with h | ⟨p, hlt, -, -⟩
    · exact h
    · omega
  rw [view, ScopeTable.stack, initial, hpath]
  rfl

theorem current_view (t : TableState) : t.view.scopes.current = t.depth t.current :=
  ScopeTable.current_stack

theorem function_view (t : TableState) : t.view.scopes.function = t.depth t.function := rfl

theorem Sound.enter (h : t.Sound) : t.enter.Sound where
  forest := h.forest.create h.current_lt
  current_lt := Nat.lt_succ_self _
  function_mem := by
    show t.function ∈ (t.table.create _).path t.table.next
    rw [ScopeTable.path_create h.current_lt]
    exact List.mem_append_left _ h.function_mem

theorem Sound.enterFunction (h : t.Sound) : { t.enter with function := t.table.next }.Sound :=
  ⟨h.enter.forest, h.enter.current_lt, ScopeTable.mem_path_self _ _⟩

theorem view_enter (h : t.Sound) :
    t.enter.view = { t.view with scopes := t.view.scopes.enter } := by
  rw [view, enter, ScopeTable.stack_create h.current_lt h.function_mem]
  rfl

theorem view_enterFunction (h : t.Sound) : { t.enter with function := t.table.next }.view
    = { t.view with scopes := t.view.scopes.enterFunction } := by
  rw [view, enter, ScopeTable.stack_create_function h.current_lt]
  rfl

end TableState

end Typing

namespace Check

open Typing

variable {α β : Type}

/-! ### The checker -/

/-- A step of the checker with a table. -/
abbrev Tabled := StateM TableState

namespace Tabled

/-- A step that looks names up, and leaves the scopes alone. -/
def read (p : Check α) : Tabled α := fun t =>
  let (a, s) := p t.view
  (a, { t with types := s.types, frames := s.frames, log := s.log })

/-- Declares a name in a scope, whether or not it was declared there. -/
def declare (id : Nat) (name : String) (symbol : Symbol) : Tabled Unit :=
  modify fun t => { t with table := t.table.declare id name symbol }

/-- Declares a name in a scope that does not have it yet. Otherwise nothing changes, and the
symbol that the scope has is the answer. -/
def declareNew (id : Nat) (name : String) (symbol : Symbol) : Tabled (Option Symbol) := do
  match (← get).table.find? id name with
  | some existing => return some existing
  | none =>
    declare id name symbol
    return none

/-- Runs a step in a scope of its own. -/
def inScope (step : Tabled α) : Tabled α := do
  modify TableState.enter
  let a ← step
  modify TableState.exit
  return a

/-- Runs a step in the scope of a new function. -/
def inFunctionScope (step : Tabled α) : Tabled α := do
  modify TableState.enter
  let outer := (← get).function
  modify fun t => { t with function := t.current }
  let a ← step
  modify fun t => { t with function := outer }
  modify TableState.exit
  return a

/-- Runs a step inside a function that declares the given type, and yields the function's frame. -/
def inFrame (declared : Option Ty) (step : Tabled Unit) : Tabled Frame := do
  modify fun t => { t with frames := ⟨declared, []⟩ :: t.frames }
  step
  let frame := (← get).frames.headD ⟨none, []⟩
  modify fun t => { t with frames := t.frames.tail }
  return frame

/-- Tries out a step. -/
def trial (step : Tabled α) : Tabled α := do
  modify fun t => { t with trials := t.trials + 1 }
  let a ← step
  modify fun t => { t with trials := t.trials - 1 }
  return a

/-- Declares a variable: `let` and `const` in the innermost scope, `var` in that of the function. -/
def declareVariable (kind : DeclKind) (name : Ident) (type : Ty) : Tabled Unit := do
  let t ← get
  let id := if kind = .varKind then t.function else t.current
  let symbol : Symbol := .value type (some kind) name.span
  match ← declareNew id name.name symbol with
  | none => pure ()
  | some existing =>
    match existing with
    | .value _ existingKind _ =>
      if kind = .varKind ∧ (existingKind = none ∨ existingKind = some .varKind) then
        declare id name.name symbol
      else if existingKind = none then
        read (reportBoth (.duplicateIdentifier name.name) existing name.span)
      else read (reportBoth (.blockScopedRedeclaration name.name) existing name.span)
    | .function _ _ _ => read (reportBoth (.duplicateIdentifier name.name) existing name.span)

/-- Checks and declares one variable. -/
def declarator (kind : DeclKind) (d : Declarator) : Tabled Unit := do
  let declared ← read (resolve? d.declaredType)
  let initial ← read (firstValue d.initializer)
  let type ← read (variableType kind d.name declared initial)
  match type with
  | some type => read (modify (State.record d.name.span.start type))
  | none => pure ()
  declareVariable kind d.name (type.getD Ty.any)

/-- Checks and declares the variables of a declaration. -/
def declaration (d : Declaration) : Tabled Unit :=
  d.declarators.forM (declarator d.kind)

/-- Declares a name in the innermost scope, and answers a conflict. -/
def declareHere (name : String) (symbol : Symbol) (conflict : Symbol → Check Unit) :
    Tabled Unit := do
  match ← declareNew (← get).current name symbol with
  | none => pure ()
  | some existing => read (conflict existing)

/-- Declares a parameter in the scope of its function. -/
def declareParameter (p : Parameter) : Tabled Unit := do
  let type ← read (resolve? p.declaredType)
  declareHere p.name.name (.value (type.getD Ty.any) none p.name.span) fun existing =>
    reportBoth (.duplicateIdentifier p.name.name) existing p.name.span

/-- Declares a function with its written result, or with `any` for the time being. -/
def declareFunction (signature : Signature) : Tabled Unit :=
  let name := signature.name
  let result := (signature.returnType.map TypeExpr.toTy).getD Ty.any
  declareHere name.name (functionSymbol signature result) fun existing =>
    match existing with
    | .function _ _ _ => reportBoth .duplicateFunction existing name.span
    | .value _ _ _ => reportBoth (.duplicateIdentifier name.name) existing name.span

/-- Declares the functions of a list of statements. -/
def declareFunctions : List Stmt → Tabled Unit
  | [] => pure ()
  | .function signature _ _ _ :: rest => do
    declareFunction signature
    declareFunctions rest
  | _ :: rest => declareFunctions rest

/-- Checks a function: its parameters and then its body. -/
def functionBody (signature : Signature) (declared : Option Ty) (run : Tabled Unit) :
    Tabled Ty := do
  let frame ← inFunctionScope do
    signature.parameters.forM declareParameter
    inFrame declared run
  read (concludeFunction signature frame)

/-- Checks what stands first in the header of a `for` statement. -/
def forStart : Option ForStart → Tabled Unit
  | some (.declaration d) => declaration d
  | some (.expression e) => read (expression e)
  | none => pure ()

/-- Checks statements that stand together. -/
def together (stmts : List Stmt) (tryOut run : Tabled Unit) : Tabled Unit := do
  declareFunctions stmts
  tryOut
  run

mutual

/-- Checks a statement. -/
def statement : Stmt → Tabled Unit
  | .variables d _ => declaration d
  | .function signature body _ _ => do
    let declared ← read (resolve? signature.returnType)
    let _ ← functionBody signature declared
      (together body (inferFunctions body) (statements body))
  | .block body _ => inScope (together body (inferFunctions body) (statements body))
  | .ifThen condition thenBranch _ => do
    read (expression condition)
    statement thenBranch
  | .ifElse condition thenBranch elseBranch _ => do
    read (expression condition)
    statement thenBranch
    statement elseBranch
  | .whileLoop condition body _ => do
    read (expression condition)
    statement body
  | .forLoop start condition update body _ =>
    inScope do
      forStart start
      read (expression? condition)
      read (expression? update)
      statement body
  | .returns value span => read (returnValue value span)
  | .expression e _ => read (expression e)

/-- Checks the statements of a list, one after the other. -/
def statements : List Stmt → Tabled Unit
  | [] => pure ()
  | s :: ss => do
    statement s
    statements ss

/-- Finds out what a function returns that does not say so, by trying out its body. -/
def inferFunction : Stmt → Tabled Unit
  | .function signature body _ _ =>
    match signature.returnType with
    | some _ => pure ()
    | none => do
      let result ← trial
        (functionBody signature none (together body (inferFunctions body) (statements body)))
      declare (← get).current signature.name.name (functionSymbol signature result)
  | _ => pure ()

/-- Finds out what the functions of a list of statements return. -/
def inferFunctions : List Stmt → Tabled Unit
  | [] => pure ()
  | s :: ss => do
    inferFunction s
    inferFunctions ss

end

/-- Checks a list of statements that stand together. -/
def body (stmts : List Stmt) : Tabled Unit :=
  together stmts (inferFunctions stmts) (statements stmts)

variable {t : TableState} {id : Nat} {name : String} {symbol : Symbol}

theorem declareNew_run (t : TableState) : declareNew id name symbol t
    = match t.table.find? id name with
      | some existing => (some existing, t)
      | none => (none, { t with table := t.table.declare id name symbol }) := by
  show (match t.table.find? id name with
    | some existing => pure (some existing)
    | none => do
      declare id name symbol
      return none : Tabled (Option Symbol)) t = _
  cases t.table.find? id name <;> rfl

theorem declareNew_of_some {existing : Symbol} (h : t.table.find? id name = some existing) :
    declareNew id name symbol t = (some existing, t) := by
  rw [declareNew_run, h]

theorem declareNew_of_none (h : t.table.find? id name = none) :
    declareNew id name symbol t = (none, { t with table := t.table.declare id name symbol }) := by
  rw [declareNew_run, h]

end Tabled

/-! ### What a step leaves as it was -/

/-- Between the two states no scope has changed but the innermost one and that of the function,
and no function around but the `n` innermost ones. In a trial nothing has been told. -/
structure Keeps (n : Nat) (t u : TableState) : Prop where
  current : u.current = t.current
  function : u.function = t.function
  trials : u.trials = t.trials
  next_le : t.table.next ≤ u.table.next
  parents : ∀ id < t.table.next, u.table.parent? id = t.table.parent? id
  scopes : ∀ id < t.table.next, id ≠ t.current → id ≠ t.function →
    u.table.scopes id = t.table.scopes id
  forest : t.Sound → u.table.Forest
  frames : u.frames.drop n = t.frames.drop n
  length : u.frames.length = t.frames.length
  hushed : 0 < t.trials → u.log = t.log ∧ u.types = t.types

namespace Keeps

variable {n : Nat} {t u v : TableState}

theorem path (h : Keeps n t u) {id : Nat} (hid : id < t.table.next) :
    u.table.path id = t.table.path id :=
  ScopeTable.path_congr fun j hj => h.parents j (Nat.lt_of_le_of_lt hj hid)

/-- The scopes stay a forest, and the checker in it. -/
theorem sound (h : Keeps n t u) (ht : t.Sound) : u.Sound where
  forest := h.forest ht
  current_lt := by
    rw [h.current]
    exact Nat.lt_of_lt_of_le ht.current_lt h.next_le
  function_mem := by
    rw [h.current, h.function, h.path ht.current_lt]
    exact ht.function_mem

/-- Everything that the table has to do with is as it was. -/
theorem of_table_eq (htable : u.table = t.table) (hcurrent : u.current = t.current)
    (hfunction : u.function = t.function) (htrials : u.trials = t.trials)
    (hframes : u.frames.drop n = t.frames.drop n) (hlength : u.frames.length = t.frames.length)
    (hhushed : 0 < t.trials → u.log = t.log ∧ u.types = t.types) : Keeps n t u where
  current := hcurrent
  function := hfunction
  trials := htrials
  next_le := Nat.le_of_eq (by rw [htable])
  parents _ _ := by rw [htable]
  scopes _ _ _ _ := by rw [htable]
  forest ht := by
    rw [htable]
    exact ht.forest
  frames := hframes
  length := hlength
  hushed := hhushed

theorem refl (n : Nat) (t : TableState) : Keeps n t t :=
  .of_table_eq rfl rfl rfl rfl rfl rfl fun _ => ⟨rfl, rfl⟩

theorem trans (h : Keeps n t u) (h' : Keeps n u v) : Keeps n t v where
  current := h'.current.trans h.current
  function := h'.function.trans h.function
  trials := h'.trials.trans h.trials
  next_le := Nat.le_trans h.next_le h'.next_le
  parents id hid := by
    rw [h'.parents id (Nat.lt_of_lt_of_le hid h.next_le), h.parents id hid]
  scopes id hid hcurrent hfunction := by
    rw [← h.current] at hcurrent
    rw [← h.function] at hfunction
    rw [h'.scopes id (Nat.lt_of_lt_of_le hid h.next_le) hcurrent hfunction]
    exact h.scopes id hid (h.current ▸ hcurrent) (h.function ▸ hfunction)
  forest ht := h'.forest (h.sound ht)
  frames := h'.frames.trans h.frames
  length := h'.length.trans h.length
  hushed ht := by
    obtain ⟨hlog, htypes⟩ := h.hushed ht
    obtain ⟨hlog', htypes'⟩ := h'.hushed (h.trials ▸ ht)
    exact ⟨hlog'.trans hlog, htypes'.trans htypes⟩

/-- A name may be declared in the innermost scope and in that of the function. -/
theorem declare {id : Nat} (hid : id = t.current ∨ id = t.function) (name : String)
    (symbol : Symbol) : Keeps n t { t with table := t.table.declare id name symbol } where
  current := rfl
  function := rfl
  trials := rfl
  next_le := Nat.le_refl _
  parents j _ := ScopeTable.parent?_declare j name symbol
  scopes j _ hcurrent hfunction := by
    refine ScopeTable.scopes_declare_of_ne ?_ name symbol
    rcases hid with rfl | rfl
    · exact hcurrent
    · exact hfunction
  forest ht := ht.forest.declare id name symbol
  frames := rfl
  length := rfl
  hushed _ := ⟨rfl, rfl⟩

/-- Around a new scope lies the one that it was created in. -/
theorem parent?_current {function : Nat} (h : Keeps n { t.enter with function := function } u) :
    u.table.parent? u.current = some t.current := by
  rw [h.current]
  refine (h.parents t.table.next (Nat.lt_succ_self _)).trans ?_
  exact ScopeTable.parent?_create_self _

theorem exit_eq {function : Nat} (h : Keeps n { t.enter with function := function } u) :
    u.exit = { u with current := t.current } := by
  rw [TableState.exit, h.parent?_current]
  rfl

/-- Behind a new scope all scopes are as they were, if the step in it changes no other one but that
of the function. -/
theorem leave {function : Nat} (h : Keeps n { t.enter with function := function } u)
    (hfunction : function = t.function ∨ function = t.table.next) :
    Keeps n t { u.exit with function := t.function } where
  current := by rw [h.exit_eq]
  function := rfl
  trials := h.trials
  next_le := Nat.le_trans (Nat.le_succ _) h.next_le
  parents id hid := by
    refine (h.parents id (Nat.lt_succ_of_lt hid)).trans ?_
    exact ScopeTable.parent?_create_of_ne (Nat.ne_of_lt hid) _
  scopes id hid _ hne := by
    refine (h.scopes id (Nat.lt_succ_of_lt hid) (Nat.ne_of_lt hid) ?_).trans ?_
    · rcases hfunction with rfl | rfl
      · exact hne
      · exact Nat.ne_of_lt hid
    · exact ScopeTable.scopes_create_of_ne (Nat.ne_of_lt hid) _
  forest ht := by
    refine h.forest ?_
    rcases hfunction with rfl | rfl
    · exact ht.enter
    · exact ht.enterFunction
  frames := h.frames
  length := h.length
  hushed := h.hushed

/-- To leave the new scope is to leave a scope of the stack. -/
theorem view_leave {function : Nat} (h : Keeps n { t.enter with function := function } u)
    (hfunction : function = t.function ∨ function = t.table.next) (ht : t.Sound) :
    { u.exit with function := t.function }.view
      = { u.view with scopes := { u.view.scopes.exit with function := t.depth t.function } } := by
  have hpath : u.table.path t.current = t.table.path t.current := by
    simpa only [h.exit_eq] using (h.leave hfunction).path ht.current_lt
  have hlt : t.current < u.current := by
    rw [h.current]
    exact ht.current_lt
  have hscopes : (u.table.path t.current).map u.table.symbols = u.view.scopes.exit.scopes :=
    (ScopeTable.scopes_exit_stack h.parent?_current hlt).symm
  rw [h.exit_eq, TableState.view, ScopeTable.stack, hscopes, hpath]
  rfl

/-- In a new scope the scope of the function is where it was. -/
theorem function_view_enter (h : Keeps n t.enter u) (ht : t.Sound) :
    u.view.scopes.function = t.depth t.function := by
  have hpath : u.table.path u.current = t.table.path t.current ++ [t.table.next] := by
    rw [h.current, ← ScopeTable.path_create ht.current_lt]
    exact h.path (Nat.lt_succ_self _)
  have hfunction : u.function = t.function := h.function
  rw [TableState.function_view, TableState.depth, hpath, hfunction,
    List.idxOf_append_of_mem ht.function_mem]
  rfl

/-- Behind a function the functions around it are as they were. -/
theorem pop {frame : Frame} (h : Keeps 1 { t with frames := frame :: t.frames } u) :
    Keeps n t { u with frames := u.frames.tail } := by
  have hframes : u.frames.tail = t.frames := by
    rw [← List.drop_one, h.frames]
    rfl
  exact ⟨h.current, h.function, h.trials, h.next_le, h.parents, h.scopes,
    fun ht => h.forest (ht.congr rfl rfl rfl), by rw [hframes],
    by rw [hframes], h.hushed⟩

/-- Behind a trial the checker is in as many trials as before. -/
theorem endTrial (h : Keeps n { t with trials := t.trials + 1 } u) :
    Keeps n t { u with trials := u.trials - 1 } := by
  have htrials : u.trials - 1 = t.trials := by
    rw [h.trials, Nat.add_sub_cancel]
  exact ⟨h.current, h.function, htrials, h.next_le, h.parents, h.scopes,
    fun ht => h.forest (ht.congr rfl rfl rfl), h.frames, h.length,
    fun _ => h.hushed (Nat.succ_pos _)⟩

/-- Behind the scope of a function all scopes are as they were. -/
theorem scopes_leave (h : Keeps n { t.enter with function := t.table.next } u) {id : Nat}
    (hid : id < t.table.next) : u.table.scopes id = t.table.scopes id := by
  have hne : id ≠ t.table.next := Nat.ne_of_lt hid
  exact (h.scopes id (Nat.lt_succ_of_lt hid) hne hne).trans (ScopeTable.scopes_create_of_ne hne _)

end Keeps

/-! ### Steps that leave the scopes alone -/

/-- The step changes no scopes, and no function around but the `n` innermost ones. While the checker
is silent it tells nothing. -/
structure Light (n : Nat) (p : Check α) : Prop where
  scopes : ∀ s, (p s).2.scopes = s.scopes
  silent : ∀ s, (p s).2.silent = s.silent
  frames : ∀ s, (p s).2.frames.drop n = s.frames.drop n
  length : ∀ s, (p s).2.frames.length = s.frames.length
  hushed : ∀ s, s.silent = true → (p s).2.log = s.log ∧ (p s).2.types = s.types

namespace Light

variable {n : Nat} {p : Check α}

theorem of_remarks (h : Remarks (fun _ => True) p) (hscopes : ∀ s, (p s).2.scopes = s.scopes) :
    Light n p where
  scopes := hscopes
  silent s := (h.later s).silent
  frames s := by rw [h.frames s]
  length s := by rw [h.frames s]
  hushed := h.hushed

theorem bind {q : α → Check β} (h : Light n p) (hq : ∀ a, Light n (q a)) : Light n (p >>= q) where
  scopes s := ((hq (p s).1).scopes (p s).2).trans (h.scopes s)
  silent s := ((hq (p s).1).silent (p s).2).trans (h.silent s)
  frames s := ((hq (p s).1).frames (p s).2).trans (h.frames s)
  length s := ((hq (p s).1).length (p s).2).trans (h.length s)
  hushed s hs := by
    obtain ⟨hlog, htypes⟩ := h.hushed s hs
    obtain ⟨hlog', htypes'⟩ := (hq (p s).1).hushed (p s).2 ((h.silent s).trans hs)
    exact ⟨hlog'.trans hlog, htypes'.trans htypes⟩

theorem get_bind {q : State → Check β} (h : ∀ s, Light n (q s)) : Light n (get >>= q) :=
  ⟨fun s => (h s).scopes s, fun s => (h s).silent s, fun s => (h s).frames s,
    fun s => (h s).length s, fun s => (h s).hushed s⟩

end Light

section

variable {n : Nat}

theorem light_report (problem : TypeProblem) (span : Span) : Light n (report problem span) :=
  .of_remarks (remarks_report trivial span) (reads_report problem span).scopes

theorem light_reportBoth (problem : TypeProblem) (existing : Symbol) (span : Span) :
    Light n (reportBoth problem existing span) :=
  (light_report problem existing.span).bind fun _ => light_report problem span

theorem light_record (start : Nat) (type : Ty) : Light n (modify (State.record start type)) := by
  refine .of_remarks (remarks_record start type) fun s => ?_
  show (s.record start type).scopes = s.scopes
  unfold State.record
  split <;> rfl

theorem light_resolve? (type : Option TypeExpr) : Light n (resolve? type) :=
  .of_remarks (remarks_resolve? (fun _ _ => trivial) type) (reads_resolve? type).scopes

theorem light_expression (e : Expr) : Light n (expression e) :=
  .of_remarks (remarks_expression (fun _ _ => trivial) e) (reads_expression e).scopes

theorem light_expression? : ∀ e : Option Expr, Light n (expression? e)
  | some e => light_expression e
  | none => .of_remarks (.pure ()) fun _ => rfl

theorem light_firstValue (e : Option Expr) : Light n (firstValue e) := by
  refine .of_remarks (remarks_firstValue (fun _ _ => trivial) e) fun s => ?_
  cases e with
  | some e => exact (reads_infer e).scopes s
  | none => rfl

theorem light_variableType (kind : DeclKind) (name : Ident) (declared : Option Ty)
    (initial : Option (Option Ty)) : Light n (variableType kind name declared initial) :=
  .of_remarks (remarks_variableType (fun _ _ => trivial) kind name declared initial)
    (reads_variableType kind name declared initial).scopes

theorem light_concludeFunction (signature : Signature) (frame : Frame) :
    Light n (concludeFunction signature frame) := by
  unfold concludeFunction
  have hpure : Light n (pure (returnedType frame.returns) : Check Ty) :=
    .of_remarks (.pure _) fun _ => rfl
  cases signature.returnType with
  | none => exact hpure
  | some type =>
    dsimp only
    split
    · exact (light_report _ _).bind fun _ => hpure
    · exact hpure

theorem light_addReturn (type : Ty) : Light 1 (addReturn type) := by
  constructor
  all_goals
    intro s
    rw [addReturn, run_modify]
    rcases hframes : s.frames with _ | ⟨frame, frames⟩ <;> simp [hframes]

theorem light_returnValue (value : Option Expr) (span : Span) :
    Light 1 (returnValue value span) := by
  rw [returnValue_eq]
  have hvalue : Light 1 (valueType value) := by
    refine .of_remarks (remarks_valueType (fun _ _ => trivial) value) fun s => ?_
    cases value with
    | some e => exact (reads_infer e).scopes s
    | none => rfl
  refine hvalue.bind fun type => .get_bind fun s => ?_
  split
  · exact light_report _ _
  · split
    · split
      · exact (light_report _ _).bind fun _ => light_addReturn _
      · exact light_addReturn _
    · exact light_addReturn _

end

/-! ### It does what the checker with a stack does -/

/-- The step keeps what it has to. From a sound state, what it yields and what is seen behind it
is what the step of the checker with a stack yields and leaves. -/
structure Follows (n : Nat) (t : TableState) (p : Tabled α) (q : Check α) : Prop where
  keeps : Keeps n t (p t).2
  agrees : t.Sound → q t.view = ((p t).1, (p t).2.view)

namespace Follows

variable {n : Nat} {t : TableState} {p : Tabled α} {q : Check α}

theorem pure (a : α) : Follows n t (Pure.pure a : Tabled α) (Pure.pure a) :=
  ⟨.refl n t, fun _ => rfl⟩

theorem bind {f : α → Tabled β} {g : α → Check β} (h : Follows n t p q)
    (hf : ∀ a, Follows n (p t).2 (f a) (g a)) : Follows n t (p >>= f) (q >>= g) where
  keeps := h.keeps.trans (hf (p t).1).keeps
  agrees ht := by
    rw [run_bind, h.agrees ht]
    exact (hf (p t).1).agrees (h.keeps.sound ht)

theorem get_bind {f : TableState → Tabled β} {g : State → Check β}
    (h : Follows n t (f t) (g t.view)) : Follows n t (get >>= f) (get >>= g) :=
  ⟨h.keeps, h.agrees⟩

theorem forM {f : α → Tabled Unit} {g : α → Check Unit} (h : ∀ a t, Follows n t (f a) (g a))
    (l : List α) : ∀ t, Follows n t (l.forM f) (l.forM g) := by
  induction l with
  | nil => exact fun t => pure ()
  | cons a l ih => exact fun t => (h a t).bind fun _ => ih _

/-- A step that leaves the scopes alone sees the stack. -/
theorem read (h : Light n q) (t : TableState) : Follows n t (Tabled.read q) q where
  keeps := by
    refine .of_table_eq rfl rfl rfl rfl (h.frames t.view) (h.length t.view) fun ht => ?_
    exact h.hushed t.view (decide_eq_true ht)
  agrees _ := by
    have hscopes := h.scopes t.view
    have hsilent := h.silent t.view
    show q t.view = ((q t.view).1, (⟨t.view.scopes, _, _, t.view.silent, _⟩ : State))
    rw [← hscopes, ← hsilent]
    rfl

theorem declare {id i : Nat} (hid : id = t.current ∨ id = t.function) (hi : i = t.depth id)
    (name : String) (symbol : Symbol) :
    Follows n t (Tabled.declare id name symbol) (modifyScopes (·.declare i name symbol)) where
  keeps := .declare hid name symbol
  agrees ht := by
    have hlt : id < t.table.next := by
      rcases hid with rfl | rfl
      · exact ht.current_lt
      · exact Nat.lt_of_le_of_lt (ScopeTable.le_of_mem_path ht.function_mem) ht.current_lt
    have hstack : (t.table.declare id name symbol).stack t.current t.function
        = t.view.scopes.declare (t.depth id) name symbol :=
      ScopeTable.stack_declare ((ht.forest.isSome_iff id).mpr hlt) name symbol
    show ((), { t.view with scopes := t.view.scopes.declare i name symbol }) = _
    rw [hi]
    show _ = ((),
      (⟨(t.table.declare id name symbol).stack t.current t.function, _, _, _, _⟩ : State))
    rw [hstack]
    rfl

/-- A step in a new scope. -/
theorem inScope (h : Follows n t.enter p q) : Follows n t (Tabled.inScope p) (inScope q) := by
  have hexit : { (p t.enter).2.exit with function := t.function } = (p t.enter).2.exit := by
    have hfunction : (p t.enter).2.exit.function = t.function := h.keeps.function
    rw [← hfunction]
  constructor
  · show Keeps n t (p t.enter).2.exit
    rw [← hexit]
    exact h.keeps.leave (.inl rfl)
  · intro ht
    show (fun r : α × State => (r.1, { r.2 with scopes := r.2.scopes.exit }))
      (q { t.view with scopes := t.view.scopes.enter }) = ((p t.enter).1, (p t.enter).2.exit.view)
    rw [← TableState.view_enter ht, h.agrees ht.enter, ← hexit, h.keeps.view_leave (.inl rfl) ht,
      ← h.keeps.function_view_enter ht]
    rfl

/-- A step in the scope of a new function. -/
theorem inFunctionScope (h : Follows n { t.enter with function := t.table.next } p q) :
    Follows n t (Tabled.inFunctionScope p) (inFunctionScope q) where
  keeps := h.keeps.leave (.inr rfl)
  agrees ht := by
    show (fun r : α × State =>
        (r.1, { r.2 with scopes := { r.2.scopes.exit with function := t.depth t.function } }))
      (q { t.view with scopes := t.view.scopes.enterFunction }) = _
    rw [← TableState.view_enterFunction ht, h.agrees ht.enterFunction]
    exact congrArg (Prod.mk _) (h.keeps.view_leave (.inr rfl) ht).symm

/-- A step inside a function. The functions around it are as they were. -/
theorem inFrame {p : Tabled Unit} {q : Check Unit} {declared : Option Ty}
    (h : Follows 1 { t with frames := ⟨declared, []⟩ :: t.frames } p q) :
    Follows n t (Tabled.inFrame declared p) (inFrame declared q) where
  keeps := h.keeps.pop
  agrees ht := by
    show (fun r : Unit × State =>
        (r.2.frames.headD ⟨none, []⟩, { r.2 with frames := r.2.frames.tail }))
      (q { t with frames := ⟨declared, []⟩ :: t.frames }.view) = _
    rw [h.agrees (ht.congr rfl rfl rfl)]
    rfl

/-- A trial ends in as many trials as it began in. -/
theorem trial (h : Follows n { t with trials := t.trials + 1 } p q) :
    Follows n t (Tabled.trial p) (silently q) where
  keeps := h.keeps.endTrial
  agrees ht := by
    have hview : { t with trials := t.trials + 1 }.view = { t.view with silent := true } := by
      simp [TableState.view]
    have htrials : (Tabled.trial p t).2.trials = t.trials := h.keeps.endTrial.trials
    have hend : (Tabled.trial p t).2.view = { (p { t with trials := t.trials + 1 }).2.view with
        silent := decide (0 < t.trials) } := by
      rw [TableState.view, htrials]
      rfl
    show (fun r : α × State => (r.1, { r.2 with silent := decide (0 < t.trials) }))
      (q { t.view with silent := true }) = (_, (Tabled.trial p t).2.view)
    rw [hend, ← hview, h.agrees (ht.congr rfl rfl rfl)]
    rfl

/-- A name that its scope does not have is declared there. -/
theorem declareNew {id i : Nat} (hid : id = t.current ∨ id = t.function) (hi : i = t.depth id)
    (name : String) (symbol : Symbol) :
    Follows n t (Tabled.declareNew id name symbol) (declareNew i name symbol) := by
  have hdeclare : Follows n t _ _ := declare hid hi name symbol
  have hfind : t.Sound → t.view.scopes.find? i name = t.table.find? id name := by
    intro ht
    rw [hi]
    refine ScopeTable.find?_stack ?_ name
    rcases hid with rfl | rfl
    · exact ScopeTable.mem_path_self _ _
    · exact ht.function_mem
  cases hfound : t.table.find? id name with
  | some existing =>
    refine ⟨?_, fun ht => ?_⟩
    · rw [Tabled.declareNew_of_some hfound]
      exact .refl n t
    · rw [Tabled.declareNew_of_some hfound, declareNew_of_some ((hfind ht).trans hfound)]
  | none =>
    refine ⟨?_, fun ht => ?_⟩
    · rw [Tabled.declareNew_of_none hfound]
      exact hdeclare.keeps
    · rw [Tabled.declareNew_of_none hfound, declareNew_of_none ((hfind ht).trans hfound)]
      exact congrArg (fun r => (none, r.2)) (hdeclare.agrees ht)

/-- Where a name was declared or not, no scope lies deeper than before. -/
theorem depth_declareNew (id : Nat) (name : String) (symbol : Symbol) (j : Nat) :
    (Tabled.declareNew id name symbol t).2.depth j = t.depth j := by
  cases hfound : t.table.find? id name with
  | some existing => rw [Tabled.declareNew_of_some hfound]
  | none =>
    rw [Tabled.declareNew_of_none hfound]
    exact congrArg (·.idxOf j)
      (ScopeTable.path_congr fun k _ => ScopeTable.parent?_declare k name symbol)

end Follows

section

variable {n : Nat} (t : TableState)

theorem follows_declareVariable (kind : DeclKind) (name : Ident) (type : Ty) :
    Follows n t (Tabled.declareVariable kind name type) (declareVariable kind name type) := by
  refine .get_bind ?_
  have hid : (if kind = .varKind then t.function else t.current) = t.current ∨
      (if kind = .varKind then t.function else t.current) = t.function := by
    split
    · exact .inr rfl
    · exact .inl rfl
  have hdepth : (if kind = .varKind then t.view.scopes.function else t.view.scopes.current)
      = t.depth (if kind = .varKind then t.function else t.current) := by
    split
    · exact t.function_view
    · exact t.current_view
  dsimp only
  generalize (if kind = .varKind then t.function else t.current) = id at hid hdepth ⊢
  generalize (if kind = .varKind then t.view.scopes.function else t.view.scopes.current) = i
    at hdepth ⊢
  have hnew : Follows n t _ _ :=
    .declareNew hid hdepth name.name (.value type (some kind) name.span)
  refine hnew.bind fun found => ?_
  rcases found with _ | ⟨existingType, existingKind, span⟩ | ⟨result, arity, span⟩
  · exact .pure ()
  · dsimp only
    split
    · refine .declare ?_ ?_ _ _
      · rwa [hnew.keeps.current, hnew.keeps.function]
      · rwa [Follows.depth_declareNew]
    · split
      · exact .read (light_reportBoth _ _ _) _
      · exact .read (light_reportBoth _ _ _) _
  · exact .read (light_reportBoth _ _ _) _

theorem follows_declarator (kind : DeclKind) (d : Declarator) :
    Follows n t (Tabled.declarator kind d) (declarator kind d) := by
  rw [declarator_eq]
  refine (Follows.read (light_resolve? d.declaredType) t).bind fun declared => ?_
  refine (Follows.read (light_firstValue d.initializer) _).bind fun initial => ?_
  refine (Follows.read (light_variableType kind d.name declared initial) _).bind fun type => ?_
  cases type with
  | some type => exact (Follows.read (light_record _ type) _).bind fun _ =>
      follows_declareVariable _ kind d.name type
  | none => exact follows_declareVariable _ kind d.name Ty.any

theorem follows_declaration (d : Declaration) :
    Follows n t (Tabled.declaration d) (declaration d) :=
  .forM (fun d' t => follows_declarator t d.kind d') d.declarators t

theorem follows_forStart : ∀ start : Option ForStart,
    Follows n t (Tabled.forStart start) (forStart start)
  | some (.declaration d) => follows_declaration t d
  | some (.expression e) => .read (light_expression e) t
  | none => .pure ()

/-- A name is declared in the innermost scope, and a conflict is answered. -/
theorem follows_declareHere (name : String) (symbol : Symbol) {conflict : Symbol → Check Unit}
    (h : ∀ existing, Light n (conflict existing)) :
    Follows n t (Tabled.declareHere name symbol conflict) (do
      match ← declareNew (← get).scopes.current name symbol with
      | none => pure ()
      | some existing => conflict existing) := by
  refine .get_bind ((Follows.declareNew (.inl rfl) t.current_view name symbol).bind fun found => ?_)
  cases found with
  | none => exact .pure ()
  | some existing => exact .read (h existing) _

theorem follows_declareParameter (p : Parameter) :
    Follows n t (Tabled.declareParameter p) (declareParameter p) :=
  (Follows.read (light_resolve? p.declaredType) t).bind fun _ =>
    follows_declareHere _ _ _ fun _ => light_reportBoth _ _ _

theorem follows_declareFunction (signature : Signature) :
    Follows n t (Tabled.declareFunction signature) (declareFunction signature) := by
  refine follows_declareHere t _ _ fun existing => ?_
  cases existing <;> exact light_reportBoth _ _ _

theorem follows_declareFunctions (stmts : List Stmt) :
    Follows n t (Tabled.declareFunctions stmts) (declareFunctions stmts) := by
  induction stmts generalizing t with
  | nil => exact .pure ()
  | cons s ss ih =>
    cases s with
    | function signature _ _ _ => exact (follows_declareFunction t signature).bind fun _ => ih _
    | _ => exact ih t

/-- The parameters and the body of a function, inside of its scope. -/
theorem follows_parameters {p : Tabled Unit} {q : Check Unit} (h : ∀ t, Follows 1 t p q)
    (signature : Signature) (declared : Option Ty) :
    Follows n t
      (do
        signature.parameters.forM Tabled.declareParameter
        Tabled.inFrame declared p)
      (do
        signature.parameters.forM declareParameter
        inFrame declared q) :=
  (Follows.forM (fun p t => follows_declareParameter t p) signature.parameters t).bind
    fun _ => .inFrame (h _)

theorem follows_functionBody {p : Tabled Unit} {q : Check Unit} (h : ∀ t, Follows 1 t p q)
    (signature : Signature) (declared : Option Ty) :
    Follows n t (Tabled.functionBody signature declared p) (functionBody signature declared q) :=
  Follows.bind (.inFunctionScope (follows_parameters _ h signature declared)) fun frame =>
    .read (light_concludeFunction signature frame) _

theorem follows_together (stmts : List Stmt) {tryOut run : Tabled Unit} {tryOut' run' : Check Unit}
    (htryOut : ∀ t, Follows n t tryOut tryOut') (hrun : ∀ t, Follows n t run run') :
    Follows n t (Tabled.together stmts tryOut run) (together stmts tryOut' run') :=
  (follows_declareFunctions t stmts).bind fun _ => (htryOut _).bind fun _ => hrun _

end

mutual

/-- **A checker with a table does what the checker does,** statement by statement. -/
theorem follows_statement : ∀ (stmt : Stmt) (t : TableState),
    Follows 1 t (Tabled.statement stmt) (statement stmt)
  | .variables d _, t => follows_declaration t d
  | .function signature body _ _, t =>
    (Follows.read (light_resolve? signature.returnType) t).bind fun declared =>
      (follows_functionBody _ (fun _ => follows_together _ body (follows_inferFunctions body)
        (follows_statements body)) signature declared).bind fun _ => .pure ()
  | .block body _, _ =>
    .inScope (follows_together _ body (follows_inferFunctions body) (follows_statements body))
  | .ifThen condition thenBranch _, t =>
    (Follows.read (light_expression condition) t).bind fun _ => follows_statement thenBranch _
  | .ifElse condition thenBranch elseBranch _, t =>
    (Follows.read (light_expression condition) t).bind fun _ =>
      (follows_statement thenBranch _).bind fun _ => follows_statement elseBranch _
  | .whileLoop condition body _, t =>
    (Follows.read (light_expression condition) t).bind fun _ => follows_statement body _
  | .forLoop start condition update body _, _ =>
    .inScope ((follows_forStart _ start).bind fun _ =>
      (Follows.read (light_expression? condition) _).bind fun _ =>
        (Follows.read (light_expression? update) _).bind fun _ => follows_statement body _)
  | .returns value span, t => .read (light_returnValue value span) t
  | .expression e _, t => .read (light_expression e) t

theorem follows_statements : ∀ (stmts : List Stmt) (t : TableState),
    Follows 1 t (Tabled.statements stmts) (statements stmts)
  | [], _ => .pure ()
  | stmt :: stmts, t => (follows_statement stmt t).bind fun _ => follows_statements stmts _

theorem follows_inferFunction : ∀ (stmt : Stmt) (t : TableState),
    Follows 1 t (Tabled.inferFunction stmt) (inferFunction stmt)
  | .function signature body _ _, t => by
    rw [Tabled.inferFunction, inferFunction]
    cases signature.returnType with
    | some _ => exact .pure ()
    | none =>
      refine Follows.bind (.trial (follows_functionBody _ (fun _ => follows_together _ body
        (follows_inferFunctions body) (follows_statements body)) signature none)) fun result => ?_
      exact .get_bind (.declare (.inl rfl) (TableState.current_view _) _ _)
  | .variables _ _, _ => .pure ()
  | .block _ _, _ => .pure ()
  | .ifThen _ _ _, _ => .pure ()
  | .ifElse _ _ _ _, _ => .pure ()
  | .whileLoop _ _ _, _ => .pure ()
  | .forLoop _ _ _ _ _, _ => .pure ()
  | .returns _ _, _ => .pure ()
  | .expression _ _, _ => .pure ()

theorem follows_inferFunctions : ∀ (stmts : List Stmt) (t : TableState),
    Follows 1 t (Tabled.inferFunctions stmts) (inferFunctions stmts)
  | [], _ => .pure ()
  | stmt :: stmts, t =>
    (follows_inferFunction stmt t).bind fun _ => follows_inferFunctions stmts _

end

theorem follows_body (stmts : List Stmt) (t : TableState) :
    Follows 1 t (Tabled.body stmts) (body stmts) :=
  follows_together t stmts (follows_inferFunctions stmts) (follows_statements stmts)

/-! ### Trials -/

/-- Between the two states nothing has changed, but there may be new scopes. -/
structure Untouched (t u : TableState) : Prop where
  current : u.current = t.current
  function : u.function = t.function
  scopes : ∀ id < t.table.next, u.table.scopes id = t.table.scopes id
  frames : u.frames = t.frames
  trials : u.trials = t.trials
  types : u.types = t.types
  log : u.log = t.log

/-- In an untouched state the checker sees what it saw. -/
theorem Untouched.view_eq {t u : TableState} (h : Untouched t u) (ht : t.Sound) :
    u.view = t.view := by
  have hstack : u.table.stack t.current t.function = t.table.stack t.current t.function := by
    refine ScopeTable.stack_congr (fun id hid => ?_) fun id hid => ?_
    · have hlt : id < t.table.next := Nat.lt_of_le_of_lt hid ht.current_lt
      rw [ScopeTable.parent?, ScopeTable.parent?, h.scopes id hlt]
    · have hlt : id < t.table.next :=
        Nat.lt_of_le_of_lt (ScopeTable.le_of_mem_path hid) ht.current_lt
      rw [ScopeTable.symbols, ScopeTable.symbols, h.scopes id hlt]
  rw [TableState.view, TableState.view, h.current, h.function, hstack, h.types, h.frames, h.trials,
    h.log]

/-- A function body that is checked in a trial touches nothing. -/
theorem untouched_functionBody {t : TableState} (ht : 0 < t.trials) (signature : Signature)
    (declared : Option Ty) (stmts : List Stmt) :
    Untouched t (Tabled.functionBody signature declared (Tabled.body stmts) t).2 := by
  have hkeeps : Keeps 0 t _ :=
    (follows_functionBody t (follows_body stmts) signature declared).keeps
  have hinside : Keeps 0 _ _ := (follows_parameters { t.enter with function := t.table.next }
    (follows_body stmts) signature declared).keeps
  obtain ⟨hlog, htypes⟩ := hkeeps.hushed ht
  exact ⟨hkeeps.current, hkeeps.function, fun id hid => hinside.scopes_leave hid, hkeeps.frames,
    hkeeps.trials, htypes, hlog⟩

/-- The state of the checker with a table that has the scopes of a stack. -/
def ofState (s : State) : TableState where
  table := ScopeTable.ofStack s.scopes
  current := s.scopes.current
  function := s.scopes.function
  types := s.types
  frames := s.frames
  trials := if s.silent then 1 else 0
  log := s.log

theorem sound_ofState {s : State} (h : s.scopes.Valid) : (ofState s).Sound where
  forest := ScopeTable.forest_ofStack s.scopes
  current_lt := h.current_lt
  function_mem := by
    show s.scopes.function ∈ (ScopeTable.ofStack s.scopes).path s.scopes.current
    rw [ScopeTable.path_ofStack h.current_lt, List.mem_range]
    exact Nat.lt_succ_of_le h.function_le

/-- Every state with a stack is seen in a state with a table. -/
theorem view_ofState {s : State} (h : s.scopes.Valid) : (ofState s).view = s := by
  have hsilent : decide (0 < (ofState s).trials) = s.silent := by
    rw [ofState]
    cases s.silent <;> rfl
  rw [TableState.view, hsilent]
  exact congrArg (fun scopes => { s with scopes := scopes }) (ScopeTable.stack_ofStack h)

/-- A checker that is silent is behind the body of a function what it was. -/
theorem functionBody_eq_self {s : State} (h : s.scopes.Valid) (hs : s.silent = true)
    (signature : Signature) (declared : Option Ty) (stmts : List Stmt) :
    (functionBody signature declared (body stmts) s).2 = s := by
  have htrials : 0 < (ofState s).trials := by
    rw [ofState, hs]
    exact Nat.one_pos
  have hfollows : Follows 1 (ofState s) _ _ :=
    follows_functionBody _ (follows_body stmts) signature declared
  have hagrees := hfollows.agrees (sound_ofState h)
  rw [view_ofState h] at hagrees
  rw [hagrees, (untouched_functionBody htrials signature declared stmts).view_eq (sound_ofState h),
    view_ofState h]

/-- **Trials leave no trace.** Whatever state the checker is in, in a trial it checks the body of a
function without a change to the errors, the types, the functions around or any scope that there
was, its parent included, and it ends in the scopes and the trials that it began in. So does every
statement, in a trial or not, with as many functions around. The scopes that there are in a sound
state are those below the next number. From there the checker with a stack does the same, so that
it is the same state behind a silent function body, and over a whole script the two agree. -/
theorem trials_leave_no_trace :
    (∀ (t : TableState) (signature : Signature) (declared : Option Ty) (stmts : List Stmt),
      0 < t.trials →
        Untouched t (Tabled.functionBody signature declared (Tabled.body stmts) t).2) ∧
    (∀ (t : TableState) (stmt : Stmt),
      (Tabled.statement stmt t).2.current = t.current ∧
      (Tabled.statement stmt t).2.function = t.function ∧
      (Tabled.statement stmt t).2.frames.length = t.frames.length ∧
      (Tabled.statement stmt t).2.trials = t.trials) ∧
    (∀ (t : TableState) (stmt : Stmt), t.Sound →
      (Tabled.statement stmt t).2.Sound ∧
      statement stmt t.view = ((), (Tabled.statement stmt t).2.view)) ∧
    (∀ (t : TableState) (signature : Signature) (declared : Option Ty) (stmts : List Stmt),
      t.Sound →
        functionBody signature declared (body stmts) t.view
          = ((Tabled.functionBody signature declared (Tabled.body stmts) t).1,
            (Tabled.functionBody signature declared (Tabled.body stmts) t).2.view)) ∧
    (∀ (s : State) (signature : Signature) (declared : Option Ty) (stmts : List Stmt),
      s.scopes.Valid → s.silent = true →
        (functionBody signature declared (body stmts) s).2 = s) ∧
    ∀ script : Script, (Tabled.body script.body TableState.initial).2.Sound ∧
      (Tabled.body script.body TableState.initial).2.view = script.checkedState := by
  refine ⟨fun t signature declared stmts ht => ?_, fun t stmt => ?_, fun t stmt ht => ?_,
    fun t signature declared stmts ht => ?_, fun s signature declared stmts h hs => ?_,
    fun script => ?_⟩
  · exact untouched_functionBody ht signature declared stmts
  · have hkeeps := (follows_statement stmt t).keeps
    exact ⟨hkeeps.current, hkeeps.function, hkeeps.length, hkeeps.trials⟩
  · have hfollows := follows_statement stmt t
    exact ⟨hfollows.keeps.sound ht, hfollows.agrees ht⟩
  · have hfollows : Follows 1 t _ _ :=
      follows_functionBody t (follows_body stmts) signature declared
    exact hfollows.agrees ht
  · exact functionBody_eq_self h hs signature declared stmts
  · have hfollows := follows_body script.body TableState.initial
    have hagrees := hfollows.agrees TableState.sound_initial
    rw [TableState.view_initial] at hagrees
    refine ⟨hfollows.keeps.sound TableState.sound_initial, ?_⟩
    show _ = (body script.body State.initial).2
    rw [hagrees]

/-- The theorem at `function f(p) { var x = 1; { var y } return z }` in a trial. The body opens two
scopes, declares `x` and `y` in the first, and the unknown `z` is not reported. Where the checker is
not silent it is. -/
theorem trials_leave_no_trace_unknown :
    let place (start : Nat) : Span := ⟨start, start + 1⟩
    let declares (name : String) (start : Nat) : Stmt :=
      .variables ⟨.varKind, [⟨⟨name, place start⟩, none, none, place start⟩], place start⟩
        (place start)
    let f : Signature := ⟨⟨"f", place 9⟩, [⟨⟨"p", place 11⟩, none, place 11⟩], none⟩
    let stmts : List Stmt := [declares "x" 20, .block [declares "y" 33] ⟨27, 36⟩,
      .returns (some (.identifier ⟨"z", place 44⟩)) ⟨37, 46⟩]
    let t : TableState := { TableState.initial with trials := 1 }
    let s : State := { State.initial with silent := true }
    (0 < t.trials ∧ Untouched t (Tabled.functionBody f none (Tabled.body stmts) t).2) ∧
      (Tabled.functionBody f none (Tabled.body stmts) t).2.table.next = t.table.next + 2 ∧
      (t.Sound ∧ statement (.block stmts (place 0)) t.view
        = ((), (Tabled.statement (.block stmts (place 0)) t).2.view)) ∧
      (s.scopes.Valid ∧ s.silent = true ∧ (functionBody f none (body stmts) s).2 = s) ∧
      (functionBody f none (body stmts) State.initial).2.log.length = 1 := by
  intro place declares f stmts t s
  obtain ⟨huntouched, -, hstatement, -, hself, -⟩ := trials_leave_no_trace
  have hsound : t.Sound := TableState.sound_initial.congr rfl rfl rfl
  refine ⟨⟨Nat.one_pos, huntouched t f none stmts Nat.one_pos⟩, ?_,
    ⟨hsound, (hstatement t _ hsound).2⟩,
    ⟨Nat.one_pos, rfl, hself s f none stmts Nat.one_pos rfl⟩, ?_⟩
  · decide +kernel
  · decide +kernel

end Check

end ScriptLint
