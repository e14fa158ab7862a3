import Mathlib.Data.List.Pairwise
import ScriptLint.Proofs.Parsing.Ranges
import ScriptLint.Proofs.Typing.Remarks
import ScriptLint.Proofs.Typing.Visits
/-!
# The function that a `return` belongs to

The frame of a function gets one entry for each `return` statement of its
body, in the order of the source, and none for those of the functions inside
of it, however often these are tried out. What the entry is can be told: the
type of the value in the state in which the statement is met (`returnsMet`).
So the `return` statements outside of all functions are reported, and no
others; and a function whose written result asks for a value is reported
just if its body has no `return` statement of its own.

Key definitions: `Stmt.ownReturns`, `Stmt.functions`, `Check.returnsMet`, `Check.functionFrame`.
Key theorems: `Check.collects_statement`, `Check.functionFrame_eq`, `Check.finds_statement`,
`Script.returns_attributed`.
-/

namespace ScriptLint

/-! ### The `return` statements and the functions of a tree -/

/-- A `return` statement. -/
structure Return where
  value : Option Expr
  span : Span

mutual

/-- The `return` statements that are in no function inside of a statement, in the order of the
source. -/
def Stmt.ownReturns : Stmt → List Return
  | .variables _ _ => []
  | .function _ _ _ _ => []
  | .block body _ => Stmt.ownReturnsAll body
  | .ifThen _ s _ => s.ownReturns
  | .ifElse _ s s' _ => s.ownReturns ++ s'.ownReturns
  | .whileLoop _ s _ => s.ownReturns
  | .forLoop _ _ _ s _ => s.ownReturns
  | .returns value span => [⟨value, span⟩]
  | .expression _ _ => []

/-- The `return` statements that are in no function inside of the statements of a list. -/
def Stmt.ownReturnsAll : List Stmt → List Return
  | [] => []
  | s :: ss => s.ownReturns ++ Stmt.ownReturnsAll ss

end

mutual

/-- The functions in a statement with their bodies, at any depth, in the order of the source. -/
def Stmt.functions : Stmt → List (Signature × List Stmt)
  | .variables _ _ => []
  | .function f body _ _ => (f, body) :: Stmt.functionsAll body
  | .block body _ => Stmt.functionsAll body
  | .ifThen _ s _ => s.functions
  | .ifElse _ s s' _ => s.functions ++ s'.functions
  | .whileLoop _ s _ => s.functions
  | .forLoop _ _ _ s _ => s.functions
  | .returns _ _ => []
  | .expression _ _ => []

/-- The functions in the statements of a list. -/
def Stmt.functionsAll : List Stmt → List (Signature × List Stmt)
  | [] => []
  | s :: ss => s.functions ++ Stmt.functionsAll ss

end

/-- The functions of a script with their bodies. -/
def Script.functions (script : Script) : List (Signature × List Stmt) :=
  Stmt.functionsAll script.body

namespace Check

open Typing

variable {α β : Type}

/-! ### Where the `return` statements are met -/

/-- The state in which the first of some statements is checked: their functions have been declared
and tried out. -/
def settled (stmts : List Stmt) (s : State) : State :=
  (inferFunctions stmts (declareFunctions stmts s).2).2

/-- Checks the header of a `for` statement. -/
def forHeader (start : Option ForStart) (condition update : Option Expr) : Check Unit := do
  forStart start
  expression? condition
  expression? update

mutual

/-- The `return` statements that are met when a statement is checked, outside of the functions in
it, each with the state in which it is met. -/
def returnsMet : Stmt → State → List (Return × State)
  | .variables _ _, _ => []
  | .function _ _ _ _, _ => []
  | .block body _, s => returnsMetAll body (settled body { s with scopes := s.scopes.enter })
  | .ifThen condition thenBranch _, s => returnsMet thenBranch (expression condition s).2
  | .ifElse condition thenBranch elseBranch _, s =>
    returnsMet thenBranch (expression condition s).2
      ++ returnsMet elseBranch (statement thenBranch (expression condition s).2).2
  | .whileLoop condition body _, s => returnsMet body (expression condition s).2
  | .forLoop start condition update body _, s =>
    returnsMet body (forHeader start condition update { s with scopes := s.scopes.enter }).2
  | .returns value span, s => [(⟨value, span⟩, s)]
  | .expression _ _, _ => []

/-- The `return` statements that are met when the statements of a list are checked. -/
def returnsMetAll : List Stmt → State → List (Return × State)
  | [], _ => []
  | stmt :: stmts, s => returnsMet stmt s ++ returnsMetAll stmts (statement stmt s).2

end

mutual

/-- Each is met once, and in the order of the source. -/
theorem map_fst_returnsMet : ∀ (stmt : Stmt) (s : State),
    (returnsMet stmt s).map Prod.fst = stmt.ownReturns
  | .variables _ _, _ | .function _ _ _ _, _ | .returns _ _, _ | .expression _ _, _ => by
    rw [returnsMet, Stmt.ownReturns]
    rfl
  | .block body _, _ => by
    rw [returnsMet, Stmt.ownReturns, map_fst_returnsMetAll body]
  | .ifThen _ stmt _, _ | .whileLoop _ stmt _, _ | .forLoop _ _ _ stmt _, _ => by
    rw [returnsMet, Stmt.ownReturns, map_fst_returnsMet stmt]
  | .ifElse _ stmt stmt' _, _ => by
    rw [returnsMet, Stmt.ownReturns, List.map_append, map_fst_returnsMet stmt,
      map_fst_returnsMet stmt']

theorem map_fst_returnsMetAll : ∀ (stmts : List Stmt) (s : State),
    (returnsMetAll stmts s).map Prod.fst = Stmt.ownReturnsAll stmts
  | [], _ => rfl
  | stmt :: stmts, _ => by
    rw [returnsMetAll, Stmt.ownReturnsAll, List.map_append, map_fst_returnsMet stmt,
      map_fst_returnsMetAll stmts]

end

/-- What a `return` statement yields in the state in which it is met: nothing, or the type of its
value, which is `any` if it is not known. -/
def yielded (met : Return × State) : Ty :=
  (valueType met.1.value met.2).1.getD Ty.any

/-! ### What the frames collect -/

/-- The frames when the innermost function has returned values of some more types. -/
def collect (types : List Ty) : List Frame → List Frame
  | [] => []
  | frame :: frames => { frame with returns := frame.returns ++ types } :: frames

@[simp] theorem collect_nil (frames : List Frame) : collect [] frames = frames := by
  cases frames with
  | nil => rfl
  | cons frame frames => simp [collect]

theorem collect_collect (types types' : List Ty) (frames : List Frame) :
    collect types' (collect types frames) = collect (types ++ types') frames := by
  cases frames with
  | nil => rfl
  | cons frame frames => simp [collect]

@[simp] theorem isEmpty_collect (types : List Ty) (frames : List Frame) :
    (collect types frames).isEmpty = frames.isEmpty := by
  cases frames <;> rfl

/-- From the state `s` the step adds these types to the innermost frame. -/
def Adds (types : List Ty) (s : State) (p : Check α) : Prop :=
  (p s).2.frames = collect types s.frames

/-- The step adds types to the innermost frame, which depend on the state it starts from. -/
def Collects (types : State → List Ty) (p : Check α) : Prop :=
  ∀ s, Adds (types s) s p

theorem Adds.get_bind {types : List Ty} {s : State} {q : State → Check β}
    (h : Adds types s (q s)) : Adds types s (get >>= q) :=
  h

/-- Outside of all functions nothing is added. -/
theorem Adds.of_outside {types types' : List Ty} {s : State} {p : Check α} (h : Adds types s p)
    (hs : s.frames = []) : Adds types' s p := by
  unfold Adds at h ⊢
  rw [h, hs]
  rfl

namespace Collects

variable {types : State → List Ty} {p : Check α}

theorem pure (a : α) : Collects (fun _ => []) (Pure.pure a : Check α) :=
  fun _ => (collect_nil _).symm

theorem bind {types' : State → List Ty} {q : α → Check β} (hp : Collects types p)
    (hq : ∀ a, Collects types' (q a)) :
    Collects (fun s => types s ++ types' (p s).2) (p >>= q) := by
  intro s
  unfold Adds
  rw [run_bind, hq (p s).1 (p s).2, hp s, collect_collect]

/-- After a step that adds nothing. -/
theorem after {q : α → Check β} (hp : Collects (fun _ => []) p) (hq : ∀ a, Collects types (q a)) :
    Collects (fun s => types (p s).2) (p >>= q) :=
  hp.bind hq

theorem get_bind {q : State → Check β} (h : ∀ s, Collects types (q s)) :
    Collects types (get >>= q) :=
  fun s => h s s

theorem inScope (h : Collects types p) :
    Collects (fun s => types { s with scopes := s.scopes.enter }) (inScope p) :=
  fun _ => h _

theorem isEmpty_frames (h : Collects types p) (s : State) :
    (p s).2.frames.isEmpty = s.frames.isEmpty := by
  rw [h s, isEmpty_collect]

end Collects

theorem Remarks.collects {A : TypeProblem → Prop} {p : Check α} (h : Remarks A p) :
    Collects (fun _ => []) p :=
  fun s => (h.frames s).trans (collect_nil _).symm

section Parts

/-- A step that has problems of values or of names only adds nothing to the frames. -/
theorem collects_forHeader (start : Option ForStart) (condition update : Option Expr) :
    Collects (fun _ => []) (forHeader start condition update) := by
  have hany : ∀ (P : TypeProblem → Bool) (problem : TypeProblem), P problem = true → True :=
    fun _ _ _ => trivial
  exact ((remarks_forStart (hany _) (hany _) start).bind fun _ =>
    (remarks_expression? (hany _) condition).bind fun _ =>
      remarks_expression? (hany _) update).collects

theorem collects_expression (e : Expr) : Collects (fun _ => []) (expression e) :=
  (remarks_expression (A := fun _ => True) (fun _ _ => trivial) e).collects

theorem collects_declareFunctions (stmts : List Stmt) :
    Collects (fun _ => []) (declareFunctions stmts) :=
  (remarks_declareFunctions (A := fun _ => True) (fun _ _ => trivial) stmts).collects

theorem collects_resolve? (type : Option TypeExpr) : Collects (fun _ => []) (resolve? type) :=
  (remarks_resolve? (A := fun _ => True) (fun _ _ => trivial) type).collects

theorem collects_declareParameters (parameters : List Parameter) :
    Collects (fun _ => []) (parameters.forM declareParameter) :=
  (Remarks.forM (A := fun _ => True)
    (remarks_declareParameter (fun _ _ => trivial) fun _ _ => trivial) parameters).collects

end Parts

theorem collects_report (problem : TypeProblem) (span : Span) :
    Collects (fun _ => []) (report problem span) :=
  (remarks_report (A := fun _ => True) trivial span).collects

theorem collects_addReturn (type : Ty) : Collects (fun _ => [type]) (addReturn type) := by
  intro s
  unfold Adds
  rw [addReturn, run_modify]
  cases hframes : s.frames with
  | nil => simp [collect, hframes]
  | cons frame frames => simp [collect]

theorem collects_yieldValue (value : Option Expr) (span : Span) (type : Option Ty) :
    Collects (fun _ => [type.getD Ty.any]) (yieldValue value span type) := by
  intro s
  have hreturn := collects_addReturn (type.getD Ty.any)
  refine .get_bind ?_
  cases hframes : s.frames with
  | nil => exact (collects_report .strayReturn span s).of_outside hframes
  | cons frame frames =>
    dsimp only
    split
    · split
      · exact (collects_report _ _).after (fun _ => hreturn) s
      · exact hreturn s
    · exact hreturn s

theorem collects_returnValue (value : Option Expr) (span : Span) :
    Collects (fun s => [yielded (⟨value, span⟩, s)]) (returnValue value span) := by
  intro s
  have hvalue := remarks_valueType (A := fun _ => True) (fun _ _ => trivial) value
  unfold Adds
  rw [returnValue_eq, run_bind, collects_yieldValue, hvalue.frames]
  rfl

/-! ### The frame of a function -/

/-- Checks the parameters and the body of a function, and yields its frame. -/
def functionFrame (signature : Signature) (declared : Option Ty) (run : Check Unit) :
    Check Frame :=
  inFunctionScope do
    signature.parameters.forM declareParameter
    inFrame declared run

/-- What is left to do for a function when its frame is known. -/
def concludeFunction (signature : Signature) (frame : Frame) : Check Ty := do
  match signature.returnType with
  | some type => if lacksReturn frame then report .missingReturn type.span
  | none => pure ()
  return returnedType frame.returns

theorem functionBody_eq_bind (signature : Signature) (declared : Option Ty) (run : Check Unit) :
    functionBody signature declared run
      = functionFrame signature declared run >>= concludeFunction signature := rfl

/-- The state in which the body of a function begins. -/
def entered (signature : Signature) (declared : Option Ty) (s : State) : State :=
  let t := (signature.parameters.forM declareParameter
    { s with scopes := s.scopes.enterFunction }).2
  { t with frames := ⟨declared, []⟩ :: t.frames }

@[simp] theorem frames_entered (signature : Signature) (declared : Option Ty) (s : State) :
    (entered signature declared s).frames = ⟨declared, []⟩ :: s.frames := by
  have h := collects_declareParameters signature.parameters
    { s with scopes := s.scopes.enterFunction }
  rw [Adds, collect_nil] at h
  rw [entered, h]

/-- The frame has the types that the body adds to it, and the frames around it are as before. -/
theorem functionFrame_run {types : State → List Ty} {run : Check Unit} (h : Collects types run)
    (signature : Signature) (declared : Option Ty) (s : State) :
    (functionFrame signature declared run s).1 = ⟨declared, types (entered signature declared s)⟩ ∧
      (functionFrame signature declared run s).2.frames = s.frames := by
  have hframes := h (entered signature declared s)
  rw [Adds, frames_entered] at hframes
  constructor
  · show (run (entered signature declared s)).2.frames.headD ⟨none, []⟩ = _
    rw [hframes]
    rfl
  · show (run (entered signature declared s)).2.frames.tail = _
    rw [hframes]
    rfl

theorem collects_concludeFunction (signature : Signature) (frame : Frame) :
    Collects (fun _ => []) (concludeFunction signature frame) := by
  unfold concludeFunction
  cases signature.returnType with
  | none => exact .pure _
  | some type =>
    dsimp only
    split
    · exact (collects_report _ _).after fun _ => .pure _
    · exact .pure _

theorem collects_functionBody {types : State → List Ty} {run : Check Unit}
    (h : Collects types run) (signature : Signature) (declared : Option Ty) :
    Collects (fun _ => []) (functionBody signature declared run) := by
  have hframe : Collects (fun _ => []) (functionFrame signature declared run) := fun s =>
    (functionFrame_run h signature declared s).2.trans (collect_nil _).symm
  exact hframe.after fun frame => collects_concludeFunction signature frame

theorem collects_silently {types : State → List Ty} {p : Check α} (h : Collects types p) :
    Collects (fun s => types { s with silent := true }) (silently p) :=
  fun _ => h _

/-- Statements that stand together add what they add when their functions are known. -/
theorem collects_together {types : State → List Ty} {stmts : List Stmt}
    (htryOut : Collects (fun _ => []) (inferFunctions stmts))
    (hrun : Collects types (statements stmts)) :
    Collects (fun s => types (settled stmts s))
      (together stmts (inferFunctions stmts) (statements stmts)) :=
  (collects_declareFunctions stmts).after fun _ => htryOut.after fun _ => hrun

mutual

/-- **A statement adds to the innermost frame what its own `return` statements yield.** -/
theorem collects_statement : ∀ stmt : Stmt,
    Collects (fun s => (returnsMet stmt s).map yielded) (statement stmt)
  | .variables d _ =>
    (remarks_declaration (A := fun _ => True) (fun _ _ => trivial) (fun _ _ => trivial) d).collects
  | .function signature body _ _ =>
    (collects_resolve? signature.returnType).after fun declared =>
      (collects_functionBody (collects_together (collects_inferFunctions body)
        (collects_statements body)) signature declared).after fun _ => .pure ()
  | .block body _ =>
    (collects_together (collects_inferFunctions body) (collects_statements body)).inScope
  | .ifThen condition stmt _ | .whileLoop condition stmt _ =>
    (collects_expression condition).after fun _ => collects_statement stmt
  | .ifElse condition stmt stmt' _ => by
    simp only [returnsMet, List.map_append]
    exact (collects_expression condition).after fun _ =>
      (collects_statement stmt).bind fun _ => collects_statement stmt'
  | .forLoop start condition update stmt _ =>
    ((collects_forHeader start condition update).after fun _ => collects_statement stmt).inScope
  | .returns value span => collects_returnValue value span
  | .expression e _ => collects_expression e

theorem collects_statements : ∀ stmts : List Stmt,
    Collects (fun s => (returnsMetAll stmts s).map yielded) (statements stmts)
  | [] => .pure ()
  | stmt :: stmts => by
    simp only [returnsMetAll, List.map_append]
    exact (collects_statement stmt).bind fun _ => collects_statements stmts

/-- A function that is tried out adds nothing to the frame of the function around it. -/
theorem collects_inferFunction : ∀ stmt : Stmt, Collects (fun _ => []) (inferFunction stmt)
  | .function signature body _ _ => by
    rw [inferFunction]
    cases signature.returnType with
    | some _ => exact .pure ()
    | none =>
      have hbody := collects_functionBody (collects_together (collects_inferFunctions body)
        (collects_statements body)) signature none
      exact (collects_silently hbody).after fun _ => .get_bind fun _ =>
        (Remarks.modifyScopes (A := fun _ => True) _).collects
  | .variables _ _ | .block _ _ | .ifThen _ _ _ | .ifElse _ _ _ _ | .whileLoop _ _ _
  | .forLoop _ _ _ _ _ | .returns _ _ | .expression _ _ => .pure ()

theorem collects_inferFunctions : ∀ stmts : List Stmt,
    Collects (fun _ => []) (inferFunctions stmts)
  | [] => .pure ()
  | stmt :: stmts => (collects_inferFunction stmt).after fun _ => collects_inferFunctions stmts

end

/-- The `return` statements that are met in the body of a function. -/
def bodyReturns (signature : Signature) (declared : Option Ty) (stmts : List Stmt) (s : State) :
    List (Return × State) :=
  returnsMetAll stmts (settled stmts (entered signature declared s))

/-- **The frame of a function has what the `return` statements of its body yield.** -/
theorem functionFrame_eq (signature : Signature) (declared : Option Ty) (stmts : List Stmt)
    (s : State) : (functionFrame signature declared (body stmts) s).1
      = ⟨declared, (bodyReturns signature declared stmts s).map yielded⟩ :=
  (functionFrame_run (collects_together (collects_inferFunctions stmts)
    (collects_statements stmts)) signature declared s).1

theorem map_fst_bodyReturns (signature : Signature) (declared : Option Ty) (stmts : List Stmt)
    (s : State) : (bodyReturns signature declared stmts s).map Prod.fst
      = Stmt.ownReturnsAll stmts :=
  map_fst_returnsMetAll stmts _

/-! ### The errors -/

/-- The error for a `return` statement outside of all functions. -/
def strayError (r : Return) : TypeError :=
  ⟨.strayReturn, r.span⟩

/-- The error for a function that has to return a value, if its body has no `return` statement. -/
def missingError? (f : Signature × List Stmt) : Option TypeError :=
  match f.1.returnType with
  | some type =>
    if type.toTy.flags.intersects
        (Flags.any ||| Flags.unknown ||| Flags.void ||| Flags.undefined) = false ∧
        (Stmt.ownReturnsAll f.2).isEmpty = true then
      some ⟨.missingReturn, type.span⟩
    else none
  | none => none

/-- The errors for `return` statements and functions, in a function or outside of all of them. -/
def returnErrors (outside : Bool) (returns : List Return)
    (functions : List (Signature × List Stmt)) : List TypeError :=
  (if outside then returns.map strayError else []) ++ functions.filterMap missingError?

@[simp] theorem returnErrors_nil (outside : Bool) : returnErrors outside [] [] = [] := by
  cases outside <;> rfl

theorem mem_returnErrors_append {outside : Bool} {rs rs' : List Return}
    {fs fs' : List (Signature × List Stmt)} {e : TypeError} :
    e ∈ returnErrors outside (rs ++ rs') (fs ++ fs') ↔
      e ∈ returnErrors outside rs fs ++ returnErrors outside rs' fs' := by
  cases outside <;> simp only [returnErrors, List.mem_append, List.map_append,
    List.filterMap_append, Bool.false_eq_true, if_false, if_true, List.not_mem_nil, false_or]
  constructor <;> rintro ((h | h) | h | h) <;> simp [h]

/-- The numbers of these errors. -/
def OfReturns (code : Nat) : Prop :=
  code = 1108 ∨ code = 2355

variable {s : State}

theorem not_ofReturns {problem : TypeProblem}
    (h : problem.ofValue = true ∨ problem.ofNames = true) : ¬OfReturns problem.code := by
  cases problem <;> simp_all [TypeProblem.ofValue, TypeProblem.ofNames, TypeProblem.isDuplicate,
    TypeProblem.code, OfReturns]

/-- Problems of values and of names are none of these errors. -/
theorem Remarks.finds_no_return {p : Check α}
    (h : Remarks (fun problem => problem.ofValue = true ∨ problem.ofNames = true) p) (s : State) :
    Finds OfReturns [] s p :=
  h.finds (fun _ => not_ofReturns) s

theorem finds_expression (e : Expr) (s : State) : Finds OfReturns [] s (expression e) :=
  (remarks_expression (fun _ => .inl) e).finds_no_return s

theorem finds_forHeader (start : Option ForStart) (condition update : Option Expr) (s : State) :
    Finds OfReturns [] s (forHeader start condition update) :=
  Remarks.finds_no_return ((remarks_forStart (fun _ => .inl) (fun _ => .inr) start).bind fun _ =>
    (remarks_expression? (fun _ => .inl) condition).bind fun _ =>
      remarks_expression? (fun _ => .inl) update) s

theorem finds_addReturn {C : Nat → Prop} (type : Ty) (s : State) :
    Finds C [] s (addReturn type) := by
  have hrun : ∃ frames, (addReturn type s).2 = { s with frames := frames } := by
    rw [addReturn, run_modify]
    cases s.frames with
    | nil => exact ⟨s.frames, rfl⟩
    | cons frame frames => exact ⟨_, rfl⟩
  obtain ⟨frames, hrun⟩ := hrun
  refine ⟨?_, fun _ => ?_, fun e he _ => .inl ?_, fun e he => absurd he List.not_mem_nil⟩
  · rw [hrun]
    exact ⟨rfl, List.suffix_refl _, List.suffix_refl _⟩
  · rw [hrun]
    exact ⟨rfl, rfl⟩
  · rwa [hrun] at he

/-- Inside a function a `return` statement has problems of values only, and outside it has the one
error. -/
theorem finds_returnValue_of {C : Nat → Prop} {E : List TypeError} (value : Option Expr)
    (span : Span) (s : State)
    (hvalue : ∀ problem : TypeProblem, problem.ofValue = true → ¬C problem.code)
    (houtside : ∀ t : State, s.frames.isEmpty = true → Finds C E t (report .strayReturn span))
    (hinside : s.frames.isEmpty = false → E = []) : Finds C E s (returnValue value span) := by
  have htype := remarks_valueType (A := fun problem => problem.ofValue = true) (fun _ h => h) value
  rw [returnValue_eq]
  refine (htype.finds hvalue s).after ?_
  rw [← htype.frames s] at houtside hinside
  generalize (valueType value s).2 = t at houtside hinside ⊢
  generalize (valueType value s).1 = type
  have hreturn := fun u => finds_addReturn (C := C) (type.getD Ty.any) u
  refine .get_bind ?_
  cases hframes : t.frames with
  | nil => exact houtside t (by rw [hframes]; rfl)
  | cons frame frames =>
    rw [hinside (by rw [hframes]; rfl)]
    dsimp only
    split
    · split
      · exact ((remarks_report (A := fun problem => problem.ofValue = true) rfl _).finds hvalue
          t).after (hreturn _)
      · exact hreturn t
    · exact hreturn t

/-- Outside of all functions a `return` statement is an error, and inside it is none. -/
theorem finds_returnValue (value : Option Expr) (span : Span) (s : State) :
    Finds OfReturns (returnErrors s.frames.isEmpty [⟨value, span⟩] []) s
      (returnValue value span) := by
  refine finds_returnValue_of value span s (fun _ h => not_ofReturns (.inl h)) (fun t hs => ?_)
    fun hs => ?_
  · rw [hs]
    exact .report .strayReturn span
  · rw [hs]
    rfl

theorem finds_concludeFunction {f : Signature} {stmts : List Stmt} {frame : Frame}
    (hdeclared : frame.declared = f.returnType.map TypeExpr.toTy)
    (hreturns : frame.returns.isEmpty = (Stmt.ownReturnsAll stmts).isEmpty) :
    Finds OfReturns (missingError? (f, stmts)).toList s (concludeFunction f frame) := by
  unfold missingError? concludeFunction
  cases htype : f.returnType with
  | none => exact .pure _
  | some type =>
    rw [htype, Option.map_some] at hdeclared
    simp only [lacksReturn, hdeclared, hreturns, Bool.and_eq_true, Bool.not_eq_true']
    split
    · rename_i hlacks
      rw [if_pos ⟨hlacks.2, hlacks.1⟩]
      exact (Finds.report .missingReturn type.span).before (.pure _)
    · rename_i hlacks
      rw [if_neg fun h => hlacks ⟨h.2, h.1⟩]
      exact .pure _

/-- A function has the errors of the functions inside of it, and one of its own if it lacks a
`return` statement. -/
theorem finds_functionBody {f : Signature} {stmts : List Stmt} {declared : Option Ty}
    (hdeclared : declared = f.returnType.map TypeExpr.toTy)
    (hrun : ∀ t : State, Finds OfReturns
      (returnErrors t.frames.isEmpty (Stmt.ownReturnsAll stmts) (Stmt.functionsAll stmts)) t
      (body stmts)) (s : State) :
    Finds OfReturns ((Stmt.functionsAll stmts).filterMap missingError?
      ++ (missingError? (f, stmts)).toList) s (functionBody f declared (body stmts)) := by
  have hbody := hrun (entered f declared s)
  rw [frames_entered] at hbody
  rw [functionBody_eq_bind]
  refine Finds.bind (.inFunctionScope (Finds.after ?_ (.inFrame hbody))) ?_
  · refine (Remarks.forM (remarks_declareParameter (fun _ h => ?_) fun _ => .inl)
      f.parameters).finds_no_return _
    exact .inr (TypeProblem.ofNames_of_isDuplicate h)
  · rw [functionFrame_eq]
    refine finds_concludeFunction hdeclared ?_
    rw [← map_fst_bodyReturns f declared stmts s, List.isEmpty_map, List.isEmpty_map]

theorem resolve?_run (type : Option TypeExpr) (s : State) :
    (resolve? type s).1 = type.map TypeExpr.toTy := by
  cases type <;> rfl

theorem isEmpty_frames_settled (stmts : List Stmt) (s : State) :
    (settled stmts s).frames.isEmpty = s.frames.isEmpty :=
  ((collects_inferFunctions stmts).isEmpty_frames _).trans
    ((collects_declareFunctions stmts).isEmpty_frames s)

/-- Statements that stand together have the errors that they have when their functions are known. -/
theorem finds_together {stmts : List Stmt}
    (htryOut : ∀ t : State, Finds OfReturns [] t (inferFunctions stmts))
    (hrun : ∀ t : State, Finds OfReturns (returnErrors t.frames.isEmpty (Stmt.ownReturnsAll stmts)
      (Stmt.functionsAll stmts)) t (statements stmts)) (s : State) :
    Finds OfReturns (returnErrors s.frames.isEmpty (Stmt.ownReturnsAll stmts)
      (Stmt.functionsAll stmts)) s (body stmts) := by
  have hnames := (remarks_declareFunctions (fun _ h =>
    .inr (TypeProblem.ofNames_of_isDuplicate h)) stmts).finds_no_return s
  rw [← isEmpty_frames_settled stmts s]
  exact hnames.after ((htryOut _).after (hrun (settled stmts s)))

mutual

/-- **The errors about returns that a statement has** are those for the `return` statements and the
functions in it. -/
theorem finds_statement : ∀ (stmt : Stmt) (s : State),
    Finds OfReturns (returnErrors s.frames.isEmpty stmt.ownReturns stmt.functions) s
      (statement stmt)
  | .variables d _, s => by
    rw [Stmt.ownReturns, Stmt.functions, returnErrors_nil]
    exact (remarks_declaration (fun _ => .inl) (fun _ => .inr) d).finds_no_return s
  | .function f stmts _ _, s => by
    rw [Stmt.ownReturns, Stmt.functions]
    have hfunction := finds_functionBody (resolve?_run f.returnType s)
      (finds_together (finds_inferFunctions stmts) (finds_statements stmts))
      (resolve? f.returnType s).2
    have hall := ((remarks_resolve? (fun _ => .inl) f.returnType).finds_no_return s).after
      (q := fun declared => functionBody f declared (body stmts) >>= fun _ => pure ())
      (hfunction.before (.pure ()))
    refine hall.congr fun e => ?_
    cases s.frames.isEmpty <;> cases hmissing : missingError? (f, stmts) <;>
      simp [returnErrors, hmissing, or_comm]
  | .block stmts _, s => by
    rw [Stmt.ownReturns, Stmt.functions]
    exact .inScope (finds_together (finds_inferFunctions stmts) (finds_statements stmts)
      { s with scopes := s.scopes.enter })
  | .ifThen condition stmt _, s | .whileLoop condition stmt _, s => by
    rw [Stmt.ownReturns, Stmt.functions]
    refine (finds_expression condition s).after ?_
    rw [← (collects_expression condition).isEmpty_frames s]
    exact finds_statement stmt _
  | .ifElse condition stmt stmt' _, s => by
    rw [Stmt.ownReturns, Stmt.functions]
    refine (finds_expression condition s).after ?_
    rw [← (collects_expression condition).isEmpty_frames s]
    refine ((finds_statement stmt _).bind ?_).congr fun e => mem_returnErrors_append.symm
    rw [← (collects_statement stmt).isEmpty_frames]
    exact finds_statement stmt' _
  | .forLoop start condition update stmt _, s => by
    rw [Stmt.ownReturns, Stmt.functions]
    refine .inScope ?_
    have hbody := finds_statement stmt
      (forHeader start condition update { s with scopes := s.scopes.enter }).2
    rw [(collects_forHeader start condition update).isEmpty_frames] at hbody
    exact (finds_forHeader start condition update _).after (q := fun _ => statement stmt) hbody
  | .returns value span, s => by
    rw [Stmt.ownReturns, Stmt.functions]
    exact finds_returnValue value span s
  | .expression e _, s => by
    rw [Stmt.ownReturns, Stmt.functions, returnErrors_nil]
    exact finds_expression e s

theorem finds_statements : ∀ (stmts : List Stmt) (s : State),
    Finds OfReturns (returnErrors s.frames.isEmpty (Stmt.ownReturnsAll stmts)
      (Stmt.functionsAll stmts)) s (statements stmts)
  | [], s => by
    rw [Stmt.ownReturnsAll, Stmt.functionsAll, returnErrors_nil]
    exact .pure ()
  | stmt :: stmts, s => by
    rw [Stmt.ownReturnsAll, Stmt.functionsAll]
    refine ((finds_statement stmt s).bind ?_).congr fun e => mem_returnErrors_append.symm
    rw [← (collects_statement stmt).isEmpty_frames]
    exact finds_statements stmts _

/-- A function that is tried out reports nothing, of whatever number. -/
theorem finds_inferFunction {C : Nat → Prop} : ∀ (stmt : Stmt) (s : State),
    Finds C [] s (inferFunction stmt)
  | .function f stmts _ _, s => by
    rw [inferFunction]
    cases htype : f.returnType with
    | some _ => exact .pure ()
    | none =>
      have hdeclared : none = f.returnType.map TypeExpr.toTy := by rw [htype]; rfl
      have hfunction := finds_functionBody hdeclared
        (finds_together (finds_inferFunctions stmts) (finds_statements stmts))
        { s with silent := true }
      exact hfunction.silently.after (.get_bind ((Remarks.modifyScopes _).finds
        (A := fun _ => False) (fun _ h => h.elim) _))
  | .variables _ _, _ | .block _ _, _ | .ifThen _ _ _, _ | .ifElse _ _ _ _, _
  | .whileLoop _ _ _, _ | .forLoop _ _ _ _ _, _ | .returns _ _, _ | .expression _ _, _ => .pure ()

theorem finds_inferFunctions {C : Nat → Prop} : ∀ (stmts : List Stmt) (s : State),
    Finds C [] s (inferFunctions stmts)
  | [], _ => .pure ()
  | stmt :: stmts, s => (finds_inferFunction stmt s).after (finds_inferFunctions stmts _)

end

end Check

/-! ### Where they stand -/

/-- If the item has a start, a lexeme of the row starts there. -/
def StartsIn {α : Type} (start? : α → Option Nat) (a : α) (ws : List Lexeme) : Prop :=
  ∀ n ∈ start? a, ∃ w ∈ ws, n = w.span.start

namespace Among

variable {α : Type} {start? : α → Option Nat} {as : List α}

theorem filterMap_starts {ws : List Lexeme} (h : Among (StartsIn start?) as ws) :
    (as.filterMap start?).Sublist (ws.map fun w => w.span.start) := by
  induction h with
  | nil => exact List.nil_sublist _
  | skip w _ ih => exact ih.cons _
  | @cons a as ws us ha _ ih =>
    rw [List.map_append]
    cases hstart : start? a with
    | none =>
      rw [List.filterMap_cons_none hstart]
      exact ih.trans (List.sublist_append_right _ _)
    | some n =>
      obtain ⟨w, hw, rfl⟩ := ha n hstart
      have hfirst : [w.span.start].Sublist (ws.map fun w => w.span.start) :=
        List.singleton_sublist.mpr (List.mem_map.mpr ⟨w, hw, rfl⟩)
      rw [List.filterMap_cons_some hstart, ← List.singleton_append]
      exact hfirst.append ih

/-- Among the lexemes of a text no two items start at one place. -/
theorem eq_of_start {text : String} (h : Among (StartsIn start?) as (Parse.lexemesOf (scan text)))
    {a b : α} (ha : a ∈ as) (hb : b ∈ as) {n : Nat} (hn : n ∈ start? a) (hn' : n ∈ start? b) :
    a = b := by
  have hlexemes : ((Parse.lexemesOf (scan text)).map fun w => w.span.start).Nodup :=
    List.pairwise_map.mpr ((Script.starts_lexemesOf text).imp Nat.ne_of_lt)
  have hpairs := List.pairwise_filterMap.mp (h.filterMap_starts.nodup hlexemes)
  let R : α → α → Prop := fun x y => ∀ m ∈ start? x, m ∈ start? y → x = y
  have hR : Std.Symm R := ⟨fun x y hxy m hy hx => (hxy m hx hy).symm⟩
  have hall : as.Pairwise R := hpairs.imp fun hxy m hx hy => absurd rfl (hxy m hx m hy)
  exact hall.forall_of_forall (fun _ _ _ _ _ => rfl) ha hb n hn hn'

end Among

/-- Where a `return` statement starts. -/
def Return.start? (r : Return) : Option Nat :=
  some r.span.start

/-- Where the written result of a function starts. -/
def Signature.resultStart? (f : Signature × List Stmt) : Option Nat :=
  f.1.returnType.map fun type => type.span.start

theorem TypeExpr.span_root_outline (t : TypeExpr) : t.outline.root.span = t.span := by
  cases t <;> rw [TypeExpr.outline] <;> rfl

theorem Signature.Spells.result_startsIn {f : Signature} {ws : List Lexeme} (h : f.Spells ws)
    (stmts : List Stmt) : StartsIn Signature.resultStart? (f, stmts) ws := by
  intro n hn
  obtain ⟨type, htype, rfl⟩ := Option.map_eq_some_iff.mp hn
  cases h with
  | mk _ _ _ _ _ hresult =>
    obtain rfl : _ = some type := htype
    cases hresult with
    | some _ ht =>
      obtain ⟨us, hus, hsub⟩ := ht.among.part _ (List.mem_singleton_self _)
      refine ⟨us.head hus.ne_nil, ?_, ?_⟩
      · have hmem := hsub.subset (List.head_mem hus.ne_nil)
        simp [hmem]
      · rw [← type.span_root_outline, hus.span_eq, start_extent hus.ne_nil]

/-- The `return` statements and the functions are written in their order among the lexemes. -/
structure ReturnsWithin (returns : List Return) (functions : List (Signature × List Stmt))
    (ws : List Lexeme) : Prop where
  returns : Among (StartsIn Return.start?) returns ws
  functions : Among (StartsIn Signature.resultStart?) functions ws

namespace ReturnsWithin

variable {rs rs' : List Return} {fs fs' : List (Signature × List Stmt)} {ws us : List Lexeme}

theorem nil : ReturnsWithin [] [] ws :=
  ⟨.nil, .nil⟩

theorem skip (w : Lexeme) (h : ReturnsWithin rs fs ws) : ReturnsWithin rs fs (w :: ws) :=
  ⟨.skip w h.returns, .skip w h.functions⟩

theorem append (h : ReturnsWithin rs fs ws) (h' : ReturnsWithin rs' fs' us) :
    ReturnsWithin (rs ++ rs') (fs ++ fs') (ws ++ us) :=
  ⟨h.returns.append h'.returns, h.functions.append h'.functions⟩

theorem before (h : ReturnsWithin rs fs ws) (us : List Lexeme) : ReturnsWithin rs fs (ws ++ us) :=
  ⟨h.returns.before us, h.functions.before us⟩

theorem behind (h : ReturnsWithin rs fs ws) (us : List Lexeme) : ReturnsWithin rs fs (us ++ ws) :=
  ⟨h.returns.behind us, h.functions.behind us⟩

end ReturnsWithin

mutual

theorem Stmt.Spells.returns_within {junk : Prop} : ∀ {s : Stmt} {ws : List Lexeme},
    Stmt.Spells junk s ws → ReturnsWithin s.ownReturns s.functions ws
  | _, _, .variables _ _ | _, _, .expression _ _ => .nil
  | _, _, .function hf _ hb _ => by
    rw [Stmt.ownReturns, Stmt.functions]
    have hbody := hb.returns_within.functions
    exact ⟨.nil, .cons (hf.result_startsIn _) (.skip _ (hbody.before _))⟩
  | _, _, .block _ hb _ => by
    rw [Stmt.ownReturns, Stmt.functions]
    exact (hb.returns_within.before _).skip _
  | _, _, .ifThen _ _ _ _ hs | _, _, .whileLoop _ _ _ _ hs => by
    rw [Stmt.ownReturns, Stmt.functions]
    exact (((hs.returns_within.skip _).behind _).skip _).skip _
  | _, _, .ifElse _ _ _ _ hs _ hs' => by
    rw [Stmt.ownReturns, Stmt.functions]
    refine .skip _ (.skip _ (.behind (.skip _ ?_) _))
    exact hs.returns_within.append (hs'.returns_within.skip _)
  | _, _, .forLoop _ _ _ _ _ _ _ _ hs => by
    rw [Stmt.ownReturns, Stmt.functions]
    refine .skip _ (.skip _ (.behind (.skip _ (.behind (.skip _ (.behind ?_ _)) _)) _))
    exact hs.returns_within.skip _
  | _, _, @Stmt.Spells.returns _ _ _ us w _ _ he => by
    rw [Stmt.ownReturns, Stmt.functions]
    have hne := he.ne_nil (List.cons_ne_nil w _)
    refine ⟨.single fun n hn => ⟨us.head hne, List.head_mem hne, ?_⟩, .nil⟩
    rw [← Option.some.inj hn, start_extent hne]

/-- **The `return` statements and the functions of statements stand in the text in their order.** -/
theorem Stmt.SpellsAll.returns_within {junk : Prop} : ∀ {body : List Stmt} {ws : List Lexeme},
    Stmt.SpellsAll junk body ws →
      ReturnsWithin (Stmt.ownReturnsAll body) (Stmt.functionsAll body) ws
  | _, _, .nil => .nil
  | _, _, .pass _ hb => hb.returns_within.skip _
  | _, _, .cons hs hb => by
    rw [Stmt.ownReturnsAll, Stmt.functionsAll]
    exact hs.returns_within.append hb.returns_within

end

/-! ### Scripts -/

namespace Script

open Check Typing

variable (name text : String)

theorem returns_within : ReturnsWithin (Stmt.ownReturnsAll (recover name text).1.body)
    (recover name text).1.functions (Parse.lexemesOf (scan text)) :=
  (derives_readBody text).2.1.1.returns_within

theorem mem_returnErrors {script : Script} {e : TypeError} :
    e ∈ returnErrors true (Stmt.ownReturnsAll script.body) script.functions ↔
      (∃ r ∈ Stmt.ownReturnsAll script.body, strayError r = e) ∨
        ∃ f ∈ script.functions, missingError? f = some e := by
  simp [returnErrors]

theorem missingError?_eq_some {f : Signature × List Stmt} {e : TypeError} :
    missingError? f = some e ↔ ∃ type, f.1.returnType = some type ∧
      (type.toTy.flags.intersects
        (Flags.any ||| Flags.unknown ||| Flags.void ||| Flags.undefined) = false ∧
        Stmt.ownReturnsAll f.2 = []) ∧ e = ⟨.missingReturn, type.span⟩ := by
  unfold missingError?
  cases f.1.returnType with
  | none => simp
  | some type =>
    simp only [Option.ite_none_right_eq_some, Option.some.injEq, List.isEmpty_iff]
    constructor
    · rintro ⟨hlacks, rfl⟩
      exact ⟨type, rfl, hlacks, rfl⟩
    · rintro ⟨_, rfl, hlacks, rfl⟩
      exact ⟨hlacks, rfl⟩

/-- The errors about returns are those for the statements and functions of the script. -/
theorem mem_log_iff_returnErrors {e : TypeError} (he : OfReturns e.problem.code) :
    e ∈ (recover name text).1.checkedState.log ↔
      e ∈ returnErrors true (Stmt.ownReturnsAll (recover name text).1.body)
        (recover name text).1.functions := by
  have hwithin := returns_within name text
  have hfinds := finds_together (finds_inferFunctions _)
    (finds_statements (recover name text).1.body) State.initial
  refine hfinds.mem_log_iff rfl rfl (fun e he => ?_) (fun e he e' he' hsame => ?_) he
  · rcases mem_returnErrors.mp he with ⟨r, -, rfl⟩ | ⟨f, -, hf⟩
    · exact .inl rfl
    · obtain ⟨type, -, -, rfl⟩ := missingError?_eq_some.mp hf
      exact .inr rfl
  · obtain ⟨hcode, hstart⟩ := sameAs_iff.mp hsame
    rcases mem_returnErrors.mp he with ⟨r, hr, rfl⟩ | ⟨f, hf, hmissing⟩ <;>
      rcases mem_returnErrors.mp he' with ⟨r', hr', rfl⟩ | ⟨f', hf', hmissing'⟩
    · rw [hwithin.returns.eq_of_start hr' hr rfl (congrArg some hstart.symm)]
    · obtain ⟨type, -, -, rfl⟩ := missingError?_eq_some.mp hmissing'
      simp [strayError, TypeProblem.code] at hcode
    · obtain ⟨type, -, -, rfl⟩ := missingError?_eq_some.mp hmissing
      simp [strayError, TypeProblem.code] at hcode
    · obtain ⟨type, htype, -, rfl⟩ := missingError?_eq_some.mp hmissing
      obtain ⟨type', htype', -, rfl⟩ := missingError?_eq_some.mp hmissing'
      have hn : type'.span.start ∈ Signature.resultStart? f' :=
        Option.map_eq_some_iff.mpr ⟨type', htype', rfl⟩
      have hn' : type'.span.start ∈ Signature.resultStart? f :=
        Option.map_eq_some_iff.mpr ⟨type, htype, hstart.symm⟩
      rw [hwithin.functions.eq_of_start hf' hf hn hn'] at hmissing'
      exact Option.some.inj (hmissing'.symm.trans hmissing)

/-- The `return` statements outside of all functions are reported, and no others. -/
theorem strayReturn_perm :
    (((recover name text).1.check.diagnostics.filter (·.code = 1108)).map Diagnostic.span).Perm
      ((Stmt.ownReturnsAll (recover name text).1.body).map Return.span) := by
  have hwithin := returns_within name text
  have hstarts : ((Stmt.ownReturnsAll (recover name text).1.body).map Return.span).Nodup := by
    have hlexemes := List.pairwise_map.mpr ((starts_lexemesOf text).imp Nat.ne_of_lt)
    have hnodup := hwithin.returns.filterMap_starts.nodup hlexemes
    refine List.pairwise_map.mpr ((List.pairwise_filterMap.mp hnodup).imp fun hne hspan => ?_)
    exact hne _ rfl _ rfl (congrArg Span.start hspan)
  refine (List.perm_ext_iff_of_nodup (nodup_spans_of_code _ 1108) hstarts).mpr fun span => ?_
  simp only [List.mem_map, List.mem_filter, decide_eq_true_eq]
  constructor
  · rintro ⟨d, ⟨hd, hcode⟩, rfl⟩
    obtain ⟨e, he, rfl⟩ := mem_diagnostics.mp hd
    have he := (mem_log_iff_returnErrors name text (.inl hcode)).mp he
    rcases mem_returnErrors.mp he with ⟨r, hr, rfl⟩ | ⟨f, -, hmissing⟩
    · exact ⟨r, hr, rfl⟩
    · obtain ⟨type, -, -, rfl⟩ := missingError?_eq_some.mp hmissing
      simp [TypeError.toDiagnostic, TypeProblem.code] at hcode
  · rintro ⟨r, hr, rfl⟩
    have he : strayError r ∈ (recover name text).1.checkedState.log :=
      (mem_log_iff_returnErrors name text (.inl rfl)).mpr (mem_returnErrors.mpr (.inl ⟨r, hr, rfl⟩))
    exact ⟨_, ⟨mem_diagnostics.mpr ⟨_, he, rfl⟩, rfl⟩, rfl⟩

/-- An error about a missing `return` statement is one of a function. -/
theorem exists_of_missingReturn {d : Diagnostic}
    (hd : d ∈ (recover name text).1.check.diagnostics) (hcode : d.code = 2355) :
    ∃ f ∈ (recover name text).1.functions, ∃ e, missingError? f = some e ∧ e.span = d.span := by
  obtain ⟨e, he, rfl⟩ := mem_diagnostics.mp hd
  have he := (mem_log_iff_returnErrors name text (.inr hcode)).mp he
  rcases mem_returnErrors.mp he with ⟨r, -, rfl⟩ | ⟨f, hf, hmissing⟩
  · simp [strayError, TypeError.toDiagnostic, TypeProblem.code] at hcode
  · exact ⟨f, hf, e, hmissing, rfl⟩

/-- **A `return` statement belongs to the function around it.** Whenever the body of a function is
checked, its frame gets one type for each `return` statement that is in the body and in no function
inside of it, in the order of the source. So outside of all functions every `return` statement is
reported once, and no other; and a function with a written result is reported there just if the
result asks for a value and the body has no `return` statement of its own. -/
theorem returns_attributed :
    (∀ f ∈ (recover name text).1.functions, ∀ (declared : Option Ty) (s : State),
      functionBody f.1 declared (Check.body f.2) s
        = (functionFrame f.1 declared (Check.body f.2) >>= concludeFunction f.1) s ∧
      (functionFrame f.1 declared (Check.body f.2) s).1.returns
        = (bodyReturns f.1 declared f.2 s).map yielded ∧
      (bodyReturns f.1 declared f.2 s).map Prod.fst = Stmt.ownReturnsAll f.2) ∧
    (((recover name text).1.check.diagnostics.filter (·.code = 1108)).map Diagnostic.span).Perm
      ((Stmt.ownReturnsAll (recover name text).1.body).map Return.span) ∧
    (∀ f ∈ (recover name text).1.functions, ∀ type, f.1.returnType = some type →
      ((∃ d ∈ (recover name text).1.check.diagnostics, d.code = 2355 ∧ d.span = type.span) ↔
        type.toTy.flags.intersects
          (Flags.any ||| Flags.unknown ||| Flags.void ||| Flags.undefined) = false ∧
        Stmt.ownReturnsAll f.2 = [])) ∧
    ∀ d ∈ (recover name text).1.check.diagnostics, d.code = 2355 →
      ∃ f ∈ (recover name text).1.functions, ∃ type, f.1.returnType = some type ∧
        d.span = type.span := by
  refine ⟨fun f _ declared s => ⟨rfl, ?_, map_fst_bodyReturns f.1 declared f.2 s⟩,
    strayReturn_perm name text, fun f hf type htype => ⟨?_, fun hlacks => ?_⟩, fun d hd hcode => ?_⟩
  · rw [functionFrame_eq]
  · rintro ⟨d, hd, hcode, hspan⟩
    obtain ⟨f', hf', e, hmissing, hplace⟩ := exists_of_missingReturn name text hd hcode
    obtain ⟨type', htype', hlacks, rfl⟩ := missingError?_eq_some.mp hmissing
    -- the written result that the error stands at belongs to one function only
    have hn : type.span.start ∈ Signature.resultStart? f :=
      Option.map_eq_some_iff.mpr ⟨type, htype, rfl⟩
    have hn' : type.span.start ∈ Signature.resultStart? f' := by
      refine Option.map_eq_some_iff.mpr ⟨type', htype', ?_⟩
      rw [← hspan, ← hplace]
    obtain rfl := (returns_within name text).functions.eq_of_start hf hf' hn hn'
    obtain rfl := Option.some.inj (htype.symm.trans htype')
    exact hlacks
  · have hmissing := missingError?_eq_some.mpr ⟨type, htype, hlacks, rfl⟩
    have he := (mem_log_iff_returnErrors name text (.inr rfl)).mpr
      (mem_returnErrors.mpr (.inr ⟨f, hf, hmissing⟩))
    exact ⟨_, mem_diagnostics.mpr ⟨_, he, rfl⟩, rfl, rfl⟩
  · obtain ⟨f, hf, e, hmissing, hplace⟩ := exists_of_missingReturn name text hd hcode
    obtain ⟨type, htype, -, rfl⟩ := missingError?_eq_some.mp hmissing
    exact ⟨f, hf, type, htype, hplace.symm⟩

/-- The theorem at a text in which the only `return` statement of a function stands in a function
inside of it: the outer function is reported, and so is the `return` statement behind it. -/
theorem returns_attributed_nested :
    ∃ f type, f ∈ (recover "a.ts"
        "function f(): number { function g() { if (1) return 2 } } { return }").1.functions ∧
      f.1.returnType = some type ∧ type.span = ⟨14, 6⟩ ∧
      (bodyReturns f.1 none f.2 State.initial).map Prod.fst = [] ∧
      (∃ d ∈ (recover "a.ts"
        "function f(): number { function g() { if (1) return 2 } } { return }").1.check.diagnostics,
        d.code = 2355 ∧ d.span = type.span) ∧
      (((recover "a.ts" "function f(): number { function g() { if (1) return 2 } } { return }").1.check
        |>.diagnostics.filter (·.code = 1108)).map Diagnostic.span).Perm [⟨60, 6⟩] := by
  have hfunctions : (recover "a.ts"
      "function f(): number { function g() { if (1) return 2 } } { return }").1.functions.map
        (fun f => (f.1.returnType.map fun type => (type.span, type.toTy.flags.intersects
          (Flags.any ||| Flags.unknown ||| Flags.void ||| Flags.undefined)),
          (Stmt.ownReturnsAll f.2).length))
      = [(some (⟨14, 6⟩, false), 0), (none, 1)] := by
    decide +kernel
  have hstray : (Stmt.ownReturnsAll (recover "a.ts"
      "function f(): number { function g() { if (1) return 2 } } { return }").1.body).map Return.span
      = [⟨60, 6⟩] := by
    decide +kernel
  obtain ⟨f, hf, hparts⟩ := List.mem_map.mp (hfunctions ▸ List.mem_cons_self)
  obtain ⟨hresult, hnone⟩ := Prod.mk.inj hparts
  obtain ⟨type, htype, hspan⟩ := Option.map_eq_some_iff.mp hresult
  obtain ⟨hplace, hflags⟩ := Prod.mk.inj hspan
  have hown := List.length_eq_zero_iff.mp hnone
  obtain ⟨hcollected, hperm, hmissing, -⟩ := returns_attributed "a.ts"
    "function f(): number { function g() { if (1) return 2 } } { return }"
  refine ⟨f, type, hf, htype, hplace, ?_, (hmissing f hf type htype).mpr ⟨hflags, hown⟩, ?_⟩
  · rw [(hcollected f hf none State.initial).2.2, hown]
  · exact hstray ▸ hperm

end Script

end ScriptLint
