import ScriptLint.Proofs.Typing.Course
import ScriptLint.Proofs.Typing.Footprints
/-!
# What a step can report

Finding the type of an expression, or declaring a name, adds errors of a few
kinds, leaves the frames of the functions alone, and adds nothing in silence
(`Remarks`). Of a larger step it can be told which errors of some numbers it
reports: it adds none but the expected ones, and if it is not silent each
of those is there behind it (`Finds`). If no two of the expected errors share
a number and a start, the errors with these numbers at the end of a check are
exactly the expected ones.

Key definitions: `Check.Remarks`, `Check.Finds`.
Key theorems: `Check.remarks_infer`, `Check.remarks_declaration`, `Check.Finds.bind`,
`Check.Finds.mem_log_iff`.
-/

namespace ScriptLint

/-- A problem of a value or of a written type. -/
def TypeProblem.ofValue : TypeProblem → Bool
  | .duplicateFunction | .duplicateIdentifier _ | .blockScopedRedeclaration _ => false
  | .missingReturn | .strayReturn => false
  | _ => true

/-- A conflict of a declaration with a function or a parameter. -/
def TypeProblem.isDuplicate : TypeProblem → Bool
  | .duplicateFunction | .duplicateIdentifier _ => true
  | _ => false

/-- A conflict between two declarations. -/
def TypeProblem.ofNames : TypeProblem → Bool
  | .blockScopedRedeclaration _ => true
  | problem => problem.isDuplicate

theorem TypeProblem.ofNames_of_isDuplicate {problem : TypeProblem}
    (h : problem.isDuplicate = true) : problem.ofNames = true := by
  cases problem with
  | blockScopedRedeclaration _ => rfl
  | _ => exact h

namespace Check

open Typing

variable {α β : Type} {A : TypeProblem → Prop}

/-! ### Steps that make remarks -/

/-- The step adds no errors but those with a problem as told, and none in silence, and it leaves
the frames as they are. -/
structure Remarks (A : TypeProblem → Prop) (p : Check α) : Prop where
  later : ∀ s, Extends s (p s).2
  hushed : ∀ s, s.silent = true → (p s).2.log = s.log ∧ (p s).2.types = s.types
  frames : ∀ s, (p s).2.frames = s.frames
  sound : ∀ s, ∀ e ∈ (p s).2.log, e ∈ s.log ∨ A e.problem

namespace Remarks

/-- A step that changes the scopes at most. -/
theorem of_unchanged {p : Check α}
    (h : ∀ s, ∃ scopes : ScopeStack, (p s).2 = { s with scopes := scopes }) : Remarks A p := by
  refine ⟨fun s => ?_, fun s _ => ?_, fun s => ?_, fun s e he => .inl ?_⟩
  all_goals obtain ⟨scopes, hscopes⟩ := h s
  · rw [hscopes]
    exact ⟨rfl, List.suffix_refl _, List.suffix_refl _⟩
  · rw [hscopes]
    exact ⟨rfl, rfl⟩
  · rw [hscopes]
  · rwa [hscopes] at he

theorem pure (a : α) : Remarks A (Pure.pure a : Check α) :=
  of_unchanged fun s => ⟨s.scopes, rfl⟩

theorem modifyScopes (f : ScopeStack → ScopeStack) : Remarks A (modifyScopes f) :=
  of_unchanged fun s => ⟨f s.scopes, rfl⟩

theorem bind {p : Check α} {q : α → Check β} (hp : Remarks A p) (hq : ∀ a, Remarks A (q a)) :
    Remarks A (p >>= q) := by
  refine ⟨fun s => ?_, fun s hs => ?_, fun s => ?_, fun s e he => ?_⟩
  all_goals
    have hnext := hq (p s).1
  · exact (hp.later s).trans (hnext.later (p s).2)
  · obtain ⟨hlog, htypes⟩ := hp.hushed s hs
    obtain ⟨hlog', htypes'⟩ := hnext.hushed (p s).2 ((hp.later s).silent.trans hs)
    exact ⟨hlog'.trans hlog, htypes'.trans htypes⟩
  · exact (hnext.frames (p s).2).trans (hp.frames s)
  · rcases hnext.sound (p s).2 e he with he | he
    · exact hp.sound s e he
    · exact .inr he

theorem get_bind {q : State → Check β} (h : ∀ s, Remarks A (q s)) : Remarks A (get >>= q) :=
  ⟨fun s => (h s).later s, fun s => (h s).hushed s, fun s => (h s).frames s,
    fun s => (h s).sound s⟩

theorem forM {p : α → Check Unit} (h : ∀ a, Remarks A (p a)) : ∀ l : List α, Remarks A (l.forM p)
  | [] => pure ()
  | a :: l => (h a).bind fun _ => forM h l

end Remarks

theorem remarks_report {problem : TypeProblem} (h : A problem) (span : Span) :
    Remarks A (report problem span) := by
  have hrun : ∀ s, (report problem span s).2 = s.report ⟨problem, span⟩ := fun _ => rfl
  refine ⟨fun s => ?_, fun s hs => ?_, fun s => ?_, fun s e he => ?_⟩
  · rw [hrun]
    rcases report_cases ⟨problem, span⟩ s with ⟨heq, -⟩ | ⟨heq, -⟩
    · rw [heq]
      exact .refl s
    · rw [heq]
      exact ⟨rfl, List.suffix_cons _ _, List.suffix_refl _⟩
  · rw [hrun, State.report, hs, Bool.true_or, if_pos rfl]
    exact ⟨rfl, rfl⟩
  · exact (reads_report problem span).frames s
  · rw [hrun] at he
    rcases report_cases ⟨problem, span⟩ s with ⟨heq, -⟩ | ⟨heq, -⟩
    · rw [heq] at he
      exact .inl he
    · rw [heq] at he
      rcases List.mem_cons.mp he with rfl | he
      · exact .inr h
      · exact .inl he

/-- An error that is reported under a condition, and what comes then. -/
theorem Remarks.report_if {c : Prop} {_ : Decidable c} {problem : TypeProblem} {span : Span}
    {f : Unit → Check α} (h : A problem) (hf : Remarks A (f ())) :
    Remarks A (if c then report problem span >>= f else f ()) := by
  by_cases hc : c
  · rw [if_pos hc]
    exact (remarks_report h span).bind fun _ => hf
  · rw [if_neg hc]
    exact hf

theorem remarks_reportBoth {problem : TypeProblem} (h : A problem) (existing : Symbol)
    (span : Span) : Remarks A (reportBoth problem existing span) :=
  (remarks_report h existing.span).bind fun _ => remarks_report h span

theorem remarks_lookup? (n : String) : Remarks A (lookup? n) :=
  .of_unchanged fun s => ⟨s.scopes, rfl⟩

theorem remarks_record (start : Nat) (type : Ty) :
    Remarks A (modify (State.record start type)) := by
  have hrun : ∀ s : State, ((modify (State.record start type) : Check Unit) s).2
      = s.record start type := fun _ => rfl
  refine ⟨fun s => ?_, fun s hs => ?_, fun s => ?_, fun s e he => .inl ?_⟩
  · rw [hrun, State.record]
    split
    · exact .refl s
    · exact ⟨rfl, List.suffix_refl _, List.suffix_cons _ _⟩
  · rw [hrun, State.record, if_pos hs]
    exact ⟨rfl, rfl⟩
  · rw [hrun, State.record]
    split <;> rfl
  · rw [hrun, State.record] at he
    split at he <;> exact he

/-! ### Values -/

section Values

variable (hA : ∀ problem : TypeProblem, problem.ofValue = true → A problem)

include hA

theorem remarks_resolve (type : TypeExpr) : Remarks A (resolve type) := by
  refine Remarks.bind (.forM (fun name => ?_) type.unknownNames) fun _ => .pure _
  exact remarks_report (hA _ rfl) name.span

theorem remarks_resolve? : ∀ type : Option TypeExpr, Remarks A (resolve? type)
  | some type => (remarks_resolve hA type).bind fun _ => .pure _
  | none => .pure none

theorem remarks_callResult (callee : Ty) (span : Span) : Remarks A (callResult callee span) := by
  unfold callResult
  exact .report_if (hA _ rfl) (.pure Ty.any)

theorem remarks_callNamed (name : Ident) (count : Nat) (span : Span) :
    Remarks A (callNamed name count span) := by
  refine (remarks_lookup? name.name).bind fun found => ?_
  match found with
  | some (.function _ (some _) _) => exact .report_if (hA _ rfl) (.pure _)
  | some (.function _ none _) => exact .pure _
  | some (.value type _ _) =>
    exact (remarks_callResult hA type name.span).bind fun _ => .pure _
  | none => exact (remarks_report (hA _ rfl) name.span).bind fun _ => .pure none

theorem remarks_nameType (name : Ident) : Remarks A (nameType name) := by
  refine (remarks_lookup? name.name).bind fun found => ?_
  match found with
  | some (.function _ _ _) => exact .pure _
  | some (.value _ _ _) => exact .pure _
  | none => exact (remarks_report (hA _ rfl) name.span).bind fun _ => .pure none

theorem remarks_targetType (name : Ident) : Remarks A (targetType name) := by
  refine (remarks_lookup? name.name).bind fun found => ?_
  match found with
  | some (.function _ _ _) =>
    exact (remarks_report (hA _ rfl) name.span).bind fun _ => .pure _
  | some (.value _ kind _) =>
    show Remarks A (if kind = some .constKind then _ else _)
    split
    · exact (remarks_report (hA _ rfl) name.span).bind fun _ => .pure none
    · exact .pure _
  | none => exact (remarks_report (hA _ rfl) name.span).bind fun _ => .pure none

theorem remarks_addition (sign : Punctuator) (left right : Ty) (span : Span) :
    Remarks A (addition sign left right span) := by
  unfold addition
  split
  · exact .pure Ty.any
  · split
    · exact .pure Ty.string
    · split
      · exact .pure Ty.number
      · exact (remarks_report (hA _ rfl) span).bind fun _ => .pure Ty.any

theorem remarks_arithmetic (left right : Ty) (span : Span) :
    Remarks A (arithmetic left right span) := by
  unfold arithmetic
  split
  · exact (remarks_report (hA _ rfl) span).bind fun _ => .pure Ty.number
  · exact .report_if (hA _ rfl) (.pure Ty.number)

theorem remarks_binaryType (op : BinaryOp) (left right : Option Ty) (span : Span) :
    Remarks A (binaryType op left right span) := by
  unfold binaryType binaryResult
  split
  · exact .pure _
  · split
    · refine Remarks.bind ?_ fun _ => .pure _
      split
      · exact .pure _
      · exact .pure _
      · exact .pure _
      · exact remarks_addition hA _ _ _ span
      · exact remarks_arithmetic hA _ _ span
    · exact .pure none

theorem remarks_propertyType (object : Ty) (name : Ident) :
    Remarks A (propertyType object name) := by
  unfold propertyType
  split
  · exact .pure Ty.any
  · split
    · exact .pure Ty.number
    · exact (remarks_report (hA _ rfl) name.span).bind fun _ => .pure Ty.any

theorem remarks_storedType (op : AssignOp) (target : Option Ty) (value : Ty) (span : Span) :
    Remarks A (storedType op target value span) := by
  unfold storedType
  split
  · exact .pure _
  · exact (remarks_addition hA _ _ value span).bind fun _ => .pure _
  · exact .report_if (hA _ rfl) (.pure _)
  · exact .pure none

theorem remarks_assignmentType (op : AssignOp) (target value : Option Ty)
    (targetSpan valueSpan : Span) :
    Remarks A (assignmentType op target value targetSpan valueSpan) := by
  unfold assignmentType
  split
  · exact .pure none
  · refine (remarks_storedType hA op target _ _).bind fun stored => ?_
    split
    · exact .pure none
    · split
      · exact .report_if (hA _ rfl) (.pure _)
      · exact .pure _

end Values

mutual

/-- **An expression has problems of values only.** -/
theorem remarks_infer (hA : ∀ problem : TypeProblem, problem.ofValue = true → A problem) :
    ∀ e : Expr, Remarks A (infer e)
  | .number _ _ => .pure _
  | .string _ _ => .pure _
  | .boolean _ _ => .pure _
  | .null _ => .pure _
  | .identifier name => remarks_nameType hA name
  | .binary op left right span =>
    (remarks_infer hA left).bind fun leftType => (remarks_infer hA right).bind fun rightType =>
      remarks_binaryType hA op leftType rightType span
  | .unary _ operand _ => (remarks_infer hA operand).bind fun _ => .pure _
  | .typeOf operand _ => (remarks_infer hA operand).bind fun _ => .pure _
  | .assignment op target value _ => by
    have hrest := fun targetType => (remarks_infer hA value).bind fun valueType =>
      remarks_assignmentType hA op targetType valueType target.span value.span
    have htarget := remarks_infer hA target
    rw [infer]
    cases target.name? with
    | some name => exact (remarks_targetType hA name).bind hrest
    | none => exact htarget.bind hrest
  | .conditional condition whenTrue whenFalse _ => by
    refine (remarks_infer hA condition).bind fun _ => (remarks_infer hA whenTrue).bind fun x => ?_
    refine (remarks_infer hA whenFalse).bind fun y => ?_
    cases x <;> cases y <;> exact .pure _
  | .call callee arguments span => by
    have hrest := fun result : Option Ty => (remarks_inferAll hA arguments).bind fun _ => .pure result
    have hcallee := remarks_infer hA callee
    rw [infer]
    cases callee.name? with
    | some name => exact (remarks_callNamed hA name arguments.length span).bind hrest
    | none =>
      refine hcallee.bind fun type => ?_
      cases type with
      | some type =>
        have hresult := (remarks_callResult hA type callee.span).bind fun type =>
          Remarks.pure (some type)
        exact hresult.bind hrest
      | none => exact hrest none
  | .property object name _ => by
    refine (remarks_infer hA object).bind fun type => ?_
    cases type with
    | some type => exact (remarks_propertyType hA type name).bind fun _ => .pure _
    | none => exact .pure none
  | .element object index _ =>
    (remarks_infer hA object).bind fun _ => (remarks_infer hA index).bind fun _ => .pure _
  | .parenthesized inner _ => by
    rw [infer]
    exact remarks_infer hA inner
  | .array elements _ => (remarks_inferAll hA elements).bind fun _ => .pure _

theorem remarks_inferAll (hA : ∀ problem : TypeProblem, problem.ofValue = true → A problem) :
    ∀ es : List Expr, Remarks A (inferAll es)
  | [] => .pure []
  | e :: es => (remarks_infer hA e).bind fun _ => (remarks_inferAll hA es).bind fun _ => .pure _

end

section Parts

variable (hA : ∀ problem : TypeProblem, problem.ofValue = true → A problem)

include hA

theorem remarks_expression (e : Expr) : Remarks A (expression e) :=
  (remarks_infer hA e).bind fun _ => .pure ()

theorem remarks_expression? : ∀ e : Option Expr, Remarks A (expression? e)
  | some e => remarks_expression hA e
  | none => .pure ()

theorem remarks_firstValue : ∀ e : Option Expr, Remarks A (firstValue e)
  | some e => (remarks_infer hA e).bind fun _ => .pure _
  | none => .pure none

theorem remarks_valueType : ∀ value : Option Expr, Remarks A (valueType value)
  | some e => remarks_infer hA e
  | none => .pure _

theorem remarks_variableType (kind : DeclKind) (name : Ident) (declared : Option Ty)
    (initial : Option (Option Ty)) : Remarks A (variableType kind name declared initial) := by
  unfold variableType
  split
  · exact .report_if (hA _ rfl) (.pure _)
  all_goals exact .pure _

end Parts

/-! ### Declarations -/

theorem remarks_declareNew (scope : Nat) (n : String) (symbol : Symbol) :
    Remarks A (declareNew scope n symbol) := by
  refine .get_bind fun s => ?_
  cases s.scopes.find? scope n with
  | some existing => exact .pure _
  | none => exact (Remarks.modifyScopes _).bind fun _ => .pure none

theorem remarks_declareVariable (hA : ∀ problem : TypeProblem, problem.ofNames = true → A problem)
    (kind : DeclKind) (name : Ident) (type : Ty) :
    Remarks A (declareVariable kind name type) := by
  refine .get_bind fun s => (remarks_declareNew _ _ _).bind fun found => ?_
  match found with
  | none => exact .pure ()
  | some (.function _ _ _) => exact remarks_reportBoth (hA _ rfl) _ _
  | some (.value _ existingKind _) =>
    dsimp only
    split
    · exact .modifyScopes _
    · split
      · exact remarks_reportBoth (hA _ rfl) _ _
      · exact remarks_reportBoth (hA _ rfl) _ _

section Functions

variable (hA : ∀ problem : TypeProblem, problem.isDuplicate = true → A problem)

include hA

theorem remarks_declareFunction (signature : Signature) :
    Remarks A (declareFunction signature) := by
  refine .get_bind fun s => (remarks_declareNew _ _ _).bind fun found => ?_
  match found with
  | none => exact .pure ()
  | some (.function _ _ _) => exact remarks_reportBoth (hA _ rfl) _ _
  | some (.value _ _ _) => exact remarks_reportBoth (hA _ rfl) _ _

theorem remarks_declareFunctions (stmts : List Stmt) : Remarks A (declareFunctions stmts) := by
  induction stmts with
  | nil => exact .pure ()
  | cons s ss ih =>
    cases s with
    | function signature _ _ _ => exact (remarks_declareFunction hA signature).bind fun _ => ih
    | _ => exact ih

theorem remarks_declareParameter
    (hvalue : ∀ problem : TypeProblem, problem.ofValue = true → A problem) (p : Parameter) :
    Remarks A (declareParameter p) := by
  refine (remarks_resolve? hvalue p.declaredType).bind fun _ => .get_bind fun s => ?_
  refine (remarks_declareNew _ _ _).bind fun found => ?_
  cases found with
  | none => exact .pure ()
  | some existing => exact remarks_reportBoth (hA _ rfl) _ _

end Functions

section Both

variable (hvalue : ∀ problem : TypeProblem, problem.ofValue = true → A problem)
  (hnames : ∀ problem : TypeProblem, problem.ofNames = true → A problem)

include hvalue hnames

theorem remarks_declarator (kind : DeclKind) (d : Declarator) :
    Remarks A (declarator kind d) := by
  rw [declarator_eq]
  refine (remarks_resolve? hvalue d.declaredType).bind fun declared => ?_
  refine (remarks_firstValue hvalue d.initializer).bind fun initial => ?_
  refine (remarks_variableType hvalue kind d.name declared initial).bind fun type => ?_
  cases type with
  | some type =>
    exact (remarks_record _ type).bind fun _ => remarks_declareVariable hnames _ _ _
  | none => exact remarks_declareVariable hnames _ _ _

/-- **A declaration has problems of values and of names only.** -/
theorem remarks_declaration (d : Declaration) : Remarks A (declaration d) :=
  .forM (remarks_declarator hvalue hnames d.kind) d.declarators

theorem remarks_forStart : ∀ start : Option ForStart, Remarks A (forStart start)
  | some (.declaration d) => remarks_declaration hvalue hnames d
  | some (.expression e) => remarks_expression hvalue e
  | none => .pure ()

end Both

/-! ### Steps that find errors -/

variable {C : Nat → Prop} {E E' : List TypeError} {s : State}

/-- From the state `s` the step adds no errors of the numbers in `C` but those of `E`. They are
there behind it, unless it is silent; in silence nothing is added. -/
structure Finds (C : Nat → Prop) (E : List TypeError) (s : State) (p : Check α) : Prop where
  later : Extends s (p s).2
  hushed : s.silent = true → (p s).2.log = s.log ∧ (p s).2.types = s.types
  sound : ∀ e ∈ (p s).2.log, C e.problem.code → e ∈ s.log ∨ e ∈ E
  told : ∀ e ∈ E, Told e.problem.code e.span.start (p s).2

theorem Remarks.finds {p : Check α} (h : Remarks A p)
    (hA : ∀ problem, A problem → ¬C problem.code) (s : State) : Finds C [] s p := by
  refine ⟨h.later s, h.hushed s, fun e he hcode => ?_, nofun⟩
  rcases h.sound s e he with he | he
  · exact .inl he
  · exact absurd hcode (hA _ he)

namespace Finds

variable {p : Check α}

theorem congr (h : Finds C E s p) (hE : ∀ e, e ∈ E ↔ e ∈ E') : Finds C E' s p :=
  ⟨h.later, h.hushed, fun e he hcode => (h.sound e he hcode).imp_right (hE e).mp,
    fun e he => h.told e ((hE e).mpr he)⟩

theorem pure (a : α) : Finds C [] s (Pure.pure a : Check α) :=
  ⟨.refl s, fun _ => ⟨rfl, rfl⟩, fun _ he _ => .inl he, nofun⟩

/-- One step after the other finds what they find. -/
theorem bind {q : α → Check β} (hp : Finds C E s p) (hq : Finds C E' (p s).2 (q (p s).1)) :
    Finds C (E ++ E') s (p >>= q) := by
  refine ⟨hp.later.trans hq.later, fun hs => ?_, fun e he hcode => ?_, fun e he => ?_⟩
  · obtain ⟨hlog, htypes⟩ := hp.hushed hs
    obtain ⟨hlog', htypes'⟩ := hq.hushed (hp.later.silent.trans hs)
    exact ⟨hlog'.trans hlog, htypes'.trans htypes⟩
  · rcases hq.sound e he hcode with he | he
    · exact (hp.sound e he hcode).imp_right (List.mem_append_left E')
    · exact .inr (List.mem_append_right E he)
  · rcases List.mem_append.mp he with he | he
    · exact (hp.told e he).mono hq.later
    · exact hq.told e he

theorem get_bind {q : State → Check β} (h : Finds C E s (q s)) : Finds C E s (get >>= q) :=
  ⟨h.later, h.hushed, h.sound, h.told⟩

/-- After a step that finds nothing. -/
theorem after {q : α → Check β} (hp : Finds C [] s p) (hq : Finds C E (p s).2 (q (p s).1)) :
    Finds C E s (p >>= q) :=
  hp.bind hq

/-- Before a step that finds nothing. -/
theorem before {q : α → Check β} (hp : Finds C E s p) (hq : Finds C [] (p s).2 (q (p s).1)) :
    Finds C E s (p >>= q) := by
  have hboth := hp.bind hq
  rwa [List.append_nil] at hboth

theorem report (problem : TypeProblem) (span : Span) :
    Finds C [⟨problem, span⟩] s (Check.report problem span) := by
  have hremarks := remarks_report (A := fun other => other = problem) rfl span
  have hrun : (Check.report problem span s).2 = s.report ⟨problem, span⟩ := rfl
  refine ⟨hremarks.later s, hremarks.hushed s, fun e he _ => ?_, fun e he hloud => ?_⟩
  · rw [hrun] at he
    rcases report_cases ⟨problem, span⟩ s with ⟨heq, -⟩ | ⟨heq, -⟩
    · rw [heq] at he
      exact .inl he
    · rw [heq] at he
      rcases List.mem_cons.mp he with rfl | he
      · exact .inr (List.mem_singleton_self _)
      · exact .inl he
  · rw [List.mem_singleton.mp he, hrun]
    rcases report_cases ⟨problem, span⟩ s with ⟨heq, hold⟩ | ⟨heq, -⟩
    · obtain ⟨old, hmem, hsame⟩ := hold ((hremarks.later s).silent ▸ hloud)
      rw [heq]
      exact ⟨old, hmem, sameAs_iff.mp hsame⟩
    · rw [heq]
      exact ⟨_, List.mem_cons_self, rfl, rfl⟩

theorem inScope (h : Finds C E { s with scopes := s.scopes.enter } p) :
    Finds C E s (inScope p) :=
  ⟨⟨h.later.silent, h.later.log, h.later.types⟩, h.hushed, h.sound, h.told⟩

theorem inFunctionScope (h : Finds C E { s with scopes := s.scopes.enterFunction } p) :
    Finds C E s (inFunctionScope p) :=
  ⟨⟨h.later.silent, h.later.log, h.later.types⟩, h.hushed, h.sound, h.told⟩

theorem inFrame {run : Check Unit} {declared : Option Ty}
    (h : Finds C E { s with frames := ⟨declared, []⟩ :: s.frames } run) :
    Finds C E s (inFrame declared run) :=
  ⟨⟨h.later.silent, h.later.log, h.later.types⟩, h.hushed, h.sound, h.told⟩

/-- In silence nothing is found, of whatever number. -/
theorem silently {D : Nat → Prop} (h : Finds C E { s with silent := true } p) :
    Finds D [] s (silently p) := by
  obtain ⟨hlog, htypes⟩ := h.hushed rfl
  refine ⟨⟨rfl, ?_, ?_⟩, fun _ => ⟨hlog, htypes⟩, fun e he _ => .inl ?_, nofun⟩
  · exact hlog ▸ List.suffix_refl s.log
  · exact htypes ▸ List.suffix_refl s.types
  · exact hlog ▸ he

/-- **If the expected errors are told apart by their numbers and starts, they are the ones that are
there.** -/
theorem mem_log_iff (h : Finds C E s p) (hs : s.log = []) (hloud : s.silent = false)
    (hE : ∀ e ∈ E, C e.problem.code)
    (hinj : ∀ e ∈ E, ∀ e' ∈ E, e'.sameAs e = true → e' = e) {e : TypeError}
    (he : C e.problem.code) : e ∈ (p s).2.log ↔ e ∈ E := by
  have hsound : ∀ e ∈ (p s).2.log, C e.problem.code → e ∈ E := by
    intro e he hcode
    rcases h.sound e he hcode with hold | hnew
    · rw [hs] at hold
      cases hold
    · exact hnew
  refine ⟨fun hmem => hsound e hmem he, fun hmem => ?_⟩
  obtain ⟨e', he', hcode, hstart⟩ := h.told e hmem (h.later.silent.trans hloud)
  have hmem' := hsound e' he' (hcode ▸ hE e hmem)
  rwa [← hinj e hmem e' hmem' (sameAs_iff.mpr ⟨hcode, hstart⟩)]

end Finds

end Check

end ScriptLint
