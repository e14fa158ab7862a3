import ScriptLint.Proofs.Syntax.Names
import ScriptLint.Typing.Check
/-!
# What the type of an expression depends on

To find the type of an expression the checker looks up names and reports
errors, and nothing else. So the type depends on what the names stand for
that the expression mentions, and of the state only the errors change.

Key definitions: `Check.Reads`.
Key theorems: `Check.reads_infer`.
-/

namespace ScriptLint.Check

open Typing

variable {α β : Type} {M N : List String}

/-- The step looks up no names but the given ones, and changes nothing but the errors. -/
structure Reads (N : List String) (p : Check α) : Prop where
  unchanged : ∀ s : State, ∃ log, (p s).2 = { s with log := log }
  value : ∀ s t : State, (∀ n ∈ N, s.scopes.lookup? n = t.scopes.lookup? n) → (p s).1 = (p t).1

namespace Reads

theorem scopes {p : Check α} (h : Reads N p) (s : State) : (p s).2.scopes = s.scopes := by
  obtain ⟨log, hlog⟩ := h.unchanged s
  rw [hlog]

theorem frames {p : Check α} (h : Reads N p) (s : State) : (p s).2.frames = s.frames := by
  obtain ⟨log, hlog⟩ := h.unchanged s
  rw [hlog]

theorem pure (a : α) : Reads [] (Pure.pure a : Check α) :=
  ⟨fun s => ⟨s.log, rfl⟩, fun _ _ _ => rfl⟩

/-- One step after the other reads what they read. -/
theorem bind {p : Check α} {f : α → Check β} (hp : Reads N p) (hf : ∀ a, Reads M (f a)) :
    Reads (N ++ M) (p >>= f) := by
  constructor
  · intro s
    obtain ⟨log, hlog⟩ := hp.unchanged s
    obtain ⟨log', hlog'⟩ := (hf (p s).1).unchanged (p s).2
    refine ⟨log', ?_⟩
    show (f (p s).1 (p s).2).2 = _
    rw [hlog', hlog]
  · intro s t hst
    have hvalue : (p s).1 = (p t).1 :=
      hp.value s t fun n hn => hst n (List.mem_append_left M hn)
    show (f (p s).1 (p s).2).1 = (f (p t).1 (p t).2).1
    rw [hvalue]
    refine (hf _).value _ _ fun n hn => ?_
    rw [hp.scopes s, hp.scopes t]
    exact hst n (List.mem_append_right N hn)

/-- One step after the other, when the second reads nothing. -/
theorem andThen {p : Check α} {f : α → Check β} (hp : Reads N p) (hf : ∀ a, Reads [] (f a)) :
    Reads N (p >>= f) := by
  have hboth := hp.bind hf
  rwa [List.append_nil] at hboth

end Reads

theorem reads_lookup? (name : String) : Reads [name] (lookup? name) := by
  refine ⟨fun s => ⟨s.log, rfl⟩, fun s t hst => ?_⟩
  show (s.scopes.lookup? name).or _ = (t.scopes.lookup? name).or _
  rw [hst name (List.mem_singleton_self name)]

theorem reads_report (problem : TypeProblem) (span : Span) : Reads [] (report problem span) := by
  refine ⟨fun s => ?_, fun _ _ _ => rfl⟩
  show ∃ log, s.report ⟨problem, span⟩ = _
  unfold State.report
  split
  · exact ⟨s.log, rfl⟩
  · exact ⟨_ :: s.log, rfl⟩

theorem reads_reportBoth (problem : TypeProblem) (existing : Symbol) (span : Span) :
    Reads [] (reportBoth problem existing span) :=
  (reads_report problem existing.span).andThen fun _ => reads_report problem span

/-- An error that is reported under a condition, and what comes then. -/
theorem reads_report_if {c : Prop} {_ : Decidable c} {problem : TypeProblem} {span : Span}
    {f : Unit → Check α} (hf : Reads N (f ())) :
    Reads N (if c then report problem span >>= f else f ()) := by
  by_cases hc : c
  · rw [if_pos hc]
    exact (reads_report problem span).bind fun _ => hf
  · rw [if_neg hc]
    exact hf

/-! ### Written types -/

theorem reads_resolve (type : TypeExpr) : Reads [] (resolve type) := by
  refine Reads.andThen ?_ fun _ => Reads.pure _
  induction type.unknownNames with
  | nil => exact Reads.pure ()
  | cons name names ih => exact (reads_report _ name.span).andThen fun _ => ih

theorem reads_resolve? : ∀ type : Option TypeExpr, Reads [] (resolve? type)
  | some type => (reads_resolve type).andThen fun _ => Reads.pure _
  | none => Reads.pure none

/-! ### Names -/

theorem reads_callResult (callee : Ty) (span : Span) : Reads [] (callResult callee span) := by
  unfold callResult
  exact reads_report_if (Reads.pure Ty.any)

theorem reads_callNamed (name : Ident) (count : Nat) (span : Span) :
    Reads [name.name] (callNamed name count span) := by
  refine (reads_lookup? name.name).andThen fun found => ?_
  match found with
  | some (.function _ (some _) _) => exact reads_report_if (Reads.pure _)
  | some (.function _ none _) => exact Reads.pure _
  | some (.value type _ _) =>
    exact (reads_callResult type name.span).andThen fun _ => Reads.pure _
  | none => exact (reads_report _ name.span).andThen fun _ => Reads.pure none

theorem reads_nameType (name : Ident) : Reads [name.name] (nameType name) := by
  refine (reads_lookup? name.name).andThen fun found => ?_
  match found with
  | some (.function _ _ _) => exact Reads.pure _
  | some (.value _ _ _) => exact Reads.pure _
  | none => exact (reads_report _ name.span).andThen fun _ => Reads.pure none

theorem reads_targetType (name : Ident) : Reads [name.name] (targetType name) := by
  refine (reads_lookup? name.name).andThen fun found => ?_
  match found with
  | some (.function _ _ _) => exact (reads_report _ name.span).andThen fun _ => Reads.pure _
  | some (.value _ kind _) =>
    show Reads [] (if kind = some .constKind then _ else _)
    split
    · exact (reads_report _ name.span).andThen fun _ => Reads.pure none
    · exact Reads.pure _
  | none => exact (reads_report _ name.span).andThen fun _ => Reads.pure none

/-! ### Operations -/

theorem reads_addition (sign : Punctuator) (left right : Ty) (span : Span) :
    Reads [] (addition sign left right span) := by
  unfold addition
  split
  · exact Reads.pure Ty.any
  · split
    · exact Reads.pure Ty.string
    · split
      · exact Reads.pure Ty.number
      · exact (reads_report _ span).andThen fun _ => Reads.pure Ty.any

theorem reads_arithmetic (left right : Ty) (span : Span) :
    Reads [] (arithmetic left right span) := by
  unfold arithmetic
  split
  · exact (reads_report _ span).andThen fun _ => Reads.pure Ty.number
  · exact reads_report_if (Reads.pure Ty.number)

theorem reads_binaryResult (op : BinaryOp) (left right : Ty) (span : Span) :
    Reads [] (binaryResult op left right span) := by
  unfold binaryResult
  split
  · exact Reads.pure _
  · exact Reads.pure _
  · exact Reads.pure _
  · exact reads_addition _ left right span
  · exact reads_arithmetic left right span

theorem reads_binaryType (op : BinaryOp) (left right : Option Ty) (span : Span) :
    Reads [] (binaryType op left right span) := by
  unfold binaryType
  split
  · exact Reads.pure _
  · split
    · exact (reads_binaryResult op _ _ span).andThen fun _ => Reads.pure _
    · exact Reads.pure none

theorem reads_propertyType (object : Ty) (name : Ident) :
    Reads [] (propertyType object name) := by
  unfold propertyType
  split
  · exact Reads.pure Ty.any
  · split
    · exact Reads.pure Ty.number
    · exact (reads_report _ name.span).andThen fun _ => Reads.pure Ty.any

theorem reads_storedType (op : AssignOp) (target : Option Ty) (value : Ty) (span : Span) :
    Reads [] (storedType op target value span) := by
  unfold storedType
  split
  · exact Reads.pure _
  · exact (reads_addition _ _ value span).andThen fun _ => Reads.pure _
  · exact reads_report_if (Reads.pure _)
  · exact Reads.pure none

theorem reads_assignmentType (op : AssignOp) (target value : Option Ty)
    (targetSpan valueSpan : Span) :
    Reads [] (assignmentType op target value targetSpan valueSpan) := by
  unfold assignmentType
  split
  · exact Reads.pure none
  · refine (reads_storedType op target _ _).andThen fun stored => ?_
    split
    · exact Reads.pure none
    · split
      · exact reads_report_if (Reads.pure _)
      · exact Reads.pure _

/-! ### Expressions -/

theorem names_of_name? {e : Expr} {name : Ident} (h : e.name? = some name) :
    e.names = [name.name] := by
  cases e with
  | identifier _ =>
    obtain rfl := Option.some.inj h
    rfl
  | _ => cases h

mutual

/-- **The type of an expression depends on the names it mentions,** and only the errors change
while it is found. -/
theorem reads_infer : ∀ e : Expr, Reads e.names (infer e)
  | .number _ _ => Reads.pure _
  | .string _ _ => Reads.pure _
  | .boolean _ _ => Reads.pure _
  | .null _ => Reads.pure _
  | .identifier name => reads_nameType name
  | .binary op left right span =>
    (reads_infer left).bind fun leftType => (reads_infer right).andThen fun rightType =>
      reads_binaryType op leftType rightType span
  | .unary _ operand _ => (reads_infer operand).andThen fun _ => Reads.pure _
  | .typeOf operand _ => (reads_infer operand).andThen fun _ => Reads.pure _
  | .assignment op target value _ => by
    have hrest := fun targetType => (reads_infer value).andThen fun valueType =>
      reads_assignmentType op targetType valueType target.span value.span
    have htarget := reads_infer target
    rw [infer, Expr.names]
    cases hname : target.name? with
    | some name =>
      rw [names_of_name? hname]
      exact (reads_targetType name).bind hrest
    | none => exact htarget.bind hrest
  | .conditional condition whenTrue whenFalse _ => by
    refine (reads_infer condition).bind fun _ => (reads_infer whenTrue).bind fun x => ?_
    refine (reads_infer whenFalse).andThen fun y => ?_
    cases x <;> cases y <;> exact Reads.pure _
  | .call callee arguments span => by
    have hrest := fun result : Option Ty =>
      (reads_inferAll arguments).andThen fun _ => Reads.pure result
    have hcallee := reads_infer callee
    rw [infer, Expr.names]
    cases hname : callee.name? with
    | some name =>
      rw [names_of_name? hname]
      exact (reads_callNamed name arguments.length span).bind hrest
    | none =>
      refine hcallee.bind fun type => ?_
      cases type with
      | some type =>
        have hresult := (reads_callResult type callee.span).andThen fun type =>
          Reads.pure (some type)
        exact hresult.bind hrest
      | none => exact hrest none
  | .property object name _ => by
    refine (reads_infer object).andThen fun type => ?_
    cases type with
    | some type => exact (reads_propertyType type name).andThen fun _ => Reads.pure _
    | none => exact Reads.pure none
  | .element object index _ =>
    (reads_infer object).bind fun _ => (reads_infer index).andThen fun _ => Reads.pure _
  | .parenthesized inner _ => by
    rw [infer]
    exact reads_infer inner
  | .array elements _ => (reads_inferAll elements).andThen fun _ => Reads.pure _

theorem reads_inferAll : ∀ es : List Expr, Reads (Expr.namesAll es) (inferAll es)
  | [] => Reads.pure []
  | e :: es => (reads_infer e).bind fun _ => (reads_inferAll es).andThen fun _ => Reads.pure _

end

theorem reads_expression (e : Expr) : Reads e.names (expression e) :=
  (reads_infer e).andThen fun _ => Reads.pure ()

theorem reads_variableType (kind : DeclKind) (name : Ident) (declared : Option Ty)
    (initial : Option (Option Ty)) : Reads [] (variableType kind name declared initial) := by
  unfold variableType
  split
  · exact reads_report_if (Reads.pure _)
  all_goals exact Reads.pure _

end ScriptLint.Check
