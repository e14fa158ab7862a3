import Mathlib.Logic.Equiv.Basic
import ScriptLint.Proofs.Syntax.Renaming
import ScriptLint.Typing.CheckedScript
/-!
# Renamed states of the checker

Some names mean something by themselves: the globals, the types that every
script can name, and the property `length`. A renaming keeps these as they
are, and different names apart. It takes a state of the checker to the state
in which all scopes and all errors have the images of their names. The types
in a state name only types that every script can name, so they stay.

Key definitions: `Renaming`, `TypeProblem.rename`, `Typing.State.rename`, `Check.Renames`.
Key theorems: `TypeProblem.message_rename_of_some`, `ScopeStack.lookup?_rename`,
`Typing.State.report_rename`, `Check.Renames.bind`.
-/

namespace ScriptLint

/-- A map of names that keeps different names apart, and the names that mean something by
themselves as they are. -/
structure Renaming (r : String → String) : Prop where
  injective : Function.Injective r
  global : ∀ name, (ambientSymbol? name).isSome → r name = name
  type : ∀ name, isAmbientType name → r name = name
  length : r "length" = "length"

namespace Renaming

/-- Two names that mean nothing by themselves may change places. -/
theorem swap {x y : String}
    (hx : ambientSymbol? x = none ∧ isAmbientType x = false ∧ x ≠ "length")
    (hy : ambientSymbol? y = none ∧ isAmbientType y = false ∧ y ≠ "length") :
    Renaming (Equiv.swap x y) where
  injective := (Equiv.swap x y).injective
  global name hname := by
    apply Equiv.swap_apply_of_ne_of_ne <;> rintro rfl <;> simp_all
  type name hname := by
    apply Equiv.swap_apply_of_ne_of_ne <;> rintro rfl <;> simp_all
  length := Equiv.swap_apply_of_ne_of_ne hx.2.2.symm hy.2.2.symm

variable {r : String → String} (h : Renaming r)

include h

/-- A name outside of a class that is kept as it is does not get into it. -/
theorem eq_or_not {P : String → Prop} (hP : ∀ name, P name → r name = name) (name : String) :
    r name = name ∨ ¬P name ∧ ¬P (r name) := by
  by_cases hname : P name
  · exact .inl (hP name hname)
  · by_cases himage : P (r name)
    · exact .inl (h.injective (hP (r name) himage))
    · exact .inr ⟨hname, himage⟩

theorem ambientSymbol?_eq (name : String) : ambientSymbol? (r name) = ambientSymbol? name := by
  rcases h.eq_or_not h.global name with hname | ⟨hname, himage⟩
  · rw [hname]
  · rw [Option.not_isSome_iff_eq_none.mp hname, Option.not_isSome_iff_eq_none.mp himage]

theorem isAmbientType_eq (name : String) : isAmbientType (r name) = isAmbientType name := by
  rcases h.eq_or_not h.type name with hname | ⟨hname, himage⟩
  · rw [hname]
  · rw [Bool.not_eq_true _ |>.mp hname, Bool.not_eq_true _ |>.mp himage]

theorem eq_length_iff (name : String) : r name = "length" ↔ name = "length" :=
  h.injective.eq_iff' h.length

theorem beq (a b : String) : (r a == r b) = (a == b) := by
  rw [Bool.eq_iff_iff, beq_iff_eq, beq_iff_eq, h.injective.eq_iff]

end Renaming

/-! ### Errors -/

namespace TypeProblem

/-- The name that the wording of a problem quotes. -/
def quoted? : TypeProblem → Option String
  | .unknownName name => some name
  | .duplicateIdentifier name => some name
  | .blockScopedRedeclaration name => some name
  | .unknownProperty name _ => some name
  | .assignmentToConstant name => some name
  | .assignmentToFunction name => some name
  | _ => none

/-- The same problem with another name. -/
def rename (r : String → String) : TypeProblem → TypeProblem
  | .unknownName name => .unknownName (r name)
  | .duplicateIdentifier name => .duplicateIdentifier (r name)
  | .blockScopedRedeclaration name => .blockScopedRedeclaration (r name)
  | .unknownProperty name object => .unknownProperty (r name) object
  | .assignmentToConstant name => .assignmentToConstant (r name)
  | .assignmentToFunction name => .assignmentToFunction (r name)
  | problem => problem

variable (r : String → String)

@[simp] theorem code_rename (problem : TypeProblem) : (problem.rename r).code = problem.code := by
  cases problem <;> rfl

/-- Without a name to quote the wording stays as it is. -/
theorem message_rename_of_none {problem : TypeProblem} (h : problem.quoted? = none) :
    (problem.rename r).message = problem.message := by
  cases problem <;> first | rfl | cases h

/-- **The wording changes in the quoted name and nowhere else.** -/
theorem message_rename_of_some {problem : TypeProblem} {name : String}
    (h : problem.quoted? = some name) :
    ∃ before after, problem.message = before ++ name ++ after ∧
      (problem.rename r).message = before ++ r name ++ after := by
  cases problem <;> cases h
  case unknownName => exact ⟨"Cannot find name '", "'.", rfl, rfl⟩
  case duplicateIdentifier => exact ⟨"Duplicate identifier '", "'.", rfl, rfl⟩
  case blockScopedRedeclaration =>
    exact ⟨"Cannot redeclare block-scoped variable '", "'.", rfl, rfl⟩
  case unknownProperty object =>
    have hassoc (s : String) :
        "Property '" ++ s ++ "' does not exist on type '" ++ object.display ++ "'."
          = "Property '" ++ s ++ ("' does not exist on type '" ++ object.display ++ "'.") := by
      simp only [String.append_assoc]
    exact ⟨"Property '", "' does not exist on type '" ++ object.display ++ "'.", hassoc name,
      hassoc (r name)⟩
  case assignmentToConstant =>
    exact ⟨"Cannot assign to '", "' because it is a constant.", rfl, rfl⟩
  case assignmentToFunction =>
    exact ⟨"Cannot assign to '", "' because it is a function.", rfl, rfl⟩

end TypeProblem

/-- The same error with another name. -/
def TypeError.rename (r : String → String) (e : TypeError) : TypeError :=
  ⟨e.problem.rename r, e.span⟩

@[simp] theorem TypeError.sameAs_rename (r : String → String) (a b : TypeError) :
    (a.rename r).sameAs (b.rename r) = a.sameAs b := by
  simp [sameAs, rename]

/-! ### Scopes -/

/-- A scope with its names replaced. -/
def Scope.rename (r : String → String) (scope : Scope) : Scope :=
  scope.map (Prod.map r id)

theorem Scope.lookup_rename {r : String → String} (h : Renaming r) (scope : Scope)
    (name : String) : (scope.rename r).lookup (r name) = scope.lookup name := by
  induction scope with
  | nil => rfl
  | cons entry scope ih =>
    have hcons : Scope.rename r (entry :: scope) = (r entry.1, entry.2) :: Scope.rename r scope :=
      rfl
    rw [hcons, List.lookup_cons, List.lookup_cons, h.beq, ih]

namespace ScopeStack

/-- The scopes with their names replaced. -/
def rename (r : String → String) (s : ScopeStack) : ScopeStack :=
  ⟨s.scopes.map (Scope.rename r), s.function⟩

variable (r : String → String) (s : ScopeStack)

@[simp] theorem function_rename : (s.rename r).function = s.function := rfl

@[simp] theorem current_rename : (s.rename r).current = s.current := by
  simp [current, rename]

@[simp] theorem enter_rename : (s.rename r).enter = s.enter.rename r := by
  simp [enter, rename, Scope.rename]

@[simp] theorem enterFunction_rename : (s.rename r).enterFunction = s.enterFunction.rename r := by
  rw [enterFunction, enter_rename, current_rename]
  rfl

@[simp] theorem exit_rename : (s.rename r).exit = s.exit.rename r := by
  unfold exit rename
  by_cases hlast : s.scopes.length ≤ 1
  · simp [hlast]
  · simp [hlast, List.map_dropLast]

@[simp] theorem declare_rename (scope : Nat) (name : String) (symbol : Symbol) :
    (s.rename r).declare scope (r name) symbol = (s.declare scope name symbol).rename r := by
  have hmodify : (s.scopes.map (Scope.rename r)).modify scope ((r name, symbol) :: ·) =
      (s.scopes.modify scope ((name, symbol) :: ·)).map (Scope.rename r) := by
    generalize s.scopes = scopes
    induction scopes generalizing scope with
    | nil => simp
    | cons _ _ ih => cases scope <;> simp_all [Scope.rename]
  simp [declare, rename, hmodify]

variable {r} (h : Renaming r)

include h

theorem find?_rename (scope : Nat) (name : String) :
    (s.rename r).find? scope (r name) = s.find? scope name := by
  rw [find?, find?, rename, List.getElem?_map]
  cases s.scopes[scope]? with
  | none => rfl
  | some entries => exact Scope.lookup_rename h entries name

theorem lookup?_rename (name : String) : (s.rename r).lookup? (r name) = s.lookup? name := by
  rw [lookup?, lookup?, rename, ← List.map_reverse, List.findSome?_map]
  congr 1
  funext entries
  exact Scope.lookup_rename h entries name

end ScopeStack

/-! ### The state of the checker -/

namespace Typing.State

/-- A state with the names in scopes and errors replaced. -/
def rename (r : String → String) (s : State) : State :=
  { s with scopes := s.scopes.rename r, log := s.log.map (TypeError.rename r) }

variable (r : String → String)

theorem initial_rename : initial.rename r = initial := rfl

@[simp] theorem frames_rename (s : State) : (s.rename r).frames = s.frames := rfl

@[simp] theorem scopes_rename (s : State) : (s.rename r).scopes = s.scopes.rename r := rfl

/-- An error is a repetition whatever the names are. -/
theorem report_rename (e : TypeError) (s : State) :
    (s.rename r).report (e.rename r) = (s.report e).rename r := by
  have hsame : (s.log.map (TypeError.rename r)).any (·.sameAs (e.rename r)) =
      s.log.any (·.sameAs e) := by
    simp [List.any_map, Function.comp_def]
  simp only [report, rename, hsame]
  split <;> rfl

theorem record_rename (start : Nat) (type : Ty) (s : State) :
    (s.rename r).record start type = (s.record start type).rename r := by
  by_cases hsilent : s.silent <;> simp [record, rename, hsilent]

end Typing.State

/-! ### Steps that commute with a renaming -/

namespace Check

open Typing

variable {α β γ : Type} {r : String → String}

/-- From the renamed state the second step goes where the first one goes from the state, up to
the renaming, and with the same value. -/
def Renames (r : String → String) (p q : Check α) : Prop :=
  ∀ s : State, q (s.rename r) = ((p s).1, (p s).2.rename r)

namespace Renames

theorem pure (a : α) : Renames r (Pure.pure a) (Pure.pure a) :=
  fun _ => rfl

/-- One step after the other. -/
theorem bind {p q : Check α} {f g : α → Check β} (hpq : Renames r p q)
    (hfg : ∀ a, Renames r (f a) (g a)) : Renames r (p >>= f) (q >>= g) := by
  intro s
  have hbind : (q >>= g) (s.rename r) = g (q (s.rename r)).1 (q (s.rename r)).2 := rfl
  rw [hbind, hpq s]
  exact hfg _ _

theorem get_bind {f g : State → Check α} (h : ∀ s, Renames r (f s) (g (s.rename r))) :
    Renames r (get >>= f) (get >>= g) :=
  fun s => h s s

theorem modify {f g : State → State} (h : ∀ s, g (s.rename r) = (f s).rename r) :
    Renames r (modify f) (modify g) :=
  fun s => congrArg (Prod.mk ()) (h s)

theorem forM {f : α → Check Unit} {g : β → Check Unit} {image : α → β}
    (h : ∀ a, Renames r (f a) (g (image a))) (xs : List α) :
    Renames r (xs.forM f) ((xs.map image).forM g) := by
  induction xs with
  | nil => exact pure ()
  | cons a _ ih => exact bind (h a) fun _ => ih

end Renames

theorem renames_report (problem : TypeProblem) (span : Span) :
    Renames r (report problem span) (report (problem.rename r) span) :=
  Renames.modify fun s => State.report_rename r ⟨problem, span⟩ s

/-- A problem is reported under a condition, and then it goes on. -/
theorem Renames.report_if {c : Prop} {_ : Decidable c} (problem : TypeProblem) (span : Span)
    {f g : Unit → Check α} (hfg : Renames r (f ()) (g ())) :
    Renames r (if c then report problem span >>= f else f ())
      (if c then report (problem.rename r) span >>= g else g ()) := by
  by_cases hc : c
  · rw [if_pos hc, if_pos hc]
    exact Renames.bind (renames_report problem span) fun _ => hfg
  · rw [if_neg hc, if_neg hc]
    exact hfg

theorem renames_reportBoth (problem : TypeProblem) (existing : Symbol) (span : Span) :
    Renames r (reportBoth problem existing span) (reportBoth (problem.rename r) existing span) :=
  Renames.bind (renames_report problem existing.span) fun _ => renames_report problem span

theorem renames_modifyScopes {f g : ScopeStack → ScopeStack}
    (h : ∀ s, g (s.rename r) = (f s).rename r) : Renames r (modifyScopes f) (modifyScopes g) :=
  Renames.modify fun s => by simp only [State.rename, h]

/-- **A name and its image stand for the same symbol.** -/
theorem renames_lookup? (h : Renaming r) (name : String) :
    Renames r (lookup? name) (lookup? (r name)) := by
  refine Renames.get_bind fun s => ?_
  rw [State.scopes_rename, ScopeStack.lookup?_rename s.scopes h name, h.ambientSymbol?_eq]
  exact Renames.pure _

theorem renames_declareNew (h : Renaming r) (scope : Nat) (name : String) (symbol : Symbol) :
    Renames r (declareNew scope name symbol) (declareNew scope (r name) symbol) := by
  refine Renames.get_bind fun s => ?_
  rw [State.scopes_rename, ScopeStack.find?_rename s.scopes h scope name]
  cases s.scopes.find? scope name with
  | some existing => exact Renames.pure _
  | none =>
    refine Renames.bind (renames_modifyScopes fun x => ?_) fun _ => Renames.pure _
    exact ScopeStack.declare_rename r x scope name symbol

theorem renames_inScope {p q : Check α} (h : Renames r p q) :
    Renames r (inScope p) (inScope q) := by
  refine Renames.bind (renames_modifyScopes (ScopeStack.enter_rename r)) fun _ => ?_
  refine Renames.bind h fun a => ?_
  exact Renames.bind (renames_modifyScopes (ScopeStack.exit_rename r)) fun _ => Renames.pure a

theorem renames_inFunctionScope {p q : Check α} (h : Renames r p q) :
    Renames r (inFunctionScope p) (inFunctionScope q) := by
  refine Renames.get_bind fun s => ?_
  refine Renames.bind (renames_modifyScopes (ScopeStack.enterFunction_rename r)) fun _ => ?_
  refine Renames.bind h fun a => ?_
  refine Renames.bind (renames_modifyScopes fun x => ?_) fun _ => Renames.pure a
  rw [ScopeStack.exit_rename]
  rfl

theorem renames_inFrame (declared : Option Ty) {p q : Check Unit} (h : Renames r p q) :
    Renames r (inFrame declared p) (inFrame declared q) := by
  refine Renames.bind (Renames.modify fun _ => rfl) fun _ => Renames.bind h fun _ => ?_
  refine Renames.get_bind fun s => ?_
  exact Renames.bind (Renames.modify fun _ => rfl) fun _ => Renames.pure _

theorem renames_addReturn (type : Ty) : Renames r (addReturn type) (addReturn type) := by
  refine Renames.modify fun s => ?_
  obtain ⟨scopes, types, frames, silent, log⟩ := s
  cases frames <;> rfl

theorem renames_silently {p q : Check α} (h : Renames r p q) :
    Renames r (silently p) (silently q) := by
  refine Renames.get_bind fun s => Renames.bind (Renames.modify fun _ => rfl) fun _ => ?_
  refine Renames.bind h fun a => ?_
  exact Renames.bind (Renames.modify fun _ => rfl) fun _ => Renames.pure a

end Check

end ScriptLint
