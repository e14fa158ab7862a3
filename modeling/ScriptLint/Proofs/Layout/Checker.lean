import ScriptLint.Proofs.Layout.Alignment
import ScriptLint.Proofs.Syntax.Alike
import ScriptLint.Typing.CheckedScript
/-!
# The checker at corresponding places

Two states of the checker are alike when they hold the same symbols, types
and errors at corresponding places, and two steps agree when they take such
states to such states. Offsets are data to the checker twice: an error is
dropped if one of the same number was reported at the same start, and the
type of a variable is kept under the start of its name. Both ask only
whether two starts are the same.

Key definitions: `Typing.State.Alike`, `Check.Agree`.
Key theorems: `RecordedAlike.lookup`, `Typing.State.Alike.report`, `Check.Agree.bind`.
-/

namespace ScriptLint

variable {A : Alignment}

/-- One type error at two places. -/
structure TypeError.Alike (ρ : Span → Span → Prop) (e e' : TypeError) : Prop where
  problem : e.problem = e'.problem
  span : ρ e.span e'.span

/-- What one name stands for, declared at two places. -/
inductive Symbol.Alike (ρ : Span → Span → Prop) : Symbol → Symbol → Prop where
  | value {type : Ty} {kind : Option DeclKind} {s t : Span} :
    ρ s t → Alike ρ (.value type kind s) (.value type kind t)
  | function {result : Ty} {arity : Option Nat} {s t : Span} :
    ρ s t → Alike ρ (.function result arity s) (.function result arity t)

namespace Symbol.Alike

variable {ρ : Span → Span → Prop} {x y : Symbol}

theorem span (h : x.Alike ρ y) : ρ x.span y.span := by
  cases h <;> assumption

/-- Where a symbol was declared may be left out of account. -/
theorem anywhere (h : x.Alike ρ y) : x.Alike (fun _ _ => True) y := by
  cases h with
  | value _ => exact .value trivial
  | function _ => exact .function trivial

theorem refl : ∀ x : Symbol, x.Alike (fun _ _ => True) x
  | .value _ _ _ => .value trivial
  | .function _ _ _ => .function trivial

end Symbol.Alike

/-! ### Scopes -/

/-- One scope with its names declared at corresponding places. -/
def Scope.Alike (A : Alignment) (x y : Scope) : Prop :=
  List.Forall₂ (fun a b : String × Symbol => a.1 = b.1 ∧ a.2.Alike A.Spans b.2) x y

theorem Scope.Alike.lookup {x y : Scope} (h : Scope.Alike A x y) (name : String) :
    Option.Rel (Symbol.Alike A.Spans) (x.lookup name) (y.lookup name) := by
  induction h with
  | nil => exact .none
  | @cons a b _ _ hab _ ih =>
    obtain ⟨n, a⟩ := a
    obtain ⟨m, b⟩ := b
    obtain ⟨rfl, hab⟩ : n = m ∧ a.Alike A.Spans b := hab
    by_cases hn : name = n
    · subst hn
      simpa using Option.Rel.some hab
    · have hne : (name == n) = false := by simpa using hn
      simpa [List.lookup_cons, hne] using ih

/-- The same scopes with names declared at corresponding places. -/
structure ScopeStack.Alike (A : Alignment) (x y : ScopeStack) : Prop where
  scopes : List.Forall₂ (Scope.Alike A) x.scopes y.scopes
  function : x.function = y.function

namespace ScopeStack.Alike

variable {x y : ScopeStack}

theorem current (h : x.Alike A y) : x.current = y.current := by
  rw [ScopeStack.current, ScopeStack.current, h.scopes.length_eq]

theorem enter (h : x.Alike A y) : x.enter.Alike A y.enter :=
  ⟨List.rel_append h.scopes (.cons .nil .nil), h.function⟩

theorem enterFunction (h : x.Alike A y) : x.enterFunction.Alike A y.enterFunction :=
  ⟨h.enter.scopes, h.enter.current⟩

theorem exit (h : x.Alike A y) : x.exit.Alike A y.exit := by
  have hlength := h.scopes.length_eq
  refine ⟨?_, h.function⟩
  simp only [ScopeStack.exit, ← hlength, List.dropLast_eq_take]
  split
  · exact h.scopes
  · exact List.forall₂_take _ h.scopes

theorem find? (h : x.Alike A y) (scope : Nat) (name : String) :
    Option.Rel (Symbol.Alike A.Spans) (x.find? scope name) (y.find? scope name) := by
  unfold ScopeStack.find?
  have hscopes := h.scopes
  generalize x.scopes = xs at hscopes ⊢
  generalize y.scopes = ys at hscopes ⊢
  induction hscopes generalizing scope with
  | nil => exact .none
  | cons hxy _ ih =>
    cases scope with
    | zero => exact hxy.lookup name
    | succ scope => simpa using ih scope

theorem lookup? (h : x.Alike A y) (name : String) :
    Option.Rel (Symbol.Alike A.Spans) (x.lookup? name) (y.lookup? name) := by
  unfold ScopeStack.lookup?
  have hscopes := List.forall₂_reverse_iff.mpr h.scopes
  generalize x.scopes.reverse = xs at hscopes ⊢
  generalize y.scopes.reverse = ys at hscopes ⊢
  induction hscopes with
  | nil => exact .none
  | cons hxy _ ih =>
    rw [List.findSome?_cons, List.findSome?_cons]
    have hfound := hxy.lookup name
    generalize List.lookup name _ = a at hfound ⊢
    generalize List.lookup name _ = b at hfound ⊢
    cases hfound with
    | none => exact ih
    | some hab => exact .some hab

theorem declare (h : x.Alike A y) (scope : Nat) (name : String) {a b : Symbol}
    (hab : a.Alike A.Spans b) : (x.declare scope name a).Alike A (y.declare scope name b) := by
  refine ⟨?_, h.function⟩
  show List.Forall₂ (Scope.Alike A) (x.scopes.modify scope _) (y.scopes.modify scope _)
  have hscopes := h.scopes
  generalize x.scopes = xs at hscopes ⊢
  generalize y.scopes = ys at hscopes ⊢
  induction hscopes generalizing scope with
  | nil => simp
  | cons hxy hrest ih =>
    cases scope with
    | zero => exact .cons (.cons ⟨rfl, hab⟩ hxy) hrest
    | succ scope => exact .cons hxy (ih scope)

end ScopeStack.Alike

/-! ### The state of the checker -/

/-- Types recorded at corresponding places. -/
def RecordedAlike (A : Alignment) (x y : List (Nat × Ty)) : Prop :=
  List.Forall₂ (fun a b : Nat × Ty => A.starts a.1 b.1 ∧ a.2 = b.2) x y

/-- At corresponding places the same types were recorded. -/
theorem RecordedAlike.lookup {x y : List (Nat × Ty)} (h : RecordedAlike A x y) {i j : Nat}
    (hij : A.starts i j) : x.lookup i = y.lookup j := by
  induction h with
  | nil => rfl
  | @cons a b _ _ hab _ ih =>
    obtain ⟨k, a⟩ := a
    obtain ⟨l, b⟩ := b
    obtain ⟨hkl, rfl⟩ : A.starts k l ∧ a = b := hab
    have heq := A.eq_iff hij hkl
    by_cases hik : i = k
    · rw [List.lookup_cons, List.lookup_cons, beq_iff_eq.mpr hik, beq_iff_eq.mpr (heq.mp hik)]
    · have hne : (i == k) = false := by simpa using hik
      have hne' : (j == l) = false := by simpa using mt heq.mpr hik
      rw [List.lookup_cons, List.lookup_cons, hne, hne']
      exact ih

/-- The checker at corresponding places of two trees. -/
structure Typing.State.Alike (A : Alignment) (s t : Typing.State) : Prop where
  scopes : s.scopes.Alike A t.scopes
  types : RecordedAlike A s.types t.types
  frames : s.frames = t.frames
  silent : s.silent = t.silent
  log : List.Forall₂ (TypeError.Alike A.Spans) s.log t.log

namespace Typing.State.Alike

variable {s t : Typing.State}

/-- An error is a repetition at both places or at none. -/
theorem any_sameAs (h : s.Alike A t) {e e' : TypeError} (he : e.Alike A.Spans e') :
    s.log.any (·.sameAs e) = t.log.any (·.sameAs e') := by
  have hlog := h.log
  generalize s.log = xs at hlog ⊢
  generalize t.log = ys at hlog ⊢
  induction hlog with
  | nil => rfl
  | @cons a b _ _ hab _ ih =>
    have hstart : (a.span.start == e.span.start) = (b.span.start == e'.span.start) := by
      rw [Bool.eq_iff_iff, beq_iff_eq, beq_iff_eq]
      exact A.eq_iff hab.span.start he.span.start
    have hsame : a.sameAs e = b.sameAs e' := by
      rw [TypeError.sameAs, TypeError.sameAs, hab.problem, he.problem, hstart]
    rw [List.any_cons, List.any_cons, ih, hsame]

theorem report (h : s.Alike A t) {e e' : TypeError} (he : e.Alike A.Spans e') :
    Typing.State.Alike A (s.report e) (t.report e') := by
  rw [Typing.State.report, Typing.State.report, h.silent, h.any_sameAs he]
  split
  · exact h
  · exact ⟨h.scopes, h.types, h.frames, rfl, .cons he h.log⟩

theorem record (h : s.Alike A t) {i j : Nat} (hij : A.starts i j) (type : Ty) :
    Typing.State.Alike A (s.record i type) (t.record j type) := by
  rw [Typing.State.record, Typing.State.record, h.silent]
  split
  · exact h
  · exact ⟨h.scopes, .cons ⟨hij, rfl⟩ h.types, h.frames, rfl, h.log⟩

end Typing.State.Alike

/-! ### Steps that agree -/

namespace Check

open Typing

variable {α β γ δ : Type} {R : α → β → Prop} {Q : γ → δ → Prop}

/-- From states that are alike the two steps lead to states that are alike, with values related
by `R`. -/
def Agree (A : Alignment) (R : α → β → Prop) (p : Check α) (q : Check β) : Prop :=
  ∀ s t : State, s.Alike A t → R (p s).1 (q t).1 ∧ (p s).2.Alike A (q t).2

namespace Agree

theorem pure {a : α} {b : β} (h : R a b) : Agree A R (Pure.pure a) (Pure.pure b) :=
  fun _ _ hst => ⟨h, hst⟩

/-- One step after the other. -/
theorem bind {p : Check γ} {q : Check δ} {f : γ → Check α} {g : δ → Check β} (hpq : Agree A Q p q)
    (hfg : ∀ c d, Q c d → Agree A R (f c) (g d)) : Agree A R (p >>= f) (q >>= g) := by
  intro s t hst
  obtain ⟨hcd, hst'⟩ := hpq s t hst
  exact hfg _ _ hcd _ _ hst'

/-- One step after the other, when the first ends with the same value in both. -/
theorem bind_eq {p q : Check γ} {f : γ → Check α} {g : γ → Check β} (hpq : Agree A (· = ·) p q)
    (hfg : ∀ c, Agree A R (f c) (g c)) : Agree A R (p >>= f) (q >>= g) := by
  refine bind hpq fun c d hcd => ?_
  subst hcd
  exact hfg c

/-- One step after the other, when the first has no value. -/
theorem andThen {p q : Check Unit} {f : Unit → Check α} {g : Unit → Check β}
    (hpq : Agree A (fun _ _ => True) p q) (hfg : Agree A R (f ()) (g ())) :
    Agree A R (p >>= f) (q >>= g) :=
  bind hpq fun _ _ _ => hfg

theorem get_bind {f : State → Check α} {g : State → Check β}
    (h : ∀ s t, s.Alike A t → Agree A R (f s) (g t)) : Agree A R (get >>= f) (get >>= g) :=
  fun s t hst => h s t hst s t hst

theorem modify {f g : State → State} (h : ∀ s t, s.Alike A t → (f s).Alike A (g t)) :
    Agree A (fun _ _ => True) (modify f) (modify g) :=
  fun s t hst => ⟨trivial, h s t hst⟩

theorem forM {f : γ → Check Unit} {g : δ → Check Unit}
    (h : ∀ c d, Q c d → Agree A (fun _ _ => True) (f c) (g d)) {xs : List γ} {ys : List δ}
    (hxy : List.Forall₂ Q xs ys) : Agree A (fun _ _ => True) (xs.forM f) (ys.forM g) := by
  induction hxy with
  | nil => exact pure trivial
  | cons hcd _ ih => exact andThen (h _ _ hcd) ih

end Agree

theorem agree_report (problem : TypeProblem) {s t : Span} (h : A.Spans s t) :
    Agree A (fun _ _ => True) (report problem s) (report problem t) :=
  Agree.modify fun _ _ hst => hst.report ⟨rfl, h⟩

theorem agree_reportBoth (problem : TypeProblem) {x y : Symbol} (hxy : x.Alike A.Spans y)
    {s t : Span} (h : A.Spans s t) :
    Agree A (fun _ _ => True) (reportBoth problem x s) (reportBoth problem y t) :=
  Agree.andThen (agree_report problem hxy.span) (agree_report problem h)

theorem agree_modifyScopes {f g : ScopeStack → ScopeStack}
    (h : ∀ x y, x.Alike A y → (f x).Alike A (g y)) :
    Agree A (fun _ _ => True) (modifyScopes f) (modifyScopes g) :=
  Agree.modify fun _ _ hst => ⟨h _ _ hst.scopes, hst.types, hst.frames, hst.silent, hst.log⟩

/-- A name stands for the same. Globals are declared nowhere, so places are left out. -/
theorem agree_lookup? (name : String) :
    Agree A (Option.Rel (Symbol.Alike fun _ _ => True)) (lookup? name) (lookup? name) := by
  refine Agree.get_bind fun s t hst => Agree.pure ?_
  have hfound := hst.scopes.lookup? name
  generalize s.scopes.lookup? name = a at hfound ⊢
  generalize t.scopes.lookup? name = b at hfound ⊢
  cases hfound with
  | some hab => exact .some hab.anywhere
  | none =>
    show Option.Rel _ (ambientSymbol? name) (ambientSymbol? name)
    cases ambientSymbol? name with
    | none => exact .none
    | some x => exact .some (.refl x)

theorem agree_declareNew (scope : Nat) (name : String) {x y : Symbol}
    (hxy : x.Alike A.Spans y) :
    Agree A (Option.Rel (Symbol.Alike A.Spans)) (declareNew scope name x)
      (declareNew scope name y) := by
  refine Agree.get_bind fun s t hst => ?_
  have hfound := hst.scopes.find? scope name
  generalize s.scopes.find? scope name = a at hfound ⊢
  generalize t.scopes.find? scope name = b at hfound ⊢
  cases hfound with
  | some hab => exact Agree.pure (.some hab)
  | none =>
    refine Agree.andThen (agree_modifyScopes fun _ _ h => h.declare scope name hxy) ?_
    exact Agree.pure .none

theorem agree_inScope {p : Check α} {q : Check β} (h : Agree A R p q) :
    Agree A R (inScope p) (inScope q) := by
  refine Agree.andThen (agree_modifyScopes fun _ _ h => h.enter) ?_
  refine Agree.bind h fun a b hab => ?_
  exact Agree.andThen (agree_modifyScopes fun _ _ h => h.exit) (Agree.pure hab)

theorem agree_inFunctionScope {p : Check α} {q : Check β} (h : Agree A R p q) :
    Agree A R (inFunctionScope p) (inFunctionScope q) := by
  refine Agree.get_bind fun s t hst => ?_
  refine Agree.andThen (agree_modifyScopes fun _ _ h => h.enterFunction) ?_
  refine Agree.bind h fun a b hab => ?_
  refine Agree.andThen (agree_modifyScopes fun x y hxy => ?_) (Agree.pure hab)
  exact ⟨hxy.exit.scopes, hst.scopes.function⟩

theorem agree_inFrame (declared : Option Ty) {p q : Check Unit}
    (h : Agree A (fun _ _ => True) p q) :
    Agree A (· = ·) (inFrame declared p) (inFrame declared q) := by
  refine Agree.andThen (Agree.modify fun s t hst => ?_) (Agree.andThen h ?_)
  · exact ⟨hst.scopes, hst.types, congrArg (⟨declared, []⟩ :: ·) hst.frames, hst.silent, hst.log⟩
  · refine Agree.get_bind fun s t hst => Agree.andThen (Agree.modify fun s t hst => ?_) ?_
    · exact ⟨hst.scopes, hst.types, congrArg List.tail hst.frames, hst.silent, hst.log⟩
    · exact Agree.pure (by rw [hst.frames])

theorem agree_addReturn (type : Ty) :
    Agree A (fun _ _ => True) (addReturn type) (addReturn type) := by
  refine Agree.modify fun s t hst => ?_
  rw [hst.frames]
  split
  · exact ⟨hst.scopes, hst.types, rfl, hst.silent, hst.log⟩
  · exact hst

theorem agree_silently {p : Check α} {q : Check β} (h : Agree A R p q) :
    Agree A R (silently p) (silently q) := by
  refine Agree.get_bind fun s t hst => Agree.andThen (Agree.modify fun s t hst => ?_) ?_
  · exact ⟨hst.scopes, hst.types, hst.frames, rfl, hst.log⟩
  · refine Agree.bind h fun a b hab => Agree.andThen (Agree.modify fun s' t' hst' => ?_) ?_
    · exact ⟨hst'.scopes, hst'.types, hst'.frames, hst.silent, hst'.log⟩
    · exact Agree.pure hab

end Check

end ScriptLint
