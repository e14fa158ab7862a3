import Mathlib.Data.List.Flatten
import Mathlib.Data.List.Nodup
import Mathlib.Data.List.Perm.Subperm
import ScriptLint.Proofs.Typing.Returns
/-!
# Variables that are declared twice

Every variable belongs to the nearest scope around it: the file, a block, the
body of a function, or a `for` statement together with a bare body. The
branches of `if` and `while` open no scope. In a script without `var`, in which
no variable has the name of a function or a parameter, the scopes of the
checker hold of each name the first variable that was declared there. So a
variable is reported just if its scope has another one of its name, whether
that one comes before or behind it, and however often the functions around it
are tried out.

Key definitions: `Stmt.ownVariables`, `Stmt.innerScopes`, `Script.variableScopes`, `clashes`,
`ScopeStack.Mirrors`, `Check.Redeclares`.
Key theorems: `Check.redeclares_statement`, `Script.redeclared_perm`.
-/

namespace ScriptLint

/-! ### The scopes of a tree -/

/-- The variables that are declared in the header of a `for` statement. -/
def ForStart.variables (start : Option ForStart) : List Ident :=
  (start.toList.flatMap ForStart.declarators).map Declarator.name

/-- The variables that a statement declares in the scope that it stands in. -/
def Stmt.ownVariables : Stmt → List Ident
  | .variables d _ => d.declarators.map Declarator.name
  | .function _ _ _ _ => []
  | .block _ _ => []
  | .ifThen _ s _ => s.ownVariables
  | .ifElse _ s s' _ => s.ownVariables ++ s'.ownVariables
  | .whileLoop _ s _ => s.ownVariables
  | .forLoop _ _ _ _ _ => []
  | .returns _ _ => []
  | .expression _ _ => []

mutual

/-- The scopes that a statement opens, at any depth, each with the variables that are declared in
it. -/
def Stmt.innerScopes : Stmt → List (List Ident)
  | .variables _ _ => []
  | .function _ body _ _ => body.flatMap Stmt.ownVariables :: Stmt.innerScopesAll body
  | .block body _ => body.flatMap Stmt.ownVariables :: Stmt.innerScopesAll body
  | .ifThen _ s _ => s.innerScopes
  | .ifElse _ s s' _ => s.innerScopes ++ s'.innerScopes
  | .whileLoop _ s _ => s.innerScopes
  | .forLoop start _ _ s _ => (ForStart.variables start ++ s.ownVariables) :: s.innerScopes
  | .returns _ _ => []
  | .expression _ _ => []

/-- The scopes that the statements of a list open. -/
def Stmt.innerScopesAll : List Stmt → List (List Ident)
  | [] => []
  | s :: ss => s.innerScopes ++ Stmt.innerScopesAll ss

end

namespace Script

/-- The scopes of a script, each with the variables that are declared in it. -/
def variableScopes (script : Script) : List (List Ident) :=
  script.body.flatMap Stmt.ownVariables :: Stmt.innerScopesAll script.body

/-- The variables that share their scope with another variable of their name. -/
def redeclared (script : Script) : List Ident :=
  script.variableScopes.flatMap fun scope =>
    scope.filter fun v => ∃ u ∈ scope, u ≠ v ∧ u.name = v.name

end Script

/-- The name of a parameter or a function that is introduced at a site. -/
def Site.callName? : Site → Option Ident
  | .parameter p => some p.name
  | .signature f => some f.name
  | _ => none

/-- The parameters and the functions of a script. -/
def Script.callNames (script : Script) : List Ident :=
  script.sites.filterMap Site.callName?

mutual

/-- Each variable is in one of the scopes. -/
theorem Stmt.scopes_perm_declarators : ∀ s : Stmt,
    (s.ownVariables ++ s.innerScopes.flatten).Perm (s.declarators.map Declarator.name)
  | .variables d _ => by
    rw [Stmt.ownVariables, Stmt.innerScopes, Stmt.declarators, List.flatten_nil, List.append_nil]
  | .function _ body _ _ | .block body _ => by
    rw [Stmt.ownVariables, Stmt.innerScopes, Stmt.declarators, List.nil_append, List.flatten_cons]
    exact Stmt.scopes_perm_declaratorsAll body
  | .ifThen _ s _ | .whileLoop _ s _ => by
    rw [Stmt.ownVariables, Stmt.innerScopes, Stmt.declarators]
    exact s.scopes_perm_declarators
  | .ifElse _ s s' _ => by
    rw [Stmt.ownVariables, Stmt.innerScopes, Stmt.declarators, List.flatten_append, List.map_append]
    have hboth := s.scopes_perm_declarators.append s'.scopes_perm_declarators
    rw [List.perm_iff_count] at hboth ⊢
    simp only [List.count_append] at hboth ⊢
    intro v
    have hv := hboth v
    omega
  | .forLoop start _ _ s _ => by
    rw [Stmt.ownVariables, Stmt.innerScopes, Stmt.declarators, List.nil_append, List.flatten_cons,
      List.map_append, List.append_assoc]
    exact s.scopes_perm_declarators.append_left _
  | .returns _ _ | .expression _ _ => by
    rw [Stmt.ownVariables, Stmt.innerScopes, Stmt.declarators]
    rfl

theorem Stmt.scopes_perm_declaratorsAll : ∀ ss : List Stmt,
    (ss.flatMap Stmt.ownVariables ++ (Stmt.innerScopesAll ss).flatten).Perm
      ((Stmt.declaratorsAll ss).map Declarator.name)
  | [] => .refl _
  | s :: ss => by
    rw [List.flatMap_cons, Stmt.innerScopesAll, Stmt.declaratorsAll, List.flatten_append,
      List.map_append]
    have hboth := s.scopes_perm_declarators.append (Stmt.scopes_perm_declaratorsAll ss)
    rw [List.perm_iff_count] at hboth ⊢
    simp only [List.count_append] at hboth ⊢
    intro v
    have hv := hboth v
    omega

end

/-! ### Clashes -/

/-- The variables of a scope whose name the scope has twice. -/
def clashes (scope : List Ident) : List Ident :=
  scope.filter fun v => 2 ≤ scope.countP (·.name = v.name)

theorem clashes_subset_append (scope more : List Ident) :
    clashes scope ⊆ clashes (scope ++ more) := by
  intro v hv
  obtain ⟨hmem, hcount⟩ := List.mem_filter.mp hv
  refine List.mem_filter.mpr ⟨List.mem_append_left _ hmem, ?_⟩
  rw [decide_eq_true_eq] at hcount ⊢
  rw [List.countP_append]
  omega

/-- If no variable is listed twice, a clash is with another variable. -/
theorem two_le_countP_iff {scope : List Ident} (h : scope.Nodup) {v : Ident} (hv : v ∈ scope) :
    2 ≤ scope.countP (·.name = v.name) ↔ ∃ u ∈ scope, u ≠ v ∧ u.name = v.name := by
  have hnamed : ∀ u, u ∈ scope.filter (·.name = v.name) ↔ u ∈ scope ∧ u.name = v.name := by
    simp
  rw [List.countP_eq_length_filter]
  constructor
  · intro hcount
    refine by_contra fun hnone => ?_
    have hsub : scope.filter (·.name = v.name) ⊆ [v] := by
      intro u hu
      refine List.mem_singleton.mpr (by_contra fun hne => hnone ⟨u, ?_⟩)
      exact ⟨((hnamed u).mp hu).1, hne, ((hnamed u).mp hu).2⟩
    have hlength := (List.subperm_of_subset (h.filter _) hsub).length_le
    simp only [List.length_singleton] at hlength
    omega
  · rintro ⟨u, hu, hne, hname⟩
    have hpair : [u, v].Nodup := by simp [hne]
    have hsub : [u, v] ⊆ scope.filter (·.name = v.name) := by
      intro x hx
      rcases List.mem_pair.mp hx with rfl | rfl
      · exact (hnamed _).mpr ⟨hu, hname⟩
      · exact (hnamed _).mpr ⟨hv, rfl⟩
    exact (List.subperm_of_subset hpair hsub).length_le

/-- A variable whose name the scope has once is the first one of its name. -/
theorem eq_of_countP_le_one {scope : List Ident} {n : String}
    (h : scope.countP (·.name = n) ≤ 1) {u x : Ident} (hu : u ∈ scope) (hx : x ∈ scope)
    (hun : u.name = n) (hxn : x.name = n) : x = u := by
  rw [List.countP_eq_length_filter] at h
  have hu' : u ∈ scope.filter (·.name = n) := List.mem_filter.mpr ⟨hu, by simpa using hun⟩
  have hx' : x ∈ scope.filter (·.name = n) := List.mem_filter.mpr ⟨hx, by simpa using hxn⟩
  obtain ⟨w, hw⟩ := List.length_eq_one_iff.mp
    (Nat.le_antisymm h (List.length_pos_of_mem hu'))
  rw [hw, List.mem_singleton] at hu' hx'
  rw [hu', hx']

/-- If there is another variable of its name behind it, a variable of a scope clashes already or is
the first of its name. -/
theorem mem_clashes_or_eq {scope : List Ident} {v x u : Ident} (hx : x ∈ scope)
    (hname : x.name = v.name) (hu : scope.find? (·.name = v.name) = some u) :
    x ∈ clashes scope ∨ x = u := by
  by_cases htwo : 2 ≤ scope.countP (·.name = v.name)
  · rw [← hname] at htwo
    exact .inl (List.mem_filter.mpr ⟨hx, decide_eq_true htwo⟩)
  · have hun : u.name = v.name := by simpa using List.find?_some hu
    exact .inr (eq_of_countP_le_one (by omega) (List.mem_of_find?_eq_some hu) hx hun hname)

/-- One more variable clashes with the first one of its name. -/
theorem mem_clashes_concat {scope : List Ident} {v x : Ident} :
    x ∈ clashes (scope ++ [v]) ↔
      x ∈ clashes scope ∨ ∃ u, scope.find? (·.name = v.name) = some u ∧ (x = u ∨ x = v) := by
  constructor
  · intro hx
    obtain ⟨hmem, hcount⟩ := List.mem_filter.mp hx
    rw [decide_eq_true_eq, List.countP_append, List.countP_singleton] at hcount
    rcases List.mem_append.mp hmem with hmem | hmem
    · by_cases hname : x.name = v.name
      · obtain ⟨u, hu⟩ : ∃ u, scope.find? (·.name = v.name) = some u :=
          Option.isSome_iff_exists.mp (List.find?_isSome.mpr ⟨x, hmem, by simpa using hname⟩)
        exact (mem_clashes_or_eq hmem hname hu).imp_right fun hxu => ⟨u, hu, .inl hxu⟩
      · rw [if_neg (by simpa using Ne.symm hname)] at hcount
        exact .inl (List.mem_filter.mpr ⟨hmem, decide_eq_true hcount⟩)
    · obtain rfl := List.mem_singleton.mp hmem
      rw [if_pos (by simp)] at hcount
      obtain ⟨w, hw, hwn⟩ := List.countP_pos_iff.mp (Nat.lt_of_succ_lt_succ hcount)
      obtain ⟨u, hu⟩ : ∃ u, scope.find? (·.name = x.name) = some u :=
        Option.isSome_iff_exists.mp (List.find?_isSome.mpr ⟨w, hw, hwn⟩)
      exact .inr ⟨u, hu, .inr rfl⟩
  · rintro (hx | ⟨u, hu, hx⟩)
    · exact clashes_subset_append scope [v] hx
    · have hmem := List.mem_of_find?_eq_some hu
      have hun : u.name = v.name := by simpa using List.find?_some hu
      have hcount : 2 ≤ (scope ++ [v]).countP (·.name = v.name) := by
        have hpos : 0 < scope.countP (·.name = v.name) :=
          List.countP_pos_iff.mpr ⟨u, hmem, by simpa using hun⟩
        rw [List.countP_append, List.countP_singleton, if_pos (by simp)]
        omega
      rcases hx with rfl | rfl
      · refine List.mem_filter.mpr ⟨List.mem_append_left _ hmem, ?_⟩
        rw [hun]
        exact decide_eq_true hcount
      · exact List.mem_filter.mpr ⟨by simp, decide_eq_true hcount⟩

/-! ### What the scopes hold -/

/-- The last scope, or one of the others. -/
theorem getD_concat (scopes : List (List Ident)) (scope : List Ident) (i : Nat) :
    (scopes ++ [scope]).getD i [] = if i = scopes.length then scope else scopes.getD i [] := by
  rw [List.getD_eq_getElem?_getD, List.getD_eq_getElem?_getD, List.getElem?_append]
  by_cases hi : i < scopes.length
  · rw [if_pos hi, if_neg (Nat.ne_of_lt hi)]
  · rw [if_neg hi]
    split
    · rename_i heq
      rw [heq, Nat.sub_self]
      rfl
    · rw [List.getElem?_eq_none (Nat.le_of_not_lt hi), List.getElem?_eq_none]
      rw [List.length_singleton]
      omega

namespace ScopeStack

/-- The symbol is the one of this variable, which is no `var`. -/
def Stands (symbol : Symbol) (v : Ident) : Prop :=
  ∃ type kind, kind ≠ .varKind ∧ symbol = .value type (some kind) v.span

/-- Apart from the names in `F`, each scope holds of a name the first variable that was declared
there. -/
structure Mirrors (F : List String) (x : ScopeStack) (scopes : List (List Ident)) : Prop where
  valid : x.Valid
  length : x.scopes.length = scopes.length
  holds : ∀ i n, n ∉ F →
    Option.Rel Stands (x.find? i n) ((scopes.getD i []).find? (·.name = n))

namespace Mirrors

variable {F : List String} {x y : ScopeStack} {scopes : List (List Ident)} {scope : List Ident}

/-- Only names in `F` are declared. -/
theorem changes {f : Footprint} (h : Mirrors F x scopes) (hchanges : x.Changes f y)
    (hF : ∀ n, n ∈ f.block ∨ n ∈ f.function ∨ n ∈ f.replaced → n ∈ F) : Mirrors F y scopes where
  valid := hchanges.valid h.valid
  length := hchanges.length.trans h.length
  holds i n hn := by
    rw [hchanges.kept i n (fun _ => ⟨fun hf => hn (hF n (.inl hf)),
      fun hf => hn (hF n (.inr (.inr hf)))⟩) fun _ hf => hn (hF n (.inr (.inl hf)))]
    exact h.holds i n hn

theorem current_eq (h : Mirrors F x (scopes ++ [scope])) : x.current = scopes.length := by
  rw [current, h.length, List.length_append, List.length_singleton, Nat.add_sub_cancel]

theorem holds_current (h : Mirrors F x (scopes ++ [scope])) {n : String} (hn : n ∉ F) :
    Option.Rel Stands (x.find? x.current n) (scope.find? (·.name = n)) := by
  have hheld := h.holds x.current n hn
  rwa [getD_concat, if_pos h.current_eq] at hheld

/-- The innermost scope may hold something else. -/
theorem of_last {scope' : List Ident} (h : Mirrors F x (scopes ++ [scope])) (hvalid : y.Valid)
    (hlength : y.scopes.length = x.scopes.length)
    (hothers : ∀ i n, i ≠ x.current → y.find? i n = x.find? i n)
    (hlast : ∀ n, n ∉ F → Option.Rel Stands (y.find? x.current n) (scope'.find? (·.name = n))) :
    Mirrors F y (scopes ++ [scope']) := by
  refine ⟨hvalid, ?_, fun i n hn => ?_⟩
  · rw [hlength, h.length]
    simp
  · by_cases hi : i = x.current
    · rw [getD_concat, if_pos (hi.trans h.current_eq), hi]
      exact hlast n hn
    · have hne : i ≠ scopes.length := h.current_eq ▸ hi
      have hheld := h.holds i n hn
      rw [getD_concat, if_neg hne] at hheld ⊢
      rwa [hothers i n hi]

theorem enter (h : Mirrors F x scopes) : Mirrors F x.enter (scopes ++ [[]]) where
  valid := by
    have hvalid := h.valid
    rw [Valid] at hvalid ⊢
    rw [length_enter]
    exact Nat.lt_succ_of_lt hvalid
  length := by rw [length_enter, h.length, List.length_append, List.length_singleton]
  holds i n hn := by
    have hheld := h.holds i n hn
    rw [find?_enter, getD_concat]
    split
    · rename_i hi
      rw [hi, List.getD_eq_getElem?_getD, List.getElem?_eq_none (Nat.le_refl _)] at hheld
      rwa [hi]
    · exact hheld

theorem enterFunction (h : Mirrors F x scopes) : Mirrors F x.enterFunction (scopes ++ [[]]) where
  valid := by
    show x.enter.current < x.enter.scopes.length
    rw [current, length_enter]
    omega
  length := h.enter.length
  holds := h.enter.holds

/-- The innermost scope is left, whatever it holds. -/
theorem exit (h : Mirrors F y (scopes ++ [scope])) (hscopes : scopes ≠ [])
    (hvalid : y.exit.Valid) : Mirrors F y.exit scopes := by
  have hlength : y.scopes.length = scopes.length + 1 := by
    rw [h.length, List.length_append, List.length_singleton]
  have hpos := List.length_pos_iff.mpr hscopes
  have hexit : y.exit.scopes.length = scopes.length := by
    rw [length_exit (by omega), hlength, Nat.add_sub_cancel]
  refine ⟨hvalid, hexit, fun i n hn => ?_⟩
  by_cases hi : i < scopes.length
  · have hheld := h.holds i n hn
    rw [getD_concat, if_neg (Nat.ne_of_lt hi)] at hheld
    rwa [find?_exit (by omega)]
  · rw [find?_eq_none (by omega), List.getD_eq_getElem?_getD,
      List.getElem?_eq_none (Nat.le_of_not_lt hi)]
    exact .none

/-- A variable that the innermost scope does not have yet is declared there. -/
theorem declare (h : Mirrors F x (scopes ++ [scope])) {v : Ident} {type : Ty} {kind : DeclKind}
    (hkind : kind ≠ .varKind) (hnew : scope.find? (·.name = v.name) = none) :
    Mirrors F (x.declare x.current v.name (.value type (some kind) v.span))
      (scopes ++ [scope ++ [v]]) := by
  refine h.of_last ?_ (length_declare _ _ _) (fun i n hi => ?_) fun n hn => ?_
  · have hvalid := h.valid
    rw [Valid] at hvalid ⊢
    rwa [length_declare, function_declare]
  · exact find?_declare_of_ne (fun heq => absurd heq hi) _
  · rw [List.find?_append]
    by_cases hname : v.name = n
    · subst hname
      rw [find?_declare_self h.valid.current_lt, hnew]
      simpa using Option.Rel.some (show Stands _ v from ⟨type, kind, hkind, rfl⟩)
    · rw [find?_declare_of_ne fun _ => Ne.symm hname]
      simpa [hname] using h.holds_current hn

/-- A variable that the innermost scope has already is listed only. -/
theorem again (h : Mirrors F x (scopes ++ [scope])) {v u : Ident}
    (hold : scope.find? (·.name = v.name) = some u) : Mirrors F x (scopes ++ [scope ++ [v]]) := by
  refine h.of_last h.valid rfl (fun _ _ _ => rfl) fun n hn => ?_
  have hheld := h.holds_current hn
  rw [List.find?_append]
  by_cases hname : v.name = n
  · subst hname
    rw [hold] at hheld ⊢
    simpa using hheld
  · simpa [hname] using hheld

end Mirrors

end ScopeStack

namespace Check

open Typing

variable {α β : Type} {F : List String} {outer : List (List Ident)} {scope new new' : List Ident}
  {inner inner' : List (List Ident)} {s : State} {p : Check α}

/-! ### What is reported -/

/-- The errors for the clashes of a scope. -/
def clashErrors (scope : List Ident) : List TypeError :=
  (clashes scope).map fun v => ⟨.blockScopedRedeclaration v.name, v.span⟩

/-- The innermost scope has these variables, and their clashes have been reported. -/
structure Ready (F : List String) (outer : List (List Ident)) (scope : List Ident) (s : State) :
    Prop where
  mirrors : s.scopes.Mirrors F (outer ++ [scope])
  told : ∀ e ∈ clashErrors scope, Told e.problem.code e.span.start s

/-- The step declares these variables in the innermost scope and opens the inner scopes. Of
redeclarations it reports the clashes of these scopes, and no others. -/
structure Redeclares (F : List String) (outer : List (List Ident)) (scope new : List Ident)
    (inner : List (List Ident)) (s : State) (p : Check α) : Prop where
  finds : Finds (· = 2451) (clashErrors (scope ++ new) ++ inner.flatMap clashErrors) s p
  mirrors : (p s).2.scopes.Mirrors F (outer ++ [scope ++ new])

/-- What has been told already may be added to what a step finds. -/
theorem Finds.already {C : Nat → Prop} {E E' : List TypeError} (h : Finds C E s p)
    (hE : ∀ e ∈ E', Told e.problem.code e.span.start s) : Finds C (E' ++ E) s p :=
  ⟨h.later, h.hushed, fun e he hcode => (h.sound e he hcode).imp_right (List.mem_append_right E'),
    fun e he => (List.mem_append.mp he).elim (fun he => (hE e he).mono h.later) (h.told e)⟩

theorem clashErrors_subset_append (scope more : List Ident) :
    clashErrors scope ⊆ clashErrors (scope ++ more) :=
  List.map_subset _ (clashes_subset_append scope more)

namespace Ready

/-- A new scope has no variables. -/
theorem enter (h : Ready F outer scope s) :
    Ready F (outer ++ [scope]) [] { s with scopes := s.scopes.enter } :=
  ⟨h.mirrors.enter, nofun⟩

theorem enterFunction (h : Ready F outer scope s) :
    Ready F (outer ++ [scope]) [] { s with scopes := s.scopes.enterFunction } :=
  ⟨h.mirrors.enterFunction, nofun⟩

/-- A step that declares names in `F` only. -/
theorem acts {f : Footprint} (h : Ready F outer scope s) (hacts : Acts f p)
    (hF : ∀ n, n ∈ f.block ∨ n ∈ f.function ∨ n ∈ f.replaced → n ∈ F)
    (hlater : Extends s (p s).2) : Ready F outer scope (p s).2 :=
  ⟨h.mirrors.changes (hacts s h.mirrors.valid) hF, fun e he => (h.told e he).mono hlater⟩

end Ready

namespace Redeclares

theorem ready (h : Redeclares F outer scope new inner s p) :
    Ready F outer (scope ++ new) (p s).2 :=
  ⟨h.mirrors, fun e he => h.finds.told e (List.mem_append_left _ he)⟩

/-- A step that declares names in `F` only, and perhaps opens scopes. -/
theorem of_finds {f : Footprint} (hready : Ready F outer scope s)
    (hfinds : Finds (· = 2451) (inner.flatMap clashErrors) s p) (hacts : Acts f p)
    (hF : ∀ n, n ∈ f.block ∨ n ∈ f.function ∨ n ∈ f.replaced → n ∈ F) :
    Redeclares F outer scope [] inner s p := by
  refine ⟨?_, ?_⟩
  · rw [List.append_nil]
    exact hfinds.already hready.told
  · rw [List.append_nil]
    exact (hready.acts hacts hF hfinds.later).mirrors

theorem bind {q : α → Check β} (hp : Redeclares F outer scope new inner s p)
    (hq : Redeclares F outer (scope ++ new) new' inner' (p s).2 (q (p s).1)) :
    Redeclares F outer scope (new ++ new') (inner ++ inner') s (p >>= q) := by
  have hmirrors := hq.mirrors
  rw [List.append_assoc] at hmirrors
  refine ⟨(hp.finds.bind hq.finds).congr fun e => ?_, hmirrors⟩
  have hsub := @clashErrors_subset_append (scope ++ new) new' e
  rw [List.append_assoc] at hsub
  simp only [List.mem_append, List.flatMap_append, List.append_assoc]
  constructor
  · rintro (h | h | h | h)
    · exact .inl (hsub h)
    · exact .inr (.inl h)
    · exact .inl h
    · exact .inr (.inr h)
  · rintro (h | h | h)
    · exact .inr (.inr (.inl h))
    · exact .inr (.inl h)
    · exact .inr (.inr (.inr h))

/-- After a step that declares no variables. -/
theorem after {q : α → Check β} (hp : Redeclares F outer scope [] [] s p)
    (hq : Ready F outer scope (p s).2 → Redeclares F outer scope new inner (p s).2 (q (p s).1)) :
    Redeclares F outer scope new inner s (p >>= q) := by
  have hready := hp.ready
  rw [List.append_nil] at hready
  have hnext := hq hready
  rw [← List.append_nil scope] at hnext
  exact hp.bind hnext

/-- Before a step that declares no variables. -/
theorem before {q : α → Check β} (hp : Redeclares F outer scope new inner s p)
    (hq : Redeclares F outer (scope ++ new) [] [] (p s).2 (q (p s).1)) :
    Redeclares F outer scope new inner s (p >>= q) := by
  have hboth := hp.bind hq
  rwa [List.append_nil, List.append_nil] at hboth

/-- A step that does what another one does from the same state. -/
theorem of_run_eq {q : Check α} (h : p s = q s) (hq : Redeclares F outer scope new inner s q) :
    Redeclares F outer scope new inner s p := by
  obtain ⟨⟨hlater, hhushed, hsound, htold⟩, hmirrors⟩ := hq
  rw [← h] at hlater hhushed hsound htold hmirrors
  exact ⟨⟨hlater, hhushed, hsound, htold⟩, hmirrors⟩

/-- A step that finds other errors only and declares nothing. -/
theorem of_remarks (hready : Ready F outer scope s)
    (h : Remarks (fun problem => problem.code ≠ 2451) p) (hacts : Acts .empty p) :
    Redeclares F outer scope [] [] s p :=
  of_finds hready (h.finds (fun _ h => h) s) hacts (by simp [Footprint.empty])

/-- A step in a scope of its own. -/
theorem inScope (hready : Ready F outer scope s)
    (h : Redeclares F (outer ++ [scope]) [] new inner { s with scopes := s.scopes.enter } p)
    (hvalid : (inScope p s).2.scopes.Valid) :
    Redeclares F outer scope [] (new :: inner) s (inScope p) := by
  refine ⟨?_, ?_⟩
  · rw [List.append_nil, List.flatMap_cons]
    exact (Finds.inScope h.finds).already hready.told
  · rw [List.append_nil]
    exact h.mirrors.exit (by simp) hvalid

end Redeclares

/-! ### Declarations -/

theorem code_ne_of_ofValue (problem : TypeProblem) (h : problem.ofValue = true) :
    problem.code ≠ 2451 := by
  cases problem <;> simp_all [TypeProblem.ofValue, TypeProblem.code]

theorem code_ne_of_isDuplicate (problem : TypeProblem) (h : problem.isDuplicate = true) :
    problem.code ≠ 2451 := by
  cases problem <;> simp_all [TypeProblem.isDuplicate, TypeProblem.code]

theorem declareVariable_run_new {kind : DeclKind} (hkind : kind ≠ .varKind) {v : Ident}
    (h : s.scopes.find? s.scopes.current v.name = none) (type : Ty) :
    declareVariable kind v type s
      = modifyScopes (fun x => x.declare x.current v.name (.value type (some kind) v.span)) s := by
  rw [declareVariable, run_get_bind]
  simp only [if_neg hkind]
  rw [run_bind, declareNew_of_none h]
  rfl

theorem declareVariable_run_old {kind : DeclKind} (hkind : kind ≠ .varKind) {v u : Ident}
    {existing : Symbol} (h : s.scopes.find? s.scopes.current v.name = some existing)
    (hu : ScopeStack.Stands existing u) (type : Ty) :
    declareVariable kind v type s
      = reportBoth (.blockScopedRedeclaration v.name) existing v.span s := by
  obtain ⟨type', kind', hkind', rfl⟩ := hu
  rw [declareVariable, run_get_bind]
  simp only [if_neg hkind]
  rw [run_bind, declareNew_of_some h]
  simp [hkind]

/-- The first variable of its name in a scope is declared. -/
theorem redeclares_first (hready : Ready F outer scope s) {kind : DeclKind}
    (hkind : kind ≠ .varKind) {v : Ident}
    (hfind : s.scopes.find? s.scopes.current v.name = none)
    (hnew : scope.find? (·.name = v.name) = none) (type : Ty) :
    Redeclares F outer scope [v] [] s (declareVariable kind v type) := by
  refine .of_run_eq (declareVariable_run_new hkind hfind type) ⟨?_, ?_⟩
  · have hnothing := (Remarks.modifyScopes (A := fun _ => False) fun x =>
      x.declare x.current v.name (.value type (some kind) v.span)).finds (C := (· = 2451))
        (fun _ h => h.elim) s
    refine (hnothing.already hready.told).congr fun e => ?_
    simp only [clashErrors, List.append_nil, List.flatMap_nil, List.mem_map, mem_clashes_concat,
      hnew]
    simp
  · exact hready.mirrors.declare hkind hnew

/-- Another one is reported together with the first. -/
theorem redeclares_again (hready : Ready F outer scope s) {kind : DeclKind}
    (hkind : kind ≠ .varKind) {v u : Ident} {existing : Symbol}
    (hfind : s.scopes.find? s.scopes.current v.name = some existing)
    (hscope : scope.find? (·.name = v.name) = some u) (hstands : ScopeStack.Stands existing u)
    (type : Ty) : Redeclares F outer scope [v] [] s (declareVariable kind v type) := by
  have hspan : existing.span = u.span := by
    obtain ⟨_, _, -, rfl⟩ := hstands
    rfl
  have hname : u.name = v.name := by simpa using List.find?_some hscope
  refine .of_run_eq (declareVariable_run_old hkind hfind hstands type) ⟨?_, ?_⟩
  · have hboth := (Finds.report (C := (· = 2451)) (s := s) (.blockScopedRedeclaration v.name)
      existing.span).bind (q := fun _ => report (.blockScopedRedeclaration v.name) v.span)
      (Finds.report _ v.span)
    refine (hboth.already hready.told).congr fun e => ?_
    simp only [clashErrors, List.append_nil, List.flatMap_nil, List.mem_append, List.mem_map,
      List.mem_singleton, mem_clashes_concat, hscope, hspan]
    constructor
    · rintro (⟨x, hx, rfl⟩ | rfl | rfl)
      · exact ⟨x, .inl hx, rfl⟩
      · exact ⟨u, .inr ⟨u, rfl, .inl rfl⟩, by rw [hname]⟩
      · exact ⟨v, .inr ⟨u, rfl, .inr rfl⟩, rfl⟩
    · rintro ⟨x, hx | ⟨w, hw, rfl | rfl⟩, rfl⟩
      · exact .inl ⟨x, hx, rfl⟩
      · rw [← Option.some.inj hw, hname]
        exact .inr (.inl rfl)
      · exact .inr (.inr rfl)
  · have hscopes : (reportBoth (.blockScopedRedeclaration v.name) existing v.span s).2.scopes
        = s.scopes := (reads_reportBoth _ _ _).scopes s
    rw [hscopes]
    exact hready.mirrors.again hscope

/-- **A variable is reported with the first one of its name.** -/
theorem redeclares_declareVariable (hready : Ready F outer scope s) {kind : DeclKind}
    (hkind : kind ≠ .varKind) {v : Ident} (hv : v.name ∉ F) (type : Ty) :
    Redeclares F outer scope [v] [] s (declareVariable kind v type) := by
  have hheld := hready.mirrors.holds_current hv
  cases hfind : s.scopes.find? s.scopes.current v.name with
  | none =>
    cases hscope : scope.find? (·.name = v.name) with
    | none => exact redeclares_first hready hkind hfind hscope type
    | some u =>
      rw [hfind, hscope] at hheld
      cases hheld
  | some existing =>
    cases hscope : scope.find? (·.name = v.name) with
    | none =>
      rw [hfind, hscope] at hheld
      cases hheld
    | some u =>
      rw [hfind, hscope] at hheld
      cases hheld with
      | some hstands => exact redeclares_again hready hkind hfind hscope hstands type

theorem redeclares_declarator (hready : Ready F outer scope s) {kind : DeclKind}
    (hkind : kind ≠ .varKind) {d : Declarator} (hd : d.name.name ∉ F) :
    Redeclares F outer scope [d.name] [] s (declarator kind d) := by
  have hvalue := code_ne_of_ofValue
  rw [declarator_eq]
  refine (Redeclares.of_remarks hready (remarks_resolve? hvalue d.declaredType)
    (reads_resolve? d.declaredType).acts).after fun hready => ?_
  refine (Redeclares.of_remarks hready (remarks_firstValue hvalue d.initializer)
    (acts_firstValue d.initializer)).after fun hready => ?_
  refine (Redeclares.of_remarks hready (remarks_variableType hvalue kind d.name _ _)
    (reads_variableType kind d.name _ _).acts).after fun hready => ?_
  split
  · exact (Redeclares.of_remarks hready (remarks_record _ _) (acts_record _ _)).after
      fun hready => redeclares_declareVariable hready hkind hd _
  · exact redeclares_declareVariable hready hkind hd _

theorem redeclares_declarators {kind : DeclKind} (hkind : kind ≠ .varKind) {ds : List Declarator}
    (hds : ∀ d ∈ ds, d.name.name ∉ F) (hready : Ready F outer scope s) :
    Redeclares F outer scope (ds.map Declarator.name) [] s (ds.forM (declarator kind)) := by
  induction ds generalizing scope s with
  | nil => exact .of_remarks hready (.pure ()) (.pure ())
  | cons d ds ih =>
    have hfirst := redeclares_declarator hready hkind (hds d List.mem_cons_self)
    exact hfirst.bind (ih (fun d hd => hds d (List.mem_cons_of_mem _ hd)) hfirst.ready)

/-! ### Functions and statements -/

/-- At the site no `var` is declared and no variable with a name in `F`, and every parameter and
every function has a name in `F`. -/
def Separate (F : List String) : Site → Prop
  | .expression _ => True
  | .declarator kind d => kind ≠ .varKind ∧ d.name.name ∉ F
  | .parameter p => p.name.name ∈ F
  | .signature f => f.name.name ∈ F

/-- The same at all sites of a list. -/
def AllSeparate (F : List String) (sites : List Site) : Prop :=
  ∀ site ∈ sites, Separate F site

theorem allSeparate_append {sites sites' : List Site} :
    AllSeparate F (sites ++ sites') ↔ AllSeparate F sites ∧ AllSeparate F sites' :=
  List.forall_mem_append

theorem allSeparate_cons {site : Site} {sites : List Site} :
    AllSeparate F (site :: sites) ↔ Separate F site ∧ AllSeparate F sites :=
  List.forall_mem_cons

theorem redeclares_declaration (hready : Ready F outer scope s) {d : Declaration}
    (hd : AllSeparate F d.sites) :
    Redeclares F outer scope (d.declarators.map Declarator.name) [] s (declaration d) := by
  have hsite : ∀ v ∈ d.declarators, d.kind ≠ .varKind ∧ v.name.name ∉ F := fun v hv =>
    hd (.declarator d.kind v) (List.mem_map_of_mem hv)
  cases hds : d.declarators with
  | nil =>
    rw [declaration, hds]
    exact .of_remarks hready (.pure ()) (.pure ())
  | cons v vs =>
    rw [declaration, ← hds]
    have hkind := (hsite v (hds ▸ List.mem_cons_self)).1
    exact redeclares_declarators hkind (fun v hv => (hsite v hv).2) hready

theorem redeclares_forStart (hready : Ready F outer scope s) {start : Option ForStart}
    (hstart : AllSeparate F (start.toList.flatMap ForStart.sites)) :
    Redeclares F outer scope (ForStart.variables start) [] s (forStart start) := by
  match start with
  | none => exact .of_remarks hready (.pure ()) (.pure ())
  | some (.expression e) =>
    exact .of_remarks hready (remarks_expression code_ne_of_ofValue e) (reads_expression e).acts
  | some (.declaration d) =>
    have hd : AllSeparate F d.sites := by simpa [ForStart.sites] using hstart
    have hvariables : ForStart.variables (some (.declaration d))
        = d.declarators.map Declarator.name := by
      simp [ForStart.variables, ForStart.declarators]
    rw [hvariables]
    exact redeclares_declaration hready hd

theorem redeclares_expression (hready : Ready F outer scope s) (e : Expr) :
    Redeclares F outer scope [] [] s (expression e) :=
  .of_remarks hready (remarks_expression code_ne_of_ofValue e) (reads_expression e).acts

theorem redeclares_expression? (hready : Ready F outer scope s) (e : Option Expr) :
    Redeclares F outer scope [] [] s (expression? e) :=
  .of_remarks hready (remarks_expression? code_ne_of_ofValue e) (acts_expression? e)

theorem finds_concludeFunction_none (signature : Signature) (frame : Frame) :
    Finds (· = 2451) [] s (concludeFunction signature frame) := by
  unfold concludeFunction
  cases signature.returnType with
  | none => exact .pure _
  | some type =>
    have hreport : Remarks (fun problem => problem.code ≠ 2451) (report .missingReturn type.span) :=
      remarks_report (by simp [TypeProblem.code]) type.span
    dsimp only
    split
    · exact (hreport.finds (fun _ h => h) s).after (.pure _)
    · exact .pure _

/-- A function opens one scope for its parameters and its body. -/
theorem redeclares_functionBody (hready : Ready F outer scope s) {f : Signature}
    {stmts : List Stmt} (declared : Option Ty) (hf : AllSeparate F (f.parameters.map .parameter))
    (hrun : ∀ t, Ready F (outer ++ [scope]) [] t →
      Redeclares F (outer ++ [scope]) [] new inner t (body stmts)) :
    Redeclares F outer scope [] (new :: inner) s (functionBody f declared (body stmts)) := by
  have hparameters := Remarks.forM (A := fun problem => problem.code ≠ 2451)
    (remarks_declareParameter code_ne_of_isDuplicate code_ne_of_ofValue) f.parameters
  have hnames : ∀ n ∈ f.parameterNames, n ∈ F := by
    intro n hn
    obtain ⟨p, hp, rfl⟩ := List.mem_map.mp hn
    exact hf (.parameter p) (List.mem_map_of_mem hp)
  have hentered := hready.enterFunction.acts (acts_declareParameters f) (by simpa using hnames)
    (hparameters.later _)
  have hframe : Ready F (outer ++ [scope]) [] (entered f declared s) :=
    ⟨hentered.mirrors, hentered.told⟩
  refine .of_finds hready ?_ (acts_functionBody f declared (acts_together stmts))
    (by simp [Footprint.empty])
  rw [functionBody_eq_bind, List.flatMap_cons]
  refine Finds.before (.inFunctionScope ?_) (finds_concludeFunction_none f _)
  exact Finds.after (hparameters.finds (fun _ h => h) _) (.inFrame (hrun _ hframe).finds)

theorem mem_of_mem_functionNames {stmts : List Stmt} (h : AllSeparate F (Stmt.sitesAll stmts)) :
    ∀ n ∈ functionNames stmts, n ∈ F := by
  induction stmts with
  | nil => nofun
  | cons stmt stmts ih =>
    rw [Stmt.sitesAll, allSeparate_append] at h
    intro n hn
    obtain ⟨other, hother, hname⟩ := List.mem_filterMap.mp hn
    rcases List.mem_cons.mp hother with rfl | hother
    · cases other with
      | function f body bodySpan span =>
        rw [← Option.some.inj hname]
        exact h.1 _ mem_sites_of_function
      | _ => cases hname
    · exact ih h.2 n (List.mem_filterMap.mpr ⟨other, hother, hname⟩)

/-- Functions are declared and tried out before the variables are declared. -/
theorem redeclares_together (hready : Ready F outer scope s) {stmts : List Stmt}
    (hstmts : AllSeparate F (Stmt.sitesAll stmts))
    (hrun : ∀ t, Ready F outer scope t →
      Redeclares F outer scope new inner t (statements stmts)) :
    Redeclares F outer scope new inner s (body stmts) := by
  have hnames := mem_of_mem_functionNames hstmts
  have hopen : ∀ n ∈ openFunctions stmts, n ∈ F := fun n hn =>
    hnames n ((List.filter_sublist.filterMap Stmt.functionName?).subset hn)
  have hdeclared : Redeclares F outer scope [] [] s (declareFunctions stmts) :=
    .of_finds hready ((remarks_declareFunctions code_ne_of_isDuplicate stmts).finds
      (fun _ h => h) s) (acts_declareFunctions stmts) (by simpa using hnames)
  refine hdeclared.after fun hready => ?_
  have htried : Redeclares F outer scope [] [] (declareFunctions stmts s).2
      (inferFunctions stmts) :=
    .of_finds hready (finds_inferFunctions stmts _) (acts_inferFunctions stmts)
      (by simpa using hopen)
  exact htried.after fun hready => hrun _ hready

mutual

/-- **Of redeclarations a statement reports the clashes of the scopes in it,** and those of the
scope that it stands in. -/
theorem redeclares_statement : ∀ (stmt : Stmt), AllSeparate F stmt.sites →
    ∀ {outer : List (List Ident)} {scope : List Ident} {s : State}, Ready F outer scope s →
      Redeclares F outer scope stmt.ownVariables stmt.innerScopes s (statement stmt)
  | .variables d _, hstmt, _, _, _, hready => redeclares_declaration hready hstmt
  | .function f stmts _ _, hstmt, _, _, s, hready => by
    rw [Stmt.sites, Signature.sites, allSeparate_append, allSeparate_append] at hstmt
    refine (Redeclares.of_remarks hready (remarks_resolve? code_ne_of_ofValue f.returnType)
      (reads_resolve? f.returnType).acts).after fun hready => ?_
    have hbody := redeclares_functionBody hready (resolve? f.returnType s).1 hstmt.1.1
      fun t ht => redeclares_together ht hstmt.2 fun u hu => redeclares_statements stmts hstmt.2 hu
    exact hbody.before (.of_remarks hbody.ready (.pure ()) (.pure ()))
  | .block stmts span, hstmt, _, _, s, hready => by
    rw [Stmt.sites] at hstmt
    have hvalid := (acts_statement (.block stmts span) s hready.mirrors.valid).valid
      hready.mirrors.valid
    exact .inScope hready (redeclares_together hready.enter hstmt fun t ht =>
      redeclares_statements stmts hstmt ht) hvalid
  | .ifThen condition stmt _, hstmt, _, _, _, hready
  | .whileLoop condition stmt _, hstmt, _, _, _, hready => by
    rw [Stmt.sites, allSeparate_cons] at hstmt
    exact (redeclares_expression hready condition).after fun hready =>
      redeclares_statement stmt hstmt.2 hready
  | .ifElse condition stmt stmt' _, hstmt, _, _, _, hready => by
    rw [Stmt.sites, allSeparate_cons, allSeparate_append] at hstmt
    refine (redeclares_expression hready condition).after fun hready => ?_
    have hfirst := redeclares_statement stmt hstmt.2.1 hready
    exact hfirst.bind (redeclares_statement stmt' hstmt.2.2 hfirst.ready)
  | .forLoop start condition update stmt span, hstmt, _, _, s, hready => by
    have hvalid := (acts_statement (.forLoop start condition update stmt span) s
      hready.mirrors.valid).valid hready.mirrors.valid
    rw [Stmt.sites, allSeparate_append, allSeparate_append, allSeparate_append] at hstmt
    have hstart := redeclares_forStart hready.enter hstmt.1
    refine .inScope hready (hstart.bind ?_) hvalid
    refine (redeclares_expression? hstart.ready condition).after fun hready => ?_
    refine (redeclares_expression? hready update).after fun hready => ?_
    exact redeclares_statement stmt hstmt.2.2.2 hready
  | .returns value span, _, _, _, s, hready => by
    refine .of_finds hready (finds_returnValue_of value span s code_ne_of_ofValue (fun t _ => ?_)
      fun _ => rfl) (acts_returnValue value span) (by simp [Footprint.empty])
    have hreport : Remarks (fun problem => problem.code ≠ 2451) (report .strayReturn span) :=
      remarks_report (by simp [TypeProblem.code]) span
    exact hreport.finds (fun _ h => h) t
  | .expression e _, _, _, _, _, hready => redeclares_expression hready e

theorem redeclares_statements : ∀ (stmts : List Stmt), AllSeparate F (Stmt.sitesAll stmts) →
    ∀ {outer : List (List Ident)} {scope : List Ident} {s : State}, Ready F outer scope s →
      Redeclares F outer scope (stmts.flatMap Stmt.ownVariables) (Stmt.innerScopesAll stmts) s
        (statements stmts)
  | [], _, _, _, _, hready => .of_remarks hready (.pure ()) (.pure ())
  | stmt :: stmts, hstmts, _, _, _, hready => by
    rw [Stmt.sitesAll, allSeparate_append] at hstmts
    have hfirst := redeclares_statement stmt hstmts.1 hready
    exact hfirst.bind (redeclares_statements stmts hstmts.2 hfirst.ready)

end

end Check

/-! ### Scripts -/

namespace Script

open Check Typing

theorem variableScopes_perm (script : Script) :
    script.variableScopes.flatten.Perm (script.declarations.map fun x => x.2.name) := by
  have hall := Stmt.scopes_perm_declaratorsAll script.body
  rw [← Stmt.declaratorsAt_sitesAll, declaratorsAt, List.map_map] at hall
  exact hall

variable (name text : String)

/-- No two variables of the scopes start at one place. -/
theorem nodup_variableScopes :
    ((recover name text).1.variableScopes.flatten.map fun v => v.span.start).Nodup := by
  have hnodup := nodup_declarations name text
  rw [← Function.comp_def (fun v : Ident => v.span.start)
    fun x : DeclKind × Declarator => x.2.name, ← List.map_map] at hnodup
  exact ((variableScopes_perm _).map _).nodup_iff.mpr hnodup

theorem nodup_of_mem_variableScopes {scope : List Ident}
    (h : scope ∈ (recover name text).1.variableScopes) : scope.Nodup :=
  (List.sublist_flatten_of_mem h).nodup (List.Nodup.of_map _ (nodup_variableScopes name text))

theorem redeclared_eq_clashes :
    (recover name text).1.redeclared = (recover name text).1.variableScopes.flatMap clashes := by
  refine List.flatMap_congr fun scope hscope => List.filter_congr fun v hv => ?_
  rw [decide_eq_decide]
  exact (two_le_countP_iff (nodup_of_mem_variableScopes name text hscope) hv).symm

theorem redeclared_sublist :
    (recover name text).1.redeclared.Sublist (recover name text).1.variableScopes.flatten := by
  rw [redeclared, ← List.flatMap_id]
  exact .flatMap_right _ fun _ _ => List.filter_sublist

/-- The redeclarations that are reported are those of the scopes. -/
theorem mem_log_iff_redeclared
    (hvar : ∀ x ∈ (recover name text).1.declarations, x.1 ≠ .varKind)
    (hnames : ∀ x ∈ (recover name text).1.declarations, ∀ v ∈ (recover name text).1.callNames,
      v.name ≠ x.2.name.name) {e : TypeError} (he : e.problem.code = 2451) :
    e ∈ (recover name text).1.checkedState.log ↔
      ∃ v ∈ (recover name text).1.redeclared, ⟨.blockScopedRedeclaration v.name, v.span⟩ = e := by
  have hseparate : AllSeparate ((recover name text).1.callNames.map Ident.name)
      (recover name text).1.sites := by
    intro site hsite
    cases site with
    | expression e => trivial
    | declarator kind d =>
      have hd : (kind, d) ∈ (recover name text).1.declarations :=
        List.mem_filterMap.mpr ⟨_, hsite, rfl⟩
      refine ⟨hvar _ hd, fun hmem => ?_⟩
      obtain ⟨v, hv, hname⟩ := List.mem_map.mp hmem
      exact hnames _ hd v hv hname
    | parameter p =>
      exact List.mem_map_of_mem (List.mem_filterMap.mpr ⟨.parameter p, hsite, rfl⟩)
    | signature f =>
      exact List.mem_map_of_mem (List.mem_filterMap.mpr ⟨.signature f, hsite, rfl⟩)
  have hready : Ready ((recover name text).1.callNames.map Ident.name) [] [] State.initial := by
    refine ⟨⟨Nat.zero_lt_one, rfl, fun i n _ => ?_⟩, nofun⟩
    cases i <;> exact .none
  have hbody := redeclares_together hready hseparate fun _ ht =>
    redeclares_statements _ hseparate ht
  have hfinds : Finds (· = 2451) ((recover name text).1.redeclared.map fun v =>
      ⟨.blockScopedRedeclaration v.name, v.span⟩) State.initial
      (Check.body (recover name text).1.body) := by
    refine hbody.finds.congr fun e => ?_
    rw [redeclared_eq_clashes, List.map_flatMap]
    rfl
  rw [← List.mem_map]
  refine hfinds.mem_log_iff rfl rfl (fun e he => ?_) (fun e he e' he' hsame => ?_) he
  · obtain ⟨v, -, rfl⟩ := List.mem_map.mp he
    rfl
  · obtain ⟨v, hv, rfl⟩ := List.mem_map.mp he
    obtain ⟨v', hv', rfl⟩ := List.mem_map.mp he'
    have hsub := (redeclared_sublist name text).subset
    rw [List.inj_on_of_nodup_map (nodup_variableScopes name text) (hsub hv') (hsub hv)
      (sameAs_iff.mp hsame).2]

/-- **A variable is reported as redeclared just if another variable of its name is declared in the
same scope,** in a script without `var` in which no variable has the name of a function or a
parameter. Each such variable is reported once, and every variable belongs to one scope. -/
theorem redeclared_perm
    (hvar : ∀ x ∈ (recover name text).1.declarations, x.1 ≠ .varKind)
    (hnames : ∀ x ∈ (recover name text).1.declarations, ∀ v ∈ (recover name text).1.callNames,
      v.name ≠ x.2.name.name) :
    (((recover name text).1.check.diagnostics.filter (·.code = 2451)).map
        fun d => (d.span, d.message)).Perm
      ((recover name text).1.redeclared.map fun v =>
        (v.span, "Cannot redeclare block-scoped variable '" ++ v.name ++ "'.")) ∧
      (recover name text).1.redeclared.Nodup ∧
      (recover name text).1.variableScopes.flatten.Perm
        ((recover name text).1.declarations.map fun x => x.2.name) := by
  have hnodup : ((recover name text).1.redeclared.map fun v => v.span.start).Nodup :=
    ((redeclared_sublist name text).map _).nodup (nodup_variableScopes name text)
  refine ⟨?_, List.Nodup.of_map _ hnodup, variableScopes_perm _⟩
  refine (List.perm_ext_iff_of_nodup ?_ ?_).mpr fun place => ?_
  · refine List.Nodup.of_map Prod.fst ?_
    rw [List.map_map]
    exact nodup_spans_of_code _ 2451
  · refine List.Nodup.of_map (fun place : Span × String => place.1.start) ?_
    rw [List.map_map]
    exact hnodup
  · simp only [List.mem_map, List.mem_filter, decide_eq_true_eq]
    constructor
    · rintro ⟨d, ⟨hd, hcode⟩, rfl⟩
      obtain ⟨e, he, rfl⟩ := mem_diagnostics.mp hd
      obtain ⟨v, hv, rfl⟩ := (mem_log_iff_redeclared name text hvar hnames hcode).mp he
      exact ⟨v, hv, rfl⟩
    · rintro ⟨v, hv, rfl⟩
      have he := (mem_log_iff_redeclared name text hvar hnames
        (e := ⟨.blockScopedRedeclaration v.name, v.span⟩) rfl).mpr ⟨v, hv, rfl⟩
      exact ⟨_, ⟨mem_diagnostics.mpr ⟨_, he, rfl⟩, rfl⟩, rfl⟩

/-- The theorem at a text in which a bare body shares the scope of its loop, the branches of `if`
that of the file, and a function that is tried out has a clash of its own. -/
theorem redeclared_perm_nested :
    let script := (recover "a.ts"
      "let a; for (let b;;) let b; if (a) let a; { let a } function f() { let c, c }").1
    ((script.check.diagnostics.filter (·.code = 2451)).map fun d => (d.span, d.message)).Perm
      (script.redeclared.map fun v =>
        (v.span, "Cannot redeclare block-scoped variable '" ++ v.name ++ "'.")) ∧
    script.redeclared.map (fun v => (v.name, v.span.start))
      = [("a", 4), ("a", 39), ("b", 16), ("b", 25), ("c", 71), ("c", 74)] := by
  refine ⟨(redeclared_perm "a.ts" _ ?_ ?_).1, ?_⟩
  · decide +kernel
  · decide +kernel
  · decide +kernel

end Script

end ScriptLint
