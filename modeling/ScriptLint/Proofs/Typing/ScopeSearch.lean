import Mathlib.Logic.Relation
import ScriptLint.Proofs.Typing.ScopeTable
/-!
# Searching a name outwards

A name is searched in a table of scopes from some scope outwards, along the
parents. Nothing in the search itself says that it ends, and it may come to a
number under which there is no scope. In a forest neither can happen: the
numbers get smaller on the way, and all of them are scopes. The symbol that
is found is that of the nearest scope around that declares the name.

Key definitions: `ScopeTable.Encloses`, `ScopeTable.Searches`, `ScopeTable.Nearest`.
Key theorems: `ScopeTable.Forest.encloses_iff_mem_path`, `ScopeTable.Forest.search_cases`.
-/

namespace ScriptLint.ScopeTable

variable {t : ScopeTable} {id j k p : Nat}

/-! ### Scopes around scopes -/

/-- The inner scope is the outer one, or lies in it at some depth. -/
def Encloses (t : ScopeTable) (outer inner : Nat) : Prop :=
  Relation.ReflTransGen (fun id p => t.parent? id = some p) inner outer

theorem encloses_iff : t.Encloses j id ↔ j = id ∨ ∃ p, t.parent? id = some p ∧ t.Encloses j p := by
  rw [Encloses, Relation.ReflTransGen.cases_head_iff, eq_comm]
  rfl

theorem encloses_self (t : ScopeTable) (id : Nat) : t.Encloses id id := .refl

theorem Encloses.inside (h : t.Encloses j p) (hp : t.parent? id = some p) : t.Encloses j id :=
  encloses_iff.mpr (.inr ⟨p, hp, h⟩)

/-- In a forest the scopes around are those on the way from the file. -/
theorem Forest.encloses_iff_mem_path (h : t.Forest) : t.Encloses j id ↔ j ∈ t.path id := by
  induction id using Nat.strongRecOn with
  | ind id ih =>
    rw [encloses_iff]
    cases hp : t.parent? id with
    | none =>
      have hpath : t.path id = [id] := by rw [path, hp]
      simp [hpath]
    | some p =>
      have hlt := h.parent_lt id p hp
      rw [path_eq_append hp hlt, List.mem_append, List.mem_singleton, ← ih p hlt]
      simp [or_comm]

/-! ### The search -/

/-- How a search ends: with a symbol, outside of all scopes, or at a number that has no scope. -/
inductive Search where
  | found (symbol : Symbol)
  | exhausted
  | lost

/-- How the search for a name ends that begins in some scope and goes outwards. If the way out has no
end, it ends in no way. -/
inductive Searches (t : ScopeTable) (name : String) : Nat → Search → Prop
  | lost {id : Nat} (hscope : t.scopes id = none) : Searches t name id .lost
  | found {id : Nat} {scope : TableScope} {symbol : Symbol} (hscope : t.scopes id = some scope)
      (hsymbol : scope.symbols.lookup name = some symbol) : Searches t name id (.found symbol)
  | exhausted {id : Nat} {scope : TableScope} (hscope : t.scopes id = some scope)
      (hsymbol : scope.symbols.lookup name = none) (hparent : scope.parent = none) :
      Searches t name id .exhausted
  | outwards {id p : Nat} {scope : TableScope} {r : Search} (hscope : t.scopes id = some scope)
      (hsymbol : scope.symbols.lookup name = none) (hparent : scope.parent = some p)
      (hout : Searches t name p r) : Searches t name id r

/-- What a search does where there is a scope. -/
theorem searches_iff {name : String} {scope : TableScope} {r : Search}
    (hscope : t.scopes id = some scope) :
    t.Searches name id r ↔
      match scope.symbols.lookup name, scope.parent with
      | some symbol, _ => r = .found symbol
      | none, none => r = .exhausted
      | none, some p => t.Searches name p r := by
  constructor
  · intro h
    cases h with
    | lost h => simp [hscope] at h
    | found h hsymbol =>
      cases hscope.symm.trans h
      rw [hsymbol]
    | exhausted h hsymbol hparent =>
      cases hscope.symm.trans h
      rw [hsymbol, hparent]
    | outwards h hsymbol hparent hout =>
      cases hscope.symm.trans h
      rw [hsymbol, hparent]
      exact hout
  · intro h
    cases hsymbol : scope.symbols.lookup name with
    | some symbol =>
      rw [hsymbol] at h
      exact h ▸ .found hscope hsymbol
    | none =>
      cases hparent : scope.parent with
      | none =>
        rw [hsymbol, hparent] at h
        exact h ▸ .exhausted hscope hsymbol hparent
      | some p =>
        rw [hsymbol, hparent] at h
        exact .outwards hscope hsymbol hparent h

/-- The scope is around the given one and declares the name, and every other such scope is around
it. -/
structure Nearest (t : ScopeTable) (id : Nat) (name : String) (j : Nat) : Prop where
  encloses : t.Encloses j id
  declares : (t.find? j name).isSome
  innermost : ∀ k, t.Encloses k id → (t.find? k name).isSome → t.Encloses k j

/-- A name that a scope does not declare means what it means around it. -/
theorem Nearest.inside {name : String} (h : t.Nearest p name j) (hp : t.parent? id = some p)
    (hid : t.find? id name = none) : t.Nearest id name j where
  encloses := h.encloses.inside hp
  declares := h.declares
  innermost k hk hdeclares := by
    rcases encloses_iff.mp hk with rfl | ⟨q, hq, hk⟩
    · simp [hid] at hdeclares
    · rw [hp, Option.some.injEq] at hq
      exact h.innermost k (hq ▸ hk) hdeclares

/-- What a name means on the stack at a scope: what the scope declares, or else what the name means
around it. -/
theorem lookup?_stack_of_parent {function : Nat} (hp : t.parent? id = some p) (hlt : p < id)
    (name : String) :
    (t.stack id function).lookup? name =
      (t.find? id name).or ((t.stack p function).lookup? name) := by
  rw [ScopeStack.lookup?, ScopeStack.lookup?, stack, stack, path_eq_append hp hlt, List.map_append,
    List.reverse_append, List.map_singleton, List.reverse_singleton, List.singleton_append,
    List.findSome?_cons, find?]
  cases (t.symbols id).lookup name <;> rfl

theorem lookup?_stack_of_none {function : Nat} (hp : t.parent? id = none) (name : String) :
    (t.stack id function).lookup? name = t.find? id name := by
  have hpath : t.path id = [id] := by rw [path, hp]
  rw [ScopeStack.lookup?, stack, hpath, List.map_singleton, List.reverse_singleton,
    List.findSome?_singleton, find?]

/-- **In a forest every search ends,** with the symbol of the nearest scope around that declares the
name, or outside of all scopes if none does. That is what the name means on the stack. -/
theorem Forest.search_cases (h : t.Forest) (hid : id < t.next) (function : Nat) (name : String) :
    (∃ j symbol, (∀ r, t.Searches name id r ↔ r = .found symbol) ∧ t.Nearest id name j ∧
      t.find? j name = some symbol ∧ (t.stack id function).lookup? name = some symbol) ∨
    ((∀ r, t.Searches name id r ↔ r = .exhausted) ∧ (∀ j, t.Encloses j id → t.find? j name = none) ∧
      (t.stack id function).lookup? name = none) := by
  -- by induction on the number, which gets smaller on the way out
  induction id using Nat.strongRecOn with
  | ind id ih =>
    obtain ⟨scope, hscope⟩ := Option.isSome_iff_exists.mp ((h.isSome_iff id).mpr hid)
    have hfind : t.find? id name = scope.symbols.lookup name := by simp [find?, symbols, hscope]
    have hparent : t.parent? id = scope.parent := by simp [parent?, hscope]
    simp only [searches_iff hscope]
    rw [← hfind, ← hparent]
    cases hdeclared : t.find? id name with
    | some symbol =>
      refine .inl ⟨id, symbol, fun _ => Iff.rfl,
        ⟨t.encloses_self id, by simp [hdeclared], fun k hk _ => hk⟩, hdeclared, ?_⟩
      cases hp : t.parent? id with
      | none => rw [lookup?_stack_of_none hp, hdeclared]
      | some p => rw [lookup?_stack_of_parent hp (h.parent_lt id p hp), hdeclared, Option.some_or]
    | none =>
      cases hp : t.parent? id with
      | none =>
        refine .inr ⟨fun _ => Iff.rfl, fun j hj => ?_, by rw [lookup?_stack_of_none hp, hdeclared]⟩
        obtain rfl : j = id := by simpa [hp] using encloses_iff.mp hj
        exact hdeclared
      | some p =>
        have hlt := h.parent_lt id p hp
        rw [lookup?_stack_of_parent hp hlt, hdeclared, Option.none_or]
        rcases ih p hlt (Nat.lt_trans hlt hid) with
          ⟨j, symbol, hfound, hnearest, hj, hlookup⟩ | ⟨hexhausted, hnone, hlookup⟩
        · exact .inl ⟨j, symbol, hfound, hnearest.inside hp hdeclared, hj, hlookup⟩
        · refine .inr ⟨hexhausted, fun j hj => ?_, hlookup⟩
          rcases encloses_iff.mp hj with rfl | ⟨q, hq, hj⟩
          · exact hdeclared
          · rw [hp, Option.some.injEq] at hq
            exact hnone j (hq ▸ hj)

end ScriptLint.ScopeTable
