import Mathlib.Data.List.Nodup
import Mathlib.Logic.Function.Basic
import ScriptLint.Proofs.Typing.Footprints
/-!
# Tables of scopes

Instead of on a stack, scopes may be kept in a table. There each has a number
and names the scope around it, a new one gets the next number, and none is
ever taken out. The scopes around a place are those on the path from the file
to the scope it is in. In order they are a stack, and what is done to the
table at the end of the path is done to that stack.

Key definitions: `ScopeTable`, `ScopeTable.create`, `ScopeTable.declare`, `ScopeTable.path`,
`ScopeTable.stack`, `ScopeTable.Forest`, `ScopeTable.ofStack`.
Key theorems: `ScopeTable.stack_declare`, `ScopeTable.stack_create`, `ScopeTable.scopes_exit_stack`,
`ScopeTable.stack_ofStack`.
-/

namespace ScriptLint

/-- A scope in a table: the number of the scope around it, and its symbols. -/
structure TableScope where
  parent : Option Nat
  symbols : Scope

/-- Scopes by their numbers, and the number that comes next. -/
structure ScopeTable where
  scopes : Nat → Option TableScope
  next : Nat

namespace ScopeTable

variable {t u : ScopeTable} {id p : Nat}

/-- A table without scopes. -/
def empty : ScopeTable :=
  ⟨fun _ => none, 0⟩

/-- Adds a scope without symbols under the next number. -/
def create (t : ScopeTable) (parent : Option Nat) : ScopeTable :=
  ⟨Function.update t.scopes t.next (some ⟨parent, []⟩), t.next + 1⟩

/-- The file alone. -/
def file : ScopeTable :=
  empty.create none

/-- The scope around the given one. -/
def parent? (t : ScopeTable) (id : Nat) : Option Nat :=
  (t.scopes id).bind TableScope.parent

/-- The symbols of a scope; one that is not there has none. -/
def symbols (t : ScopeTable) (id : Nat) : Scope :=
  ((t.scopes id).map TableScope.symbols).getD []

/-- The symbol that a scope itself declares. -/
def find? (t : ScopeTable) (id : Nat) (name : String) : Option Symbol :=
  (t.symbols id).lookup name

/-- Declares a name in a scope, whether or not it was declared there. Nothing happens if there is
no such scope. -/
def declare (t : ScopeTable) (id : Nat) (name : String) (symbol : Symbol) : ScopeTable :=
  let declared := (t.scopes id).map fun scope =>
    { scope with symbols := (name, symbol) :: scope.symbols }
  ⟨Function.update t.scopes id declared, t.next⟩

/-- The scopes around a place, from the file to the scope it is in. A scope that does not lie in
an older one ends the way, so that every way ends. -/
def path (t : ScopeTable) (id : Nat) : List Nat :=
  match t.parent? id with
  | some p => if p < id then t.path p ++ [id] else [id]
  | none => [id]

/-- The scopes around a place, as a stack. -/
def stack (t : ScopeTable) (current function : Nat) : ScopeStack :=
  ⟨(t.path current).map t.symbols, (t.path current).idxOf function⟩

/-! ### What changes -/

theorem scopes_create_of_ne (h : id ≠ t.next) (parent : Option Nat) :
    (t.create parent).scopes id = t.scopes id :=
  Function.update_of_ne h _ _

@[simp] theorem scopes_create_self (parent : Option Nat) :
    (t.create parent).scopes t.next = some ⟨parent, []⟩ :=
  Function.update_self _ _ _

@[simp] theorem next_create (parent : Option Nat) : (t.create parent).next = t.next + 1 := rfl

@[simp] theorem parent?_create_self (parent : Option Nat) :
    (t.create parent).parent? t.next = parent := by
  rw [parent?, scopes_create_self, Option.bind_some]

theorem parent?_create_of_ne (h : id ≠ t.next) (parent : Option Nat) :
    (t.create parent).parent? id = t.parent? id := by
  rw [parent?, parent?, scopes_create_of_ne h]

theorem symbols_create (id : Nat) (parent : Option Nat) :
    (t.create parent).symbols id = if id = t.next then [] else t.symbols id := by
  split
  · subst id
    rw [symbols, scopes_create_self]
    rfl
  · rename_i h
    rw [symbols, symbols, scopes_create_of_ne h]

theorem scopes_declare_of_ne {j : Nat} (h : j ≠ id) (name : String) (symbol : Symbol) :
    (t.declare id name symbol).scopes j = t.scopes j :=
  Function.update_of_ne h _ _

theorem scopes_declare_self (name : String) (symbol : Symbol) :
    (t.declare id name symbol).scopes id
      = (t.scopes id).map fun scope => { scope with symbols := (name, symbol) :: scope.symbols } :=
  Function.update_self _ _ _

@[simp] theorem next_declare (name : String) (symbol : Symbol) :
    (t.declare id name symbol).next = t.next := rfl

theorem isSome_scopes_declare (j : Nat) (name : String) (symbol : Symbol) :
    ((t.declare id name symbol).scopes j).isSome = (t.scopes j).isSome := by
  by_cases hj : j = id
  · rw [hj, scopes_declare_self, Option.isSome_map]
  · rw [scopes_declare_of_ne hj]

@[simp] theorem parent?_declare (j : Nat) (name : String) (symbol : Symbol) :
    (t.declare id name symbol).parent? j = t.parent? j := by
  by_cases hj : j = id
  · rw [hj, parent?, parent?, scopes_declare_self]
    cases t.scopes id <;> rfl
  · rw [parent?, parent?, scopes_declare_of_ne hj]

theorem symbols_declare (h : (t.scopes id).isSome) (j : Nat) (name : String) (symbol : Symbol) :
    (t.declare id name symbol).symbols j
      = if id = j then (name, symbol) :: t.symbols j else t.symbols j := by
  split
  · subst j
    obtain ⟨scope, hscope⟩ := Option.isSome_iff_exists.mp h
    rw [symbols, symbols, scopes_declare_self, hscope]
    rfl
  · rename_i hj
    rw [symbols, symbols, scopes_declare_of_ne (Ne.symm hj)]

/-! ### The way to a scope -/

theorem path_cases (t : ScopeTable) (id : Nat) :
    t.path id = [id] ∨ ∃ p < id, t.parent? id = some p ∧ t.path id = t.path p ++ [id] := by
  rw [path]
  cases hp : t.parent? id with
  | none => exact .inl rfl
  | some p =>
    dsimp only
    split
    · exact .inr ⟨p, ‹_›, rfl, rfl⟩
    · exact .inl rfl

theorem path_eq_append (hp : t.parent? id = some p) (hlt : p < id) :
    t.path id = t.path p ++ [id] := by
  rw [path, hp]
  exact if_pos hlt

/-- A path ends in the scope it leads to. -/
theorem exists_path_eq (t : ScopeTable) (id : Nat) : ∃ outer, t.path id = outer ++ [id] := by
  rcases t.path_cases id with h | ⟨p, -, -, h⟩
  · exact ⟨[], h⟩
  · exact ⟨t.path p, h⟩

theorem mem_path_self (t : ScopeTable) (id : Nat) : id ∈ t.path id := by
  obtain ⟨outer, h⟩ := t.exists_path_eq id
  simp [h]

/-- On the way to a scope the numbers are smaller. -/
theorem le_of_mem_path {j : Nat} (h : j ∈ t.path id) : j ≤ id := by
  induction id using Nat.strongRecOn with
  | ind id ih =>
    rcases t.path_cases id with hpath | ⟨p, hlt, -, hpath⟩
    · rw [hpath, List.mem_singleton] at h
      exact Nat.le_of_eq h
    · rw [hpath, List.mem_append, List.mem_singleton] at h
      rcases h with h | h
      · exact Nat.le_trans (ih p hlt h) (Nat.le_of_lt hlt)
      · exact Nat.le_of_eq h

theorem nodup_path (t : ScopeTable) (id : Nat) : (t.path id).Nodup := by
  induction id using Nat.strongRecOn with
  | ind id ih =>
    rcases t.path_cases id with hpath | ⟨p, hlt, -, hpath⟩
    · rw [hpath]
      exact List.nodup_singleton id
    · rw [hpath, List.nodup_append_comm, List.singleton_append, List.nodup_cons]
      exact ⟨fun hmem => absurd (le_of_mem_path hmem) (Nat.not_le.mpr hlt), ih p hlt⟩

/-- The way to a scope depends on the parents of no younger one. -/
theorem path_congr (h : ∀ j ≤ id, u.parent? j = t.parent? j) : u.path id = t.path id := by
  induction id using Nat.strongRecOn with
  | ind id ih =>
    rw [path, path, h id (Nat.le_refl id)]
    cases t.parent? id with
    | none => rfl
    | some p =>
      dsimp only
      split
      · rename_i hlt
        rw [ih p hlt fun j hj => h j (Nat.le_trans hj (Nat.le_of_lt hlt))]
      · rfl

theorem idxOf_path_self (t : ScopeTable) (id : Nat) :
    (t.path id).idxOf id = (t.path id).length - 1 := by
  obtain ⟨outer, h⟩ := t.exists_path_eq id
  have hnodup := h ▸ t.nodup_path id
  have hmem : id ∉ outer := fun hid =>
    List.disjoint_of_nodup_append hnodup hid (List.mem_singleton_self id)
  rw [h, List.idxOf_append_of_notMem hmem]
  simp

/-! ### Forests -/

/-- The scopes of the table are those below the next number, a scope lies in an older one, and
only the file lies in none. -/
structure Forest (t : ScopeTable) : Prop where
  isSome_iff : ∀ id, (t.scopes id).isSome ↔ id < t.next
  parent_lt : ∀ id p, t.parent? id = some p → p < id
  parent?_eq_none : ∀ id < t.next, t.parent? id = none ↔ id = 0

theorem forest_file : file.Forest where
  isSome_iff id := by
    by_cases hid : id = 0
    · simp [hid, file, empty, create]
    · simp [hid, file, empty, create]
  parent_lt id p hp := by
    by_cases hid : id = 0 <;> simp [hid, parent?, file, empty, create] at hp
  parent?_eq_none id hid := by
    have hzero : id = 0 := by simpa [file, empty] using hid
    subst hzero
    exact iff_of_true rfl rfl

namespace Forest

theorem create (h : t.Forest) (hp : p < t.next) : (t.create (some p)).Forest where
  isSome_iff id := by
    by_cases hid : id = t.next
    · simp [hid]
    · rw [scopes_create_of_ne hid, h.isSome_iff, next_create]
      omega
  parent_lt id q hq := by
    by_cases hid : id = t.next
    · rw [hid, parent?_create_self, Option.some.injEq] at hq
      omega
    · rw [parent?_create_of_ne hid] at hq
      exact h.parent_lt id q hq
  parent?_eq_none id hlt := by
    by_cases hid : id = t.next
    · rw [hid, parent?_create_self]
      exact iff_of_false nofun (by omega)
    · rw [parent?_create_of_ne hid]
      rw [next_create] at hlt
      exact h.parent?_eq_none id (by omega)

theorem declare (h : t.Forest) (id : Nat) (name : String) (symbol : Symbol) :
    (t.declare id name symbol).Forest where
  isSome_iff j := by rw [isSome_scopes_declare, h.isSome_iff, next_declare]
  parent_lt j q hq := h.parent_lt j q (by rwa [parent?_declare] at hq)
  parent?_eq_none j hj := by
    rw [parent?_declare]
    exact h.parent?_eq_none j hj

end Forest

/-! ### The stack at a place -/

variable {current function : Nat}

theorem path_ne_nil (t : ScopeTable) (id : Nat) : t.path id ≠ [] := by
  obtain ⟨outer, h⟩ := t.exists_path_eq id
  simp [h]

theorem length_path_pos (t : ScopeTable) (id : Nat) : 0 < (t.path id).length :=
  List.length_pos_of_ne_nil (t.path_ne_nil id)

@[simp] theorem length_stack : (t.stack current function).scopes.length = (t.path current).length :=
  List.length_map _

theorem current_stack : (t.stack current function).current = (t.path current).idxOf current := by
  rw [ScopeStack.current, length_stack, idxOf_path_self]

/-- What a stack is depends on the scopes on the path alone. -/
theorem stack_congr (hparent : ∀ j ≤ current, u.parent? j = t.parent? j)
    (hsymbols : ∀ j ∈ t.path current, u.symbols j = t.symbols j) :
    u.stack current function = t.stack current function := by
  have hpath := path_congr hparent
  rw [stack, stack, hpath, List.map_congr_left hsymbols]

theorem find?_stack (h : id ∈ t.path current) (name : String) :
    (t.stack current function).find? ((t.path current).idxOf id) name = t.find? id name := by
  have hlt : (t.path current).idxOf id < (t.path current).length := List.idxOf_lt_length_of_mem h
  rw [ScopeStack.find?, stack, List.getElem?_map, List.getElem?_eq_getElem hlt, List.getElem_idxOf]
  rfl

/-- To declare a name in a scope is to declare it on the stack. -/
theorem stack_declare (hsome : (t.scopes id).isSome) (name : String) (symbol : Symbol) :
    (t.declare id name symbol).stack current function
      = (t.stack current function).declare ((t.path current).idxOf id) name symbol := by
  have hpath : (t.declare id name symbol).path current = t.path current :=
    path_congr fun j _ => parent?_declare j name symbol
  have hscopes : (t.path current).map (t.declare id name symbol).symbols
      = ((t.path current).map t.symbols).modify ((t.path current).idxOf id)
        ((name, symbol) :: ·) := by
    refine List.ext_getElem (by simp) fun i hi _ => ?_
    rw [List.length_map] at hi
    have hindex : (t.path current).idxOf id = i ↔ id = (t.path current)[i] := by
      constructor
      · intro heq
        subst heq
        exact (List.getElem_idxOf _).symm
      · intro heq
        rw [heq]
        exact (t.nodup_path current).idxOf_getElem i hi
    simp only [List.getElem_map, List.getElem_modify, symbols_declare hsome, hindex]
  rw [stack, hpath, hscopes]
  rfl

/-- The path to a new scope. -/
theorem path_create (h : current < t.next) :
    (t.create (some current)).path t.next = t.path current ++ [t.next] := by
  rw [path_eq_append (parent?_create_self _) h]
  congr 1
  exact path_congr fun j hj => parent?_create_of_ne (by omega) _

theorem scopes_stack_create (h : current < t.next) :
    (t.path current ++ [t.next]).map (t.create (some current)).symbols
      = (t.path current).map t.symbols ++ [[]] := by
  have houter : (t.path current).map (t.create (some current)).symbols
      = (t.path current).map t.symbols := by
    refine List.map_congr_left fun j hj => ?_
    have hle := le_of_mem_path hj
    rw [symbols_create, if_neg (by omega)]
  rw [List.map_append, houter, List.map_singleton, symbols_create, if_pos rfl]

/-- To create a scope is to enter one on the stack. -/
theorem stack_create (h : current < t.next) (hf : function ∈ t.path current) :
    (t.create (some current)).stack t.next function = (t.stack current function).enter := by
  rw [stack, path_create h, scopes_stack_create h, List.idxOf_append_of_mem hf]
  rfl

theorem stack_create_function (h : current < t.next) :
    (t.create (some current)).stack t.next t.next = (t.stack current function).enterFunction := by
  have hnew : t.next ∉ t.path current := fun hmem => absurd (le_of_mem_path hmem) (by omega)
  rw [stack, path_create h, scopes_stack_create h, List.idxOf_append_of_notMem hnew]
  simp [ScopeStack.enterFunction, ScopeStack.enter, ScopeStack.current, stack]

/-- To go back to the scope around is to leave a scope on the stack. -/
theorem scopes_exit_stack (hp : t.parent? id = some p) (hlt : p < id) :
    (t.stack id function).exit.scopes = (t.path p).map t.symbols := by
  have hpos := t.length_path_pos p
  have hscopes : (t.stack id function).scopes = (t.path p).map t.symbols ++ [t.symbols id] := by
    rw [stack, path_eq_append hp hlt, List.map_append, List.map_singleton]
  have hlength : ¬ (t.stack id function).scopes.length ≤ 1 := by
    rw [hscopes, List.length_append, List.length_map, List.length_singleton]
    omega
  rw [ScopeStack.exit, if_neg hlength, hscopes, List.dropLast_concat]

/-! ### The table of a stack -/

/-- The table that has the scopes of a stack alone. -/
def ofStack (s : ScopeStack) : ScopeTable where
  scopes id := s.scopes[id]?.map fun scope => ⟨if id = 0 then none else some (id - 1), scope⟩
  next := s.scopes.length

variable {s : ScopeStack}

theorem parent?_ofStack (h : id < s.scopes.length) :
    (ofStack s).parent? id = if id = 0 then none else some (id - 1) := by
  simp [parent?, ofStack, h]

theorem symbols_ofStack (h : id < s.scopes.length) : (ofStack s).symbols id = s.scopes[id] := by
  simp [symbols, ofStack, h]

theorem forest_ofStack (s : ScopeStack) : (ofStack s).Forest where
  isSome_iff id := by simp [ofStack]
  parent_lt id p hp := by
    by_cases hid : id < s.scopes.length
    · rw [parent?_ofStack hid] at hp
      split at hp
      · cases hp
      · cases hp
        omega
    · simp [parent?, ofStack, hid] at hp
  parent?_eq_none id hid := by
    rw [parent?_ofStack hid]
    split <;> simp_all

theorem path_ofStack (h : id < s.scopes.length) : (ofStack s).path id = List.range (id + 1) := by
  induction id with
  | zero => rw [path, parent?_ofStack h, if_pos rfl]; rfl
  | succ id ih =>
    have hparent : (ofStack s).parent? (id + 1) = some id := by
      rw [parent?_ofStack h, if_neg (Nat.succ_ne_zero id), Nat.add_sub_cancel]
    rw [path_eq_append hparent (Nat.lt_succ_self id), ih (by omega), List.range_succ (n := id + 1)]

/-- Every stack is the stack at a place in a table. -/
theorem stack_ofStack (h : s.Valid) : (ofStack s).stack s.current s.function = s := by
  have hfunction : s.function < s.scopes.length := h
  have hlength : s.current + 1 = s.scopes.length := by
    have := h.current_lt
    rw [ScopeStack.current] at this ⊢
    omega
  have hpath : (ofStack s).path s.current = List.range s.scopes.length := by
    rw [path_ofStack h.current_lt, hlength]
  have hscopes : (List.range s.scopes.length).map (ofStack s).symbols = s.scopes := by
    refine List.ext_getElem (by simp) fun i hi hi' => ?_
    rw [List.getElem_map, List.getElem_range, symbols_ofStack hi']
  have hindex : (List.range s.scopes.length).idxOf s.function = s.function := by
    have := List.nodup_range.idxOf_getElem s.function (by simpa using hfunction)
    rwa [List.getElem_range] at this
  rw [stack, hpath, hscopes, hindex]

end ScopeTable

end ScriptLint
