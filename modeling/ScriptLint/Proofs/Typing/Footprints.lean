import ScriptLint.Proofs.Typing.Lookups
/-!
# What the checker does to the scopes

A statement declares the names of its footprint, each where the footprint
says, and leaves every other name of every scope as it was. A name that a
scope has stays in it, and a function stays what it is, unless it is a
function of the list at hand whose body has just been tried out. A block
opens a scope and closes it again, so behind it only the variables are left
that `var` declared; behind the body of a function nothing is left.

Key definitions: `ScopeStack.Valid`, `ScopeStack.Changes`, `Check.Acts`.
Key theorems: `Check.Acts.inScope`, `Check.acts_statement`, `Check.acts_inferFunctions`.
-/

namespace ScriptLint

namespace ScopeStack

variable {x y : ScopeStack}

/-! ### Finding names -/

/-- The scope of the function at hand is one of the scopes. -/
def Valid (x : ScopeStack) : Prop :=
  x.function < x.scopes.length

theorem Valid.current_lt (h : x.Valid) : x.current < x.scopes.length := by
  unfold Valid at h
  unfold current
  omega

theorem Valid.function_le (h : x.Valid) : x.function ≤ x.current := by
  unfold Valid at h
  unfold current
  omega

theorem current_eq_of_length (h : y.scopes.length = x.scopes.length) : y.current = x.current := by
  rw [current, current, h]

theorem find?_eq_none {i : Nat} (h : x.scopes.length ≤ i) (n : String) : x.find? i n = none := by
  rw [find?, List.getElem?_eq_none h]
  rfl

theorem lt_of_isSome_find? {i : Nat} {n : String} (h : (x.find? i n).isSome) :
    i < x.scopes.length := by
  by_cases hi : i < x.scopes.length
  · exact hi
  · rw [find?_eq_none (Nat.le_of_not_lt hi)] at h
    cases h

@[simp] theorem length_declare (i : Nat) (n : String) (symbol : Symbol) :
    (x.declare i n symbol).scopes.length = x.scopes.length := by
  simp [declare]

@[simp] theorem function_declare (i : Nat) (n : String) (symbol : Symbol) :
    (x.declare i n symbol).function = x.function := rfl

theorem find?_declare_self {i : Nat} (h : i < x.scopes.length) (n : String) (symbol : Symbol) :
    (x.declare i n symbol).find? i n = some symbol := by
  simp [find?, declare, h]

theorem find?_declare_of_ne {i j : Nat} {n m : String} (h : j = i → m ≠ n) (symbol : Symbol) :
    (x.declare i n symbol).find? j m = x.find? j m := by
  simp only [find?, declare, List.getElem?_modify]
  by_cases hij : i = j
  · have hne : (m == n) = false := by simpa using h hij.symm
    cases x.scopes[j]? <;> simp [hij, List.lookup_cons, hne]
  · simp [hij]

/-- A new scope has no names. -/
@[simp] theorem find?_enter (i : Nat) (n : String) : x.enter.find? i n = x.find? i n := by
  simp only [find?, enter, List.getElem?_append]
  split
  · rfl
  · rename_i hi
    rw [List.getElem?_eq_none (Nat.le_of_not_lt hi)]
    cases i - x.scopes.length <;> rfl

@[simp] theorem length_enter : x.enter.scopes.length = x.scopes.length + 1 := by
  simp [enter]

theorem length_exit (h : 1 < x.scopes.length) : x.exit.scopes.length = x.scopes.length - 1 := by
  rw [exit, if_neg (by omega), List.length_dropLast]

theorem find?_exit {i : Nat} (h : i + 1 < x.scopes.length) (n : String) :
    x.exit.find? i n = x.find? i n := by
  rw [find?, find?, exit, if_neg (by omega), List.getElem?_dropLast, if_pos (by omega)]

/-- What a name stands for depends on what each scope has for it. -/
theorem lookup?_congr {n : String} (hlength : x.scopes.length = y.scopes.length)
    (h : ∀ i, x.find? i n = y.find? i n) : x.lookup? n = y.lookup? n := by
  have hmap : x.scopes.map (·.lookup n) = y.scopes.map (·.lookup n) := by
    refine List.ext_getElem (by simpa using hlength) fun i hi hi' => ?_
    rw [List.length_map] at hi hi'
    have hfound := h i
    rw [find?, find?, List.getElem?_eq_getElem hi, List.getElem?_eq_getElem hi'] at hfound
    simpa using hfound
  have hfind : ∀ scopes : List Scope, scopes.reverse.findSome? (·.lookup n)
      = (scopes.map (·.lookup n)).reverse.findSome? id := by
    intro scopes
    rw [← List.map_reverse, List.findSome?_map]
    rfl
  rw [lookup?, lookup?, hfind, hfind, hmap]

/-- The innermost scope comes first. -/
theorem lookup?_of_find?_current {n : String} {symbol : Symbol}
    (h : x.find? x.current n = some symbol) : x.lookup? n = some symbol := by
  rcases List.eq_nil_or_concat x.scopes with hnil | ⟨scopes, scope, hscopes⟩
  · rw [find?, hnil] at h
    cases h
  · rw [find?, current, hscopes] at h
    rw [lookup?, hscopes]
    simp_all

/-! ### Changes -/

/-- The scopes `y` differ from `x` by the names of a footprint only. -/
structure Changes (f : Footprint) (x y : ScopeStack) : Prop where
  length : y.scopes.length = x.scopes.length
  function : y.function = x.function
  /-- Everything else is as it was. -/
  kept : ∀ i n, (i = x.current → n ∉ f.block ∧ n ∉ f.replaced) →
    (i = x.function → n ∉ f.function) → y.find? i n = x.find? i n
  /-- No name is lost. -/
  grown : ∀ i n, (x.find? i n).isSome → (y.find? i n).isSome
  /-- No function is lost, but for those that are replaced. -/
  settled : ∀ i n result arity span, x.find? i n = some (.function result arity span) →
    (i = x.current → n ∉ f.replaced) → y.find? i n = some (.function result arity span)
  /-- The names are there. -/
  block : ∀ n ∈ f.block, (y.find? x.current n).isSome
  hoisted : ∀ n ∈ f.function, (y.find? x.function n).isSome

/-- The footprint is one name in one scope. -/
structure Single (x : ScopeStack) (i : Nat) (n : String) (f : Footprint) : Prop where
  here : (i = x.current ∧ (n ∈ f.block ∨ n ∈ f.replaced)) ∨ (i = x.function ∧ n ∈ f.function)
  block : ∀ m ∈ f.block, m = n ∧ i = x.current
  hoisted : ∀ m ∈ f.function, m = n ∧ i = x.function

theorem single_block (x : ScopeStack) (n : String) : x.Single x.current n ⟨[n], [], []⟩ := by
  constructor <;> simp

theorem single_replaced (x : ScopeStack) (n : String) : x.Single x.current n ⟨[], [], [n]⟩ := by
  constructor <;> simp

theorem single_footprint (x : ScopeStack) (kind : DeclKind) (n : String) :
    x.Single (if kind = .varKind then x.function else x.current) n (kind.footprint n) := by
  unfold DeclKind.footprint
  by_cases hkind : kind = .varKind
  · rw [if_pos hkind, if_pos hkind]
    constructor <;> simp
  · rw [if_neg hkind, if_neg hkind]
    exact single_block x n

namespace Changes

variable {z : ScopeStack} {f g : Footprint}

theorem current (h : Changes f x y) : y.current = x.current :=
  current_eq_of_length h.length

theorem valid (h : Changes f x y) (hx : x.Valid) : y.Valid := by
  rw [Valid, h.function, h.length]
  exact hx

theorem refl (x : ScopeStack) : Changes .empty x x where
  length := rfl
  function := rfl
  kept _ _ _ _ := rfl
  grown _ _ h := h
  settled _ _ _ _ _ h _ := h
  block _ h := nomatch h
  hoisted _ h := nomatch h

theorem trans (h : Changes f x y) (h' : Changes g y z) : Changes (f ++ g) x z where
  length := h'.length.trans h.length
  function := h'.function.trans h.function
  kept i n hblock hfunction := by
    simp only [Footprint.block_append, Footprint.replaced_append, Footprint.function_append,
      List.mem_append, not_or] at hblock hfunction
    rw [h'.kept i n, h.kept i n]
    · exact fun hi => ⟨(hblock hi).1.1, (hblock hi).2.1⟩
    · exact fun hi => (hfunction hi).1
    · rw [h.current]
      exact fun hi => ⟨(hblock hi).1.2, (hblock hi).2.2⟩
    · rw [h.function]
      exact fun hi => (hfunction hi).2
  grown i n hn := h'.grown i n (h.grown i n hn)
  settled i n result arity span hn hreplaced := by
    simp only [Footprint.replaced_append, List.mem_append, not_or] at hreplaced
    refine h'.settled i n result arity span ?_ ?_
    · exact h.settled i n result arity span hn fun hi => (hreplaced hi).1
    · rw [h.current]
      exact fun hi => (hreplaced hi).2
  block n hn := by
    rcases List.mem_append.mp hn with hn | hn
    · exact h'.grown _ n (h.block n hn)
    · rw [← h.current]
      exact h'.block n hn
  hoisted n hn := by
    rcases List.mem_append.mp hn with hn | hn
    · exact h'.grown _ n (h.hoisted n hn)
    · rw [← h.function]
      exact h'.hoisted n hn

/-- Behind a scope that was opened in `x` the changes inside it are gone: what is left is what
was declared in the scope of the function, if that is a scope of `x`. -/
theorem leave {u : ScopeStack} (h : Changes f u y) (hx : x.Valid)
    (hu : u.scopes = x.enter.scopes) (hg : g.block = [] ∧ g.replaced = [])
    (hkept : ∀ n, u.function < x.scopes.length → n ∈ f.function →
      u.function = x.function ∧ n ∈ g.function)
    (hhoisted : ∀ n ∈ g.function, u.function = x.function ∧ n ∈ f.function) :
    Changes g x { y.exit with function := x.function } := by
  have hpos : 0 < x.scopes.length := Nat.zero_lt_of_lt hx
  have hlength : y.scopes.length = x.scopes.length + 1 := by
    rw [h.length, hu, length_enter]
  have hexit : y.exit.scopes.length = x.scopes.length := by
    rw [length_exit (by omega), hlength, Nat.add_sub_cancel]
  have hcurrent : u.current = x.scopes.length := by
    rw [ScopeStack.current, hu, length_enter, Nat.add_sub_cancel]
  have hbefore : ∀ i n, u.find? i n = x.find? i n := by
    intro i n
    rw [← x.find?_enter, find?, find?, hu]
  have hbehind : ∀ i n, i < x.scopes.length → y.exit.find? i n = y.find? i n :=
    fun i n hi => find?_exit (by omega) n
  refine ⟨hexit, rfl, fun i n hblock hfunction => ?_, fun i n hn => ?_,
    fun i n result arity span hn _ => ?_, fun n hn => ?_, fun n hn => ?_⟩
  · show y.exit.find? i n = _
    by_cases hi : i < x.scopes.length
    · rw [hbehind i n hi, h.kept i n, hbefore]
      · exact fun hi' => absurd (hi'.trans hcurrent) (Nat.ne_of_lt hi)
      · intro hi' hn
        obtain ⟨hfun, hn⟩ := hkept n (hi' ▸ hi) hn
        exact hfunction (hi'.trans hfun) hn
    · rw [find?_eq_none (by omega), find?_eq_none (by omega)]
  · show (y.exit.find? i n).isSome
    rw [hbehind i n (lt_of_isSome_find? hn)]
    exact h.grown i n (hbefore i n ▸ hn)
  · have hi : i < x.scopes.length := lt_of_isSome_find? (by rw [hn]; rfl)
    show y.exit.find? i n = _
    rw [hbehind i n hi]
    refine h.settled i n result arity span (by rw [hbefore, hn]) fun hi' => ?_
    exact absurd (hi'.trans hcurrent) (Nat.ne_of_lt hi)
  · rw [hg.1] at hn
    cases hn
  · obtain ⟨hfun, hn⟩ := hhoisted n hn
    show (y.exit.find? x.function n).isSome
    rw [hbehind _ n hx, ← hfun]
    exact h.hoisted n hn

/-- Behind a block only what `var` declared in it is left. -/
theorem exit_enter (hx : x.Valid) (h : Changes f x.enter y) : Changes f.outside x y.exit := by
  have hfunction : y.exit.function = x.function := h.function
  rw [← show { y.exit with function := x.function } = y.exit by rw [← hfunction]]
  exact h.leave hx rfl ⟨rfl, rfl⟩ (fun n _ hn => ⟨rfl, hn⟩) fun n hn => ⟨rfl, hn⟩

/-- Behind the body of a function nothing is left. -/
theorem exit_enterFunction (hx : x.Valid) (h : Changes f x.enterFunction y) :
    Changes .empty x { y.exit with function := x.function } := by
  refine h.leave hx rfl ⟨rfl, rfl⟩ (fun n hlt _ => ?_) fun n hn => nomatch hn
  have hcurrent : x.enter.current = x.scopes.length := by
    rw [ScopeStack.current, length_enter, Nat.add_sub_cancel]
  exact absurd hcurrent (Nat.ne_of_lt hlt)

/-- The one name of the footprint is declared. Over a function that is only done to replace it. -/
theorem declare {i : Nat} {n : String} {symbol : Symbol} (hf : x.Single i n f)
    (hi : i < x.scopes.length)
    (hold : (i = x.current ∧ n ∈ f.replaced) ∨
      ∀ result arity span, x.find? i n ≠ some (.function result arity span)) :
    Changes f x (x.declare i n symbol) := by
  have hself : (x.declare i n symbol).find? i n = some symbol := find?_declare_self hi n symbol
  refine ⟨length_declare i n symbol, rfl, fun j m hj hj' => ?_, fun j m hm => ?_,
    fun j m result arity span hm hj => ?_, fun m hm => ?_, fun m hm => ?_⟩
  · refine find?_declare_of_ne (fun hij hmn => ?_) symbol
    subst hij hmn
    rcases hf.here with ⟨hcurrent, hn | hn⟩ | ⟨hfunction, hn⟩
    · exact (hj hcurrent).1 hn
    · exact (hj hcurrent).2 hn
    · exact hj' hfunction hn
  · by_cases hij : j = i ∧ m = n
    · rw [hij.1, hij.2, hself]
      rfl
    · rwa [find?_declare_of_ne (fun h h' => hij ⟨h, h'⟩)]
  · by_cases hij : j = i ∧ m = n
    · obtain ⟨rfl, rfl⟩ := hij
      rcases hold with ⟨hcurrent, hn⟩ | hold
      · exact absurd hn (hj hcurrent)
      · exact absurd hm (hold result arity span)
    · rwa [find?_declare_of_ne (fun h h' => hij ⟨h, h'⟩)]
  · obtain ⟨rfl, hcurrent⟩ := hf.block m hm
    rw [← hcurrent, hself]
    rfl
  · obtain ⟨rfl, hfunction⟩ := hf.hoisted m hm
    rw [← hfunction, hself]
    rfl

/-- A name that is there already needs no declaration. -/
theorem known {i : Nat} {n : String} (hf : x.Single i n f) (hn : (x.find? i n).isSome) :
    Changes f x x := by
  refine ⟨rfl, rfl, fun _ _ _ _ => rfl, fun _ _ h => h, fun _ _ _ _ _ h _ => h, fun m hm => ?_,
    fun m hm => ?_⟩
  · obtain ⟨rfl, hcurrent⟩ := hf.block m hm
    rwa [← hcurrent]
  · obtain ⟨rfl, hfunction⟩ := hf.hoisted m hm
    rwa [← hfunction]

end Changes

end ScopeStack

/-! ### Steps of the checker -/

namespace Check

open Typing

variable {α β : Type} {f g : Footprint}

/-- The step changes the scopes by a footprint. -/
def Acts (f : Footprint) (p : Check α) : Prop :=
  ∀ s : State, s.scopes.Valid → s.scopes.Changes f (p s).2.scopes

namespace Acts

/-- A step that leaves the scopes alone. -/
theorem of_scopes_eq {p : Check α} (h : ∀ s, (p s).2.scopes = s.scopes) : Acts .empty p := by
  intro s _
  rw [h s]
  exact .refl s.scopes

theorem pure (a : α) : Acts .empty (Pure.pure a : Check α) :=
  of_scopes_eq fun _ => rfl

theorem bind {p : Check α} {q : α → Check β} (hp : Acts f p) (hq : ∀ a, Acts g (q a)) :
    Acts (f ++ g) (p >>= q) := by
  intro s hs
  have hfirst := hp s hs
  exact hfirst.trans (hq (p s).1 (p s).2 (hfirst.valid hs))

/-- After a step that declares nothing. -/
theorem after {p : Check α} {q : α → Check β} (hp : Acts .empty p) (hq : ∀ a, Acts g (q a)) :
    Acts g (p >>= q) :=
  hp.bind hq

/-- Before a step that declares nothing. -/
theorem before {p : Check α} {q : α → Check β} (hp : Acts f p) (hq : ∀ a, Acts .empty (q a)) :
    Acts f (p >>= q) := by
  have hboth := hp.bind hq
  have hempty : f ++ Footprint.empty = f := by
    show Footprint.mk (f.block ++ []) (f.function ++ []) (f.replaced ++ []) = f
    rw [List.append_nil, List.append_nil, List.append_nil]
  rwa [hempty] at hboth

theorem get_bind {q : State → Check β} (h : ∀ s, Acts g (q s)) : Acts g (get >>= q) :=
  fun s hs => h s s hs

/-- A step in a scope of its own. -/
theorem inScope {p : Check α} (h : Acts f p) : Acts f.outside (inScope p) := by
  intro s hs
  have henter : s.scopes.enter.Valid := by
    rw [ScopeStack.Valid, ScopeStack.length_enter]
    exact Nat.lt_succ_of_lt hs
  exact (h { s with scopes := s.scopes.enter } henter).exit_enter hs

/-- A step in the scope of a new function. -/
theorem inFunctionScope {p : Check α} (h : Acts f p) : Acts .empty (inFunctionScope p) := by
  intro s hs
  have henter : s.scopes.enterFunction.Valid := by
    show s.scopes.enter.current < s.scopes.enter.scopes.length
    rw [ScopeStack.current, ScopeStack.length_enter]
    omega
  exact (h { s with scopes := s.scopes.enterFunction } henter).exit_enterFunction hs

theorem inFrame {p : Check Unit} (h : Acts f p) (declared : Option Ty) :
    Acts f (inFrame declared p) :=
  fun s hs => h { s with frames := ⟨declared, []⟩ :: s.frames } hs

theorem silently {p : Check α} (h : Acts f p) : Acts f (silently p) :=
  fun s hs => h { s with silent := true } hs

end Acts

theorem Reads.acts {N : List String} {p : Check α} (h : Reads N p) : Acts .empty p :=
  Acts.of_scopes_eq h.scopes

/-! ### Declarations -/

theorem run_bind (p : Check α) (q : α → Check β) (s : State) :
    (p >>= q) s = q (p s).1 (p s).2 := rfl

theorem run_get_bind (q : State → Check β) (s : State) : (get >>= q) s = q s s := rfl

theorem run_modify (f : State → State) (s : State) : (modify f : Check Unit) s = ((), f s) := rfl

theorem declareNew_of_some {s : State} {i : Nat} {n : String} {existing : Symbol}
    (h : s.scopes.find? i n = some existing) (symbol : Symbol) :
    declareNew i n symbol s = (some existing, s) := by
  rw [declareNew, run_get_bind, h]
  rfl

theorem declareNew_of_none {s : State} {i : Nat} {n : String}
    (h : s.scopes.find? i n = none) (symbol : Symbol) :
    declareNew i n symbol s = (none, { s with scopes := s.scopes.declare i n symbol }) := by
  rw [declareNew, run_get_bind, h]
  rfl

/-- A name is declared where it was not, or was there before. -/
theorem changes_declareNew {s : State} {i : Nat} {n : String} (hf : s.scopes.Single i n f)
    (hi : i < s.scopes.scopes.length) (symbol : Symbol) :
    s.scopes.Changes f (declareNew i n symbol s).2.scopes := by
  cases hfind : s.scopes.find? i n with
  | some existing =>
    rw [declareNew_of_some hfind]
    exact .known hf (by rw [hfind]; rfl)
  | none =>
    rw [declareNew_of_none hfind]
    exact .declare hf hi (.inr fun _ _ _ h => by rw [hfind] at h; cases h)

theorem acts_declareVariable (kind : DeclKind) (name : Ident) (type : Ty) :
    Acts (kind.footprint name.name) (declareVariable kind name type) := by
  intro s hs
  have hf := s.scopes.single_footprint kind name.name
  have hi : (if kind = .varKind then s.scopes.function else s.scopes.current)
      < s.scopes.scopes.length := by
    split
    · exact hs
    · exact hs.current_lt
  unfold declareVariable
  rw [run_get_bind, run_bind]
  generalize (if kind = .varKind then s.scopes.function else s.scopes.current) = i at hf hi ⊢
  cases hfind : s.scopes.find? i name.name with
  | none =>
    rw [declareNew_of_none hfind]
    exact .declare hf hi (.inr fun _ _ _ h => by rw [hfind] at h; cases h)
  | some existing =>
    rw [declareNew_of_some hfind]
    have hknown : s.scopes.Changes (kind.footprint name.name) s.scopes :=
      .known hf (by rw [hfind]; rfl)
    cases existing with
    | function result arity span => 
      show s.scopes.Changes _ (reportBoth _ _ _ s).2.scopes
      rw [(reads_reportBoth _ _ _).scopes]
      exact hknown
    | value old existingKind span =>
      show s.scopes.Changes _ ((if _ then _ else _ : Check Unit) s).2.scopes
      split
      · exact .declare hf hi (.inr fun _ _ _ h => by rw [hfind] at h; cases h)
      · split
        · rw [(reads_reportBoth _ _ _).scopes]
          exact hknown
        · rw [(reads_reportBoth _ _ _).scopes]
          exact hknown

theorem acts_record (start : Nat) (type : Ty) : Acts .empty (modify (State.record start type)) := by
  refine Acts.of_scopes_eq fun s => ?_
  show (s.record start type).scopes = s.scopes
  unfold State.record
  split <;> rfl

/-- The type of the first value of a variable, if it has one. -/
def firstValue : Option Expr → Check (Option (Option Ty))
  | some e => some <$> infer e
  | none => pure none

/-- What is left to do for a variable when the type of its first value is known. -/
def declareValued (kind : DeclKind) (name : Ident) (declared : Option Ty)
    (initial : Option (Option Ty)) : Check Unit := do
  let type ← variableType kind name declared initial
  match type with
  | some type => modify (State.record name.span.start type)
  | none => pure ()
  declareVariable kind name (type.getD Ty.any)

theorem declarator_eq (kind : DeclKind) (d : Declarator) :
    declarator kind d = (do
      let declared ← resolve? d.declaredType
      let initial ← firstValue d.initializer
      declareValued kind d.name declared initial) := by
  unfold declarator
  cases d.initializer <;> rfl

theorem acts_firstValue : ∀ e : Option Expr, Acts .empty (firstValue e)
  | some e => (reads_infer e).acts.before fun _ => Acts.pure _
  | none => Acts.pure none

theorem acts_declareValued (kind : DeclKind) (name : Ident) (declared : Option Ty)
    (initial : Option (Option Ty)) :
    Acts (kind.footprint name.name) (declareValued kind name declared initial) := by
  refine (reads_variableType kind name declared initial).acts.after fun type => ?_
  cases type with
  | some type => exact (acts_record _ type).after fun _ => acts_declareVariable kind name type
  | none => exact acts_declareVariable kind name Ty.any

theorem acts_declarator (kind : DeclKind) (d : Declarator) :
    Acts (kind.footprint d.name.name) (declarator kind d) := by
  rw [declarator_eq]
  refine (reads_resolve? d.declaredType).acts.after fun declared => ?_
  exact (acts_firstValue d.initializer).after fun initial =>
    acts_declareValued kind d.name declared initial

theorem acts_declarators (kind : DeclKind) (ds : List Declarator) :
    Acts (kind.footprints ds) (ds.forM (declarator kind)) := by
  induction ds with
  | nil => exact Acts.pure ()
  | cons d ds ih => exact (acts_declarator kind d).bind fun _ => ih

theorem acts_forStart (start : Option ForStart) : Acts (ForStart.footprint start) (forStart start) :=
  match start with
  | some (.declaration d) => acts_declarators d.kind d.declarators
  | some (.expression e) => (reads_expression e).acts
  | none => Acts.pure ()

theorem acts_expression? : ∀ e : Option Expr, Acts .empty (expression? e)
  | some e => (reads_expression e).acts
  | none => Acts.pure ()

/-- A name is declared in the innermost scope, and a conflict is reported. -/
theorem acts_declareNew_current (n : String) (symbol : Symbol) {conflict : Symbol → Check Unit}
    (h : ∀ existing, Reads [] (conflict existing)) :
    Acts ⟨[n], [], []⟩ (do
      match ← declareNew (← get).scopes.current n symbol with
      | none => pure ()
      | some existing => conflict existing) := by
  intro s hs
  have hnew := changes_declareNew (s.scopes.single_block n) hs.current_lt symbol
  rw [run_get_bind, run_bind]
  cases (declareNew s.scopes.current n symbol s).1 with
  | none => exact hnew
  | some existing =>
    show s.scopes.Changes _ (conflict existing _).2.scopes
    rw [(h existing).scopes]
    exact hnew

theorem acts_declareParameter (p : Parameter) :
    Acts ⟨[p.name.name], [], []⟩ (declareParameter p) :=
  (reads_resolve? p.declaredType).acts.after fun _ =>
    acts_declareNew_current _ _ fun _ => reads_reportBoth _ _ _

theorem acts_declareParameters (signature : Signature) :
    Acts ⟨signature.parameterNames, [], []⟩ (signature.parameters.forM declareParameter) := by
  unfold Signature.parameterNames
  induction signature.parameters with
  | nil => exact Acts.pure ()
  | cons p ps ih => exact (acts_declareParameter p).bind fun _ => ih

theorem acts_declareFunction (signature : Signature) :
    Acts ⟨[signature.name.name], [], []⟩ (declareFunction signature) := by
  refine acts_declareNew_current _ _ fun existing => ?_
  cases existing <;> exact reads_reportBoth _ _ _

theorem acts_declareFunctions (stmts : List Stmt) :
    Acts ⟨functionNames stmts, [], []⟩ (declareFunctions stmts) := by
  induction stmts with
  | nil => exact Acts.pure ()
  | cons s ss ih =>
    cases s with
    | function signature _ _ _ => exact (acts_declareFunction signature).bind fun _ => ih
    | _ => exact ih

/-! ### Functions and statements -/

theorem acts_functionBody (signature : Signature) (declared : Option Ty) {run : Check Unit}
    (h : Acts f run) : Acts .empty (functionBody signature declared run) := by
  have hbody := (acts_declareParameters signature).bind fun _ => h.inFrame declared
  refine hbody.inFunctionScope.after fun frame => ?_
  cases signature.returnType with
  | some type => exact (reads_report_if (Reads.pure (returnedType frame.returns))).acts
  | none => exact Acts.pure _

theorem acts_addReturn (type : Ty) : Acts .empty (addReturn type) := by
  refine Acts.of_scopes_eq fun s => ?_
  rw [addReturn, run_modify]
  split <;> rfl

/-- The type of the value of a `return` statement. -/
def valueType : Option Expr → Check (Option Ty)
  | some e => infer e
  | none => pure (some Ty.void)

/-- What is left to do for a `return` statement when the type of its value is known. -/
def yieldValue (value : Option Expr) (span : Span) (type : Option Ty) : Check Unit := do
  match (← get).frames with
  | [] => report .strayReturn span
  | frame :: _ =>
    match value, type, frame.declared with
    | some e, some type, some declared =>
      if !type.assignable declared then report (.notAssignable type declared) e.span
    | _, _, _ => pure ()
    addReturn (type.getD Ty.any)

theorem returnValue_eq (value : Option Expr) (span : Span) :
    returnValue value span = valueType value >>= yieldValue value span := by
  cases value <;> rfl

theorem acts_valueType : ∀ value : Option Expr, Acts .empty (valueType value)
  | some e => (reads_infer e).acts
  | none => Acts.pure _

theorem acts_yieldValue (value : Option Expr) (span : Span) (type : Option Ty) :
    Acts .empty (yieldValue value span type) := by
  refine Acts.get_bind fun s => ?_
  split
  · exact (reads_report _ span).acts
  · split
    · split
      · exact (reads_report _ _).acts.after fun _ => acts_addReturn _
      · exact acts_addReturn _
    · exact acts_addReturn _

theorem acts_returnValue (value : Option Expr) (span : Span) :
    Acts .empty (returnValue value span) := by
  rw [returnValue_eq]
  exact (acts_valueType value).after (acts_yieldValue value span)

mutual

/-- **A statement declares what its footprint says,** and nothing else. -/
theorem acts_statement : ∀ s : Stmt, Acts s.footprint (statement s)
  | .variables d _ => acts_declarators d.kind d.declarators
  | .function signature body _ _ =>
    (reads_resolve? signature.returnType).acts.after fun declared =>
      (acts_functionBody signature declared (acts_together body)).before fun _ => Acts.pure ()
  | .block body _ => (acts_together body).inScope
  | .ifThen condition thenBranch _ =>
    (reads_expression condition).acts.after fun _ => acts_statement thenBranch
  | .ifElse condition thenBranch elseBranch _ =>
    (reads_expression condition).acts.after fun _ =>
      (acts_statement thenBranch).bind fun _ => acts_statement elseBranch
  | .whileLoop condition body _ =>
    (reads_expression condition).acts.after fun _ => acts_statement body
  | .forLoop start condition update body _ => by
    refine Acts.inScope ((acts_forStart start).bind fun _ => ?_)
    refine (acts_expression? condition).after fun _ => ?_
    exact (acts_expression? update).after fun _ => acts_statement body
  | .returns value span => acts_returnValue value span
  | .expression e _ => (reads_expression e).acts

theorem acts_together : ∀ body : List Stmt,
    Acts (⟨functionNames body, [], []⟩ ++ (⟨[], [], openFunctions body⟩ ++ Stmt.footprints body))
      (together body (inferFunctions body) (statements body))
  | body => (acts_declareFunctions body).bind fun _ =>
      (acts_inferFunctions body).bind fun _ => acts_statements body

theorem acts_statements : ∀ ss : List Stmt, Acts (Stmt.footprints ss) (statements ss)
  | [] => Acts.pure ()
  | s :: ss => (acts_statement s).bind fun _ => acts_statements ss

/-- The symbol of a function is replaced after its body was tried out. -/
theorem acts_inferFunction : ∀ s : Stmt, Acts ⟨[], [], openFunctions [s]⟩ (inferFunction s)
  | .function signature body bodySpan span => by
    have hbody := (acts_functionBody signature none (acts_together body)).silently
    cases hresult : signature.returnType with
    | some _ =>
      have hopen : openFunctions [.function signature body bodySpan span] = [] := by
        simp [openFunctions, functionNames, Stmt.isOpen, hresult]
      rw [hopen, inferFunction, hresult]
      exact Acts.pure ()
    | none =>
      have hopen : openFunctions [.function signature body bodySpan span]
          = [signature.name.name] := by
        simp [openFunctions, functionNames, Stmt.isOpen, Stmt.functionName?, hresult]
      rw [hopen, inferFunction, hresult]
      refine hbody.after fun result s hs => ?_
      exact .declare (s.scopes.single_replaced _) hs.current_lt (.inl ⟨rfl, by simp⟩)
  | .variables _ _ => Acts.pure ()
  | .block _ _ => Acts.pure ()
  | .ifThen _ _ _ => Acts.pure ()
  | .ifElse _ _ _ _ => Acts.pure ()
  | .whileLoop _ _ _ => Acts.pure ()
  | .forLoop _ _ _ _ _ => Acts.pure ()
  | .returns _ _ => Acts.pure ()
  | .expression _ _ => Acts.pure ()

/-- Only functions that write no return type are replaced. -/
theorem acts_inferFunctions : ∀ ss : List Stmt,
    Acts ⟨[], [], openFunctions ss⟩ (inferFunctions ss)
  | [] => Acts.pure ()
  | s :: ss => by
    rw [show s :: ss = [s] ++ ss from rfl, openFunctions_append]
    exact (acts_inferFunction s).bind fun _ => acts_inferFunctions ss

end

end Check

end ScriptLint
