import ScriptLint.Proofs.Typing.Plans
import ScriptLint.Proofs.Typing.ScopeSearch
/-!
# The scopes in the middle of a check

Every state that a check comes through is sound: the table of scopes is a
forest, and the checker is in one of its scopes, inside of that of its
function. What one act keeps is kept by a whole plan, and whatever is declared
is declared in a scope that is there.

A plan is safe if its states are sound and its acts are grounded. Safe plans
make safe plans. Only where a scope is left it has to be known what the plan
inside did, and that is known of the step that it mirrors: it ends where it
began.

Key definitions: `Check.Act.Grounded`, `Check.Plan.Safe`, `Check.Mirrors`.
Key theorems: `Check.Plan.Safe.of_reaches`, `Check.mirrors_statement`,
`Check.scopes_stay_forest`.
-/

namespace ScriptLint.Check

open Typing

variable {α β : Type}

/-! ### Safe plans -/

/-- What is declared is declared in a scope that is there. -/
def Act.Grounded (t : TableState) : Act α → Prop
  | .add id _ _ => (t.table.scopes id).isSome
  | .replace id _ _ => (t.table.scopes id).isSome
  | _ => True

namespace Plan

/-- The next act of the plan is grounded. -/
def Grounded (t : TableState) : Plan α → Prop
  | .pure _ => True
  | .act a _ => a.Grounded t

/-- All states that the plan comes through are sound, and all its acts are grounded. -/
def Safe : Plan α → TableState → Prop
  | .pure _, t => t.Sound
  | .act a next, t => t.Sound ∧ a.Grounded t ∧ (next (a.run t).1).Safe (a.run t).2

namespace Safe

variable {p q : Plan α} {f : α → Plan β} {t u : TableState}

theorem sound (h : p.Safe t) : t.Sound := by
  cases p with
  | pure a => exact h
  | act a next => exact h.1

theorem grounded (h : p.Safe t) : p.Grounded t := by
  cases p with
  | pure a => trivial
  | act a next => exact h.2.1

/-- **What is left of a safe plan is safe.** -/
theorem of_step (h : p.Safe t) (hstep : Step (p, t) (q, u)) : q.Safe u := by
  cases hstep with
  | act a next t => exact h.2.2

/-- **So is what is left of it after some acts.** -/
theorem of_reaches (h : p.Safe t) (hreaches : Reaches (p, t) (q, u)) : q.Safe u :=
  Reaches.keeps (P := fun c => c.1.Safe c.2) hreaches h fun _ _ hstep hsafe => hsafe.of_step hstep

/-- One safe plan after the other. -/
theorem bind (hp : p.Safe t) (hf : (f (p.run t).1).Safe (p.run t).2) : (p >>= f).Safe t := by
  induction p generalizing t with
  | pure a => exact hf
  | act a next ih => exact ⟨hp.1, hp.2.1, ih _ hp.2.2 hf⟩

end Safe

end Plan

/-! ### Plans that mirror a step -/

/-- From the given state the plan does what the step of the checker with a table does, and it is safe
if the state is sound. -/
structure Mirrors (t : TableState) (p : Plan α) (q : Tabled α) : Prop where
  run : p.run t = q t
  safe : t.Sound → p.Safe t

namespace Mirrors

variable {n : Nat} {t : TableState} {p : Plan α} {q : Tabled α} {r : Check α}

theorem pure (a : α) : Mirrors t (Pure.pure a) (Pure.pure a) :=
  ⟨rfl, id⟩

theorem bind {f : α → Plan β} {g : α → Tabled β} (h : Mirrors t p q)
    (hf : ∀ a, Mirrors (q t).2 (f a) (g a)) : Mirrors t (p >>= f) (q >>= g) where
  run := by
    rw [Plan.run_bind, h.run]
    exact (hf (q t).1).run
  safe ht := by
    have hp := h.safe ht
    have hsound : (q t).2.Sound := by
      have hend := hp.of_reaches (Plan.reaches_run p t)
      rw [h.run] at hend
      exact hend
    refine hp.bind ?_
    rw [h.run]
    exact (hf (q t).1).safe hsound

/-- A single act. -/
theorem lift {a : Act α} (hrun : a.run t = q t) (hgrounded : t.Sound → a.Grounded t)
    (hsound : t.Sound → (q t).2.Sound) : Mirrors t (Plan.lift a) q where
  run := hrun
  safe ht := by
    refine ⟨ht, hgrounded ht, ?_⟩
    rw [hrun]
    exact hsound ht

/-- What leaves the scopes alone. -/
theorem read (p : Check α) : Mirrors t (Plan.lift (.read p)) (Tabled.read p) :=
  lift rfl (fun _ => trivial) fun ht => ht.congr rfl rfl rfl

theorem place_bind {f : Nat × Nat → Plan β} {g : TableState → Tabled β}
    (h : Mirrors t (f (t.current, t.function)) (g t)) :
    Mirrors t (Plan.lift .place >>= f) (get >>= g) :=
  ⟨h.run, fun ht => ⟨ht, trivial, h.safe ht⟩⟩

/-- The scopes in which a checker declares are there. -/
theorem isSome_scopes {id : Nat} (ht : t.Sound) (hid : id = t.current ∨ id = t.function) :
    (t.table.scopes id).isSome := by
  refine (ht.forest.isSome_iff id).mpr ?_
  rcases hid with rfl | rfl
  · exact ht.current_lt
  · exact Nat.lt_of_le_of_lt (ScopeTable.le_of_mem_path ht.function_mem) ht.current_lt

theorem replace {id : Nat} (hid : id = t.current ∨ id = t.function) (name : String)
    (symbol : Symbol) :
    Mirrors t (Plan.lift (.replace id name symbol)) (Tabled.declare id name symbol) :=
  lift rfl (fun ht => isSome_scopes ht hid) fun ht =>
    (Keeps.declare (n := 0) hid name symbol).sound ht

theorem add {id : Nat} (hid : id = t.current ∨ id = t.function) (name : String)
    (symbol : Symbol) :
    Mirrors t (Plan.lift (.add id name symbol)) (Tabled.declareNew id name symbol) :=
  lift rfl (fun ht => isSome_scopes ht hid) fun ht =>
    (Follows.declareNew (n := 0) hid rfl name symbol).keeps.sound ht

theorem forM {f : α → Plan Unit} {g : α → Tabled Unit} (h : ∀ a t, Mirrors t (f a) (g a))
    (l : List α) : ∀ t, Mirrors t (l.forM f) (l.forM g) := by
  induction l with
  | nil => exact fun t => pure ()
  | cons a l ih => exact fun t => (h a t).bind fun _ => ih _

/-- A new scope is first created, and then entered. -/
theorem safe_enter (ht : t.Sound) : Plan.enter.Safe t := by
  have hlt : t.current < t.table.next + 1 := Nat.lt_succ_of_lt ht.current_lt
  have hpath : (t.table.create (some t.current)).path t.current = t.table.path t.current :=
    ScopeTable.path_congr fun j hj =>
      ScopeTable.parent?_create_of_ne (Nat.ne_of_lt (Nat.lt_of_le_of_lt hj ht.current_lt)) _
  refine ⟨ht, trivial, ⟨ht.forest.create ht.current_lt, hlt, ?_⟩, trivial, ht.enter⟩
  show t.function ∈ (t.table.create (some t.current)).path t.current
  rw [hpath]
  exact ht.function_mem

/-- In a scope of its own. -/
theorem inScope (h : Mirrors t.enter p q) (hfollows : Follows n t.enter q r) :
    Mirrors t (Plan.inScope p) (Tabled.inScope q) where
  run := by
    show (Plan.enter >>= fun _ => p >>= fun a => Plan.lift .moveOut >>= fun _ => Pure.pure a).run t
      = _
    rw [Plan.run_bind, Plan.run_bind]
    show (fun x : α × TableState => (x.1, x.2.exit)) (p.run t.enter) = _
    rw [h.run]
    rfl
  safe ht := by
    refine (safe_enter ht).bind ((h.safe ht.enter).bind ?_)
    show (Plan.lift .moveOut >>= fun _ => Pure.pure (p.run t.enter).1).Safe (p.run t.enter).2
    rw [h.run]
    exact ⟨hfollows.keeps.sound ht.enter, trivial, hfollows.inScope.keeps.sound ht⟩

/-- In the scope of a new function. The scope of the function around is taken up again while the
checker is still inside. -/
theorem inFunctionScope (h : Mirrors { t.enter with function := t.table.next } p q)
    (hfollows : Follows n { t.enter with function := t.table.next } q r) :
    Mirrors t (Plan.inFunctionScope p) (Tabled.inFunctionScope q) where
  run := by
    show (Plan.enter >>= fun _ => Plan.lift .place >>= fun x => Plan.lift (.setFunction x.1) >>=
      fun _ => p >>= fun a => Plan.lift (.setFunction x.2) >>= fun _ => Plan.lift .moveOut >>=
      fun _ => Pure.pure a).run t = _
    rw [Plan.run_bind, Plan.run_bind, Plan.run_bind, Plan.run_bind]
    show (fun x : α × TableState => (x.1, { x.2 with function := t.function }.exit))
      (p.run { t.enter with function := t.table.next }) = _
    rw [h.run]
    rfl
  safe ht := by
    have hinside := hfollows.keeps.sound ht.enterFunction
    have hback : { (q { t.enter with function := t.table.next }).2 with
        function := t.function }.Sound := by
      refine ⟨hinside.forest, hinside.current_lt, ?_⟩
      -- the way to the new scope goes on from the one to the scope around
      have hcurrent : (q { t.enter with function := t.table.next }).2.current = t.table.next :=
        hfollows.keeps.current
      show t.function ∈ (q _).2.table.path (q _).2.current
      rw [hcurrent, hfollows.keeps.path (Nat.lt_succ_self _)]
      exact ht.enter.function_mem
    refine (safe_enter ht).bind ⟨ht.enter, trivial, ht.enter, trivial, ?_⟩
    refine (h.safe ht.enterFunction).bind ?_
    show (Plan.lift (.setFunction t.function) >>= fun _ => Plan.lift .moveOut >>= fun _ =>
      Pure.pure (p.run _).1).Safe (p.run { t.enter with function := t.table.next }).2
    rw [h.run]
    exact ⟨hinside, trivial, hback, trivial, hfollows.inFunctionScope.keeps.sound ht⟩

/-- Inside a function. -/
theorem inFrame {p : Plan Unit} {q : Tabled Unit} (declared : Option Ty)
    (h : Mirrors { t with frames := ⟨declared, []⟩ :: t.frames } p q) :
    Mirrors t (Plan.inFrame declared p) (Tabled.inFrame declared q) := by
  have hpush : Mirrors t (Plan.lift (.push declared))
      (modify fun t => { t with frames := ⟨declared, []⟩ :: t.frames }) :=
    lift rfl (fun _ => trivial) fun ht => ht.congr rfl rfl rfl
  exact hpush.bind fun _ => h.bind fun _ =>
    lift rfl (fun _ => trivial) fun ht => ht.congr rfl rfl rfl

/-- In a trial. -/
theorem trial (h : Mirrors { t with trials := t.trials + 1 } p q) :
    Mirrors t (Plan.trial p) (Tabled.trial q) := by
  have hbegin : Mirrors t (Plan.lift .beginTrial)
      (modify fun t => { t with trials := t.trials + 1 }) :=
    lift rfl (fun _ => trivial) fun ht => ht.congr rfl rfl rfl
  have hend : ∀ u, Mirrors u (Plan.lift .endTrial)
      (modify fun t => { t with trials := t.trials - 1 }) :=
    fun u => lift rfl (fun _ => trivial) fun ht => ht.congr rfl rfl rfl
  exact hbegin.bind fun _ => h.bind fun a => (hend _).bind fun _ => pure a

end Mirrors

/-! ### Declarations -/

section

variable (t : TableState)

theorem mirrors_declareVariable (kind : DeclKind) (name : Ident) (type : Ty) :
    Mirrors t (Plan.declareVariable kind name type) (Tabled.declareVariable kind name type) := by
  refine .place_bind ?_
  have hid : (if kind = .varKind then t.function else t.current) = t.current ∨
      (if kind = .varKind then t.function else t.current) = t.function := by
    split
    · exact .inr rfl
    · exact .inl rfl
  dsimp only
  generalize (if kind = .varKind then t.function else t.current) = id at hid ⊢
  have hkeeps := (Follows.declareNew (n := 0) hid rfl name.name
    (.value type (some kind) name.span)).keeps
  refine (Mirrors.add hid name.name _).bind fun found => ?_
  rcases found with _ | ⟨existingType, existingKind, span⟩ | ⟨result, arity, span⟩
  · exact .pure ()
  · dsimp only
    split
    · refine .replace ?_ _ _
      rwa [hkeeps.current, hkeeps.function]
    · split
      · exact .read _
      · exact .read _
  · exact .read _

theorem mirrors_declarator (kind : DeclKind) (d : Declarator) :
    Mirrors t (Plan.declarator kind d) (Tabled.declarator kind d) := by
  refine (Mirrors.read _).bind fun declared => (Mirrors.read _).bind fun initial => ?_
  refine (Mirrors.read _).bind fun type => ?_
  cases type with
  | some type => exact (Mirrors.read _).bind fun _ => mirrors_declareVariable _ kind d.name type
  | none => exact mirrors_declareVariable _ kind d.name Ty.any

theorem mirrors_declaration (d : Declaration) :
    Mirrors t (Plan.declaration d) (Tabled.declaration d) :=
  .forM (fun d' t => mirrors_declarator t d.kind d') d.declarators t

theorem mirrors_declareHere (name : String) (symbol : Symbol) (conflict : Symbol → Check Unit) :
    Mirrors t (Plan.declareHere name symbol conflict) (Tabled.declareHere name symbol conflict) := by
  refine .place_bind ((Mirrors.add (.inl rfl) name symbol).bind fun found => ?_)
  cases found with
  | none => exact .pure ()
  | some existing => exact .read _

theorem mirrors_declareParameter (p : Parameter) :
    Mirrors t (Plan.declareParameter p) (Tabled.declareParameter p) :=
  (Mirrors.read _).bind fun _ => mirrors_declareHere _ _ _ _

theorem mirrors_declareFunctions (stmts : List Stmt) :
    Mirrors t (Plan.declareFunctions stmts) (Tabled.declareFunctions stmts) := by
  induction stmts generalizing t with
  | nil => exact .pure ()
  | cons s ss ih =>
    cases s with
    | function signature _ _ _ => exact (mirrors_declareHere t _ _ _).bind fun _ => ih _
    | _ => exact ih t

theorem mirrors_forStart : ∀ start : Option ForStart,
    Mirrors t (Plan.forStart start) (Tabled.forStart start)
  | some (.declaration d) => mirrors_declaration t d
  | some (.expression _) => .read _
  | none => .pure ()

/-- A function whose body is mirrored. -/
theorem mirrors_functionBody {p : Plan Unit} {q : Tabled Unit} {r : Check Unit}
    (h : ∀ t, Mirrors t p q) (hfollows : ∀ t, Follows 1 t q r) (signature : Signature)
    (declared : Option Ty) :
    Mirrors t (Plan.functionBody signature declared p)
      (Tabled.functionBody signature declared q) := by
  have hinside : Mirrors { t.enter with function := t.table.next } _ _ :=
    (Mirrors.forM (fun p t => mirrors_declareParameter t p) signature.parameters _).bind
      fun _ => .inFrame declared (h _)
  exact (Mirrors.inFunctionScope hinside
    (follows_parameters (n := 0) _ hfollows signature declared)).bind fun _ => .read _

theorem mirrors_together (stmts : List Stmt) {tryOut run : Plan Unit} {tryOut' run' : Tabled Unit}
    (htryOut : ∀ t, Mirrors t tryOut tryOut') (hrun : ∀ t, Mirrors t run run') :
    Mirrors t (Plan.together stmts tryOut run) (Tabled.together stmts tryOut' run') :=
  (mirrors_declareFunctions t stmts).bind fun _ => (htryOut _).bind fun _ => hrun _

end

/-! ### Statements -/

mutual

/-- **Every statement is checked safely,** act by act. -/
theorem mirrors_statement : ∀ (stmt : Stmt) (t : TableState),
    Mirrors t (Plan.statement stmt) (Tabled.statement stmt)
  | .variables d _, t => mirrors_declaration t d
  | .function signature body _ _, _ =>
    (Mirrors.read _).bind fun declared =>
      (mirrors_functionBody _ (fun t => mirrors_together t body (mirrors_inferFunctions body)
        (mirrors_statements body)) (follows_body body) signature declared).bind fun _ => .pure ()
  | .block body _, t =>
    .inScope (mirrors_together _ body (mirrors_inferFunctions body) (mirrors_statements body))
      (follows_body body t.enter)
  | .ifThen _ thenBranch _, _ => (Mirrors.read _).bind fun _ => mirrors_statement thenBranch _
  | .ifElse _ thenBranch elseBranch _, _ =>
    (Mirrors.read _).bind fun _ => (mirrors_statement thenBranch _).bind fun _ =>
      mirrors_statement elseBranch _
  | .whileLoop _ body _, _ => (Mirrors.read _).bind fun _ => mirrors_statement body _
  | .forLoop start condition update body _, t =>
    .inScope ((mirrors_forStart _ start).bind fun _ => (Mirrors.read _).bind fun _ =>
        (Mirrors.read _).bind fun _ => mirrors_statement body _)
      ((follows_forStart t.enter start).bind fun _ =>
        (Follows.read (light_expression? condition) _).bind fun _ =>
          (Follows.read (light_expression? update) _).bind fun _ => follows_statement body _)
  | .returns _ _, _ => .read _
  | .expression _ _, _ => .read _

theorem mirrors_statements : ∀ (stmts : List Stmt) (t : TableState),
    Mirrors t (Plan.statements stmts) (Tabled.statements stmts)
  | [], _ => .pure ()
  | stmt :: stmts, t => (mirrors_statement stmt t).bind fun _ => mirrors_statements stmts _

theorem mirrors_inferFunction : ∀ (stmt : Stmt) (t : TableState),
    Mirrors t (Plan.inferFunction stmt) (Tabled.inferFunction stmt)
  | .function signature body _ _, t => by
    rw [Plan.inferFunction, Tabled.inferFunction]
    cases signature.returnType with
    | some _ => exact .pure ()
    | none =>
      refine Mirrors.bind (.trial (mirrors_functionBody _ (fun t => mirrors_together t body
        (mirrors_inferFunctions body) (mirrors_statements body)) (follows_body body) signature none))
        fun result => ?_
      exact .place_bind (.replace (.inl rfl) _ _)
  | .variables _ _, _ => .pure ()
  | .block _ _, _ => .pure ()
  | .ifThen _ _ _, _ => .pure ()
  | .ifElse _ _ _ _, _ => .pure ()
  | .whileLoop _ _ _, _ => .pure ()
  | .forLoop _ _ _ _ _, _ => .pure ()
  | .returns _ _, _ => .pure ()
  | .expression _ _, _ => .pure ()

theorem mirrors_inferFunctions : ∀ (stmts : List Stmt) (t : TableState),
    Mirrors t (Plan.inferFunctions stmts) (Tabled.inferFunctions stmts)
  | [], _ => .pure ()
  | stmt :: stmts, t => (mirrors_inferFunction stmt t).bind fun _ => mirrors_inferFunctions stmts _

end

theorem mirrors_body (stmts : List Stmt) (t : TableState) :
    Mirrors t (Plan.body stmts) (Tabled.body stmts) :=
  mirrors_together t stmts (mirrors_inferFunctions stmts) (mirrors_statements stmts)

/-! ### Every state of a check -/

/-- What is left of a plan ends where the plan ends. -/
theorem Plan.run_of_reaches {p q : Plan α} {t u : TableState} (h : Plan.Reaches (p, t) (q, u)) :
    q.run u = p.run t := by
  refine Reaches.keeps (P := fun c => c.1.run c.2 = p.run t) h rfl fun c d hstep hc => ?_
  rw [← hc]
  cases hstep
  rfl

/-- In a sound state a search from the scope at hand ends with what the checker takes the name to
mean. -/
theorem searches_current {t : TableState} (ht : t.Sound) (name : String) (r : ScopeTable.Search) :
    t.table.Searches name t.current r ↔
      r = (t.view.scopes.lookup? name).elim .exhausted .found := by
  have hview : t.view.scopes = t.table.stack t.current t.function := rfl
  rcases ht.forest.search_cases ht.current_lt t.function name with
    ⟨j, symbol, hfound, -, -, hlookup⟩ | ⟨hexhausted, -, hlookup⟩
  · rw [hfound, hview, hlookup]
    rfl
  · rw [hexhausted, hview, hlookup]
    rfl

/-- **The scopes stay a forest.** In every state that the check of a tree comes through the scopes of
the table are those below the next number, each but the file lies in an older one, and the file in
none. The scope at hand and the scope of the function at hand are there, and the one is the other or
lies in it. So a search for a name ends wherever it begins, with the symbol of the nearest scope around
that declares the name, and from the scope at hand that is what the checker takes it to mean. What is
done next declares in no scope that is missing. What is left to do ends where the checker ends. -/
theorem scopes_stay_forest (stmts : List Stmt) {rest : Plan Unit} {t : TableState}
    (h : Plan.Reaches (Plan.body stmts, TableState.initial) (rest, t)) :
    (∀ id, (t.table.scopes id).isSome ↔ id < t.table.next) ∧
    (∀ id < t.table.next, id ≠ 0 → ∃ p < id, t.table.parent? id = some p) ∧
    ((t.table.scopes 0).isSome ∧ t.table.parent? 0 = none) ∧
    ((t.table.scopes t.current).isSome ∧ (t.table.scopes t.function).isSome ∧
      t.table.Encloses t.function t.current) ∧
    (∀ id < t.table.next, ∀ name,
      (∃ j symbol, (∀ r, t.table.Searches name id r ↔ r = .found symbol) ∧
        t.table.Nearest id name j ∧ t.table.find? j name = some symbol) ∨
      ((∀ r, t.table.Searches name id r ↔ r = .exhausted) ∧
        ∀ j, t.table.Encloses j id → t.table.find? j name = none)) ∧
    (∀ name r, t.table.Searches name t.current r ↔
      r = (t.view.scopes.lookup? name).elim .exhausted .found) ∧
    rest.Grounded t ∧
    (body stmts State.initial).2 = (rest.run t).2.view := by
  have hmirrors := mirrors_body stmts TableState.initial
  have hsafe := (hmirrors.safe TableState.sound_initial).of_reaches h
  have ht : t.Sound := hsafe.sound
  have hfile : 0 < t.table.next := Nat.lt_of_le_of_lt (Nat.zero_le _) ht.current_lt
  refine ⟨ht.forest.isSome_iff, fun id hid hne => ?_, ⟨?_, ?_⟩, ⟨?_, ?_, ?_⟩, fun id hid name => ?_,
    searches_current ht, hsafe.grounded, ?_⟩
  · obtain ⟨p, hp⟩ := Option.ne_none_iff_exists'.mp (mt (ht.forest.parent?_eq_none id hid).mp hne)
    exact ⟨p, ht.forest.parent_lt id p hp, hp⟩
  · exact (ht.forest.isSome_iff 0).mpr hfile
  · exact (ht.forest.parent?_eq_none 0 hfile).mpr rfl
  · exact Mirrors.isSome_scopes ht (.inl rfl)
  · exact Mirrors.isSome_scopes ht (.inr rfl)
  · exact ht.forest.encloses_iff_mem_path.mpr ht.function_mem
  · rcases ht.forest.search_cases hid t.function name with
      ⟨j, symbol, hfound, hnearest, hj, -⟩ | ⟨hexhausted, hnone, -⟩
    · exact .inl ⟨j, symbol, hfound, hnearest, hj⟩
    · exact .inr ⟨hexhausted, hnone⟩
  · have hagrees := (follows_body stmts TableState.initial).agrees TableState.sound_initial
    rw [Plan.run_of_reaches h, hmirrors.run, ← TableState.view_initial, hagrees]

/-- The theorem in the middle of `function f(p) { { var y } }`, in the block, when `y` has just been
declared. The scopes 1 and 2 were left by the trial of the body, 3 is that of the function and 4 that
of the block. From there `p` is found. -/
theorem scopes_stay_forest_in_block :
    let place (start : Nat) : Span := ⟨start, start + 1⟩
    let declaresY : Stmt :=
      .variables ⟨.varKind, [⟨⟨"y", place 24⟩, none, none, place 24⟩], ⟨20, 25⟩⟩ ⟨20, 25⟩
    let f : Signature := ⟨⟨"f", place 9⟩, [⟨⟨"p", place 11⟩, none, place 11⟩], none⟩
    let stmts : List Stmt := [.function f [.block [declaresY] ⟨16, 27⟩] ⟨14, 29⟩ ⟨0, 29⟩]
    let c := Plan.step^[44] (Plan.body stmts, TableState.initial)
    Plan.Reaches (Plan.body stmts, TableState.initial) c ∧
      c.2.current = 4 ∧ c.2.function = 3 ∧ c.2.table.next = 5 ∧ c.2.table.Encloses 3 4 ∧
      ∃ symbol, c.2.table.Searches "p" 4 (.found symbol) := by
  intro place declaresY f stmts c
  have hreaches : Plan.Reaches (Plan.body stmts, TableState.initial) c :=
    Plan.reaches_iterate _ 44
  have hcurrent : c.2.current = 4 := by decide +kernel
  have hfunction : c.2.function = 3 := by decide +kernel
  have hnext : c.2.table.next = 5 := by decide +kernel
  have hdeclared : (c.2.table.find? 3 "p").isSome := by decide +kernel
  clear_value c
  obtain ⟨-, -, -, ⟨-, -, hencloses⟩, hsearch, -⟩ := scopes_stay_forest stmts hreaches
  rw [hcurrent, hfunction] at hencloses
  refine ⟨hreaches, hcurrent, hfunction, hnext, hencloses, ?_⟩
  rcases hsearch 4 (hnext ▸ by decide) "p" with ⟨j, symbol, hfound, -, -⟩ | ⟨-, hnone⟩
  · exact ⟨symbol, (hfound _).mpr rfl⟩
  · rw [hnone 3 hencloses] at hdeclared
    cases hdeclared

end ScriptLint.Check
