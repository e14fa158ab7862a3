import ScriptLint.Proofs.Typing.Footprints
/-!
# What a function returns depends on the names it reads

The checker finds out what a function returns by walking its body in scopes
of its own. What is around the function matters only where the body reads a
name that it has not declared itself. So in two surroundings in which those
names stand for the same, the body goes the same way and yields the same
type, whatever else is declared around it, which errors were reported, and
whether errors are reported at all.

Key definitions: `Surroundings`, `Typing.State.Twin`, `Check.Local`.
Key theorems: `Check.local_statement`, `Check.functionBody_eq`.
-/

namespace ScriptLint

/-- Two surroundings of a function: the scopes around it, equally many, and the functions around
it. -/
structure Surroundings where
  left : ScopeStack
  right : ScopeStack
  leftFrames : List Typing.Frame
  rightFrames : List Typing.Frame
  length : left.scopes.length = right.scopes.length
  pos : 0 < left.scopes.length

/-- The names stand for the same in both surroundings. -/
def Surroundings.Same (A : Surroundings) (names : List String) : Prop :=
  ∀ n ∈ names, A.left.lookup? n = A.right.lookup? n

theorem Surroundings.same_append {A : Surroundings} {M N : List String} :
    A.Same (M ++ N) ↔ A.Same M ∧ A.Same N :=
  List.forall_mem_append

variable {A : Surroundings}

namespace ScopeStack

variable {d : Nat} {x y : ScopeStack} {bound : List String}

/-! ### Scopes inside two surroundings -/

/-- Inside the two surroundings there are the same `d` scopes. -/
structure Twin (A : Surroundings) (d : Nat) (x y : ScopeStack) : Prop where
  scopes : ∃ inner : List Scope, inner.length = d ∧ x.scopes = A.left.scopes ++ inner ∧
    y.scopes = A.right.scopes ++ inner
  function : x.function = y.function

/-- A scope inside the surroundings has the name. -/
def Inside (A : Surroundings) (x : ScopeStack) (n : String) : Prop :=
  ∃ i, A.left.scopes.length ≤ i ∧ (x.find? i n).isSome

namespace Twin

theorem length (h : Twin A d x y) : x.scopes.length = A.left.scopes.length + d := by
  obtain ⟨inner, hd, hx, _⟩ := h.scopes
  rw [hx, List.length_append, hd]

theorem length_eq (h : Twin A d x y) : x.scopes.length = y.scopes.length := by
  obtain ⟨inner, _, hx, hy⟩ := h.scopes
  rw [hx, hy, List.length_append, List.length_append, A.length]

theorem current (h : Twin A d x y) : x.current = y.current := by
  rw [ScopeStack.current, ScopeStack.current, h.length_eq]

theorem find? (h : Twin A d x y) {i : Nat} (hi : A.left.scopes.length ≤ i) (n : String) :
    x.find? i n = y.find? i n := by
  obtain ⟨inner, _, hx, hy⟩ := h.scopes
  rw [ScopeStack.find?, ScopeStack.find?, hx, hy, List.getElem?_append_right hi,
    List.getElem?_append_right (A.length ▸ hi), A.length]

theorem declare (h : Twin A d x y) {i : Nat} (hi : A.left.scopes.length ≤ i) (n : String)
    (symbol : Symbol) : Twin A d (x.declare i n symbol) (y.declare i n symbol) := by
  obtain ⟨inner, hd, hx, hy⟩ := h.scopes
  obtain ⟨j, rfl⟩ := Nat.exists_eq_add_of_le hi
  have hmodify : ∀ outer : List Scope, (outer ++ inner).modify (outer.length + j) ((n, symbol) :: ·)
      = outer ++ inner.modify j ((n, symbol) :: ·) := by
    intro outer
    rw [List.modify_eq_take_drop, List.take_length_add_append, List.drop_length_add_append,
      List.append_assoc, ← List.modify_eq_take_drop]
  refine ⟨⟨inner.modify j ((n, symbol) :: ·), ?_, ?_, ?_⟩, h.function⟩
  · rw [List.length_modify, hd]
  · rw [ScopeStack.declare, hx, hmodify]
  · rw [ScopeStack.declare, hy, A.length, hmodify]

theorem enter (h : Twin A d x y) : Twin A (d + 1) x.enter y.enter := by
  obtain ⟨inner, hd, hx, hy⟩ := h.scopes
  refine ⟨⟨inner ++ [[]], ?_, ?_, ?_⟩, h.function⟩
  · rw [List.length_append, hd]
    rfl
  · rw [ScopeStack.enter, hx, List.append_assoc]
  · rw [ScopeStack.enter, hy, List.append_assoc]

theorem enterFunction (h : Twin A d x y) : Twin A (d + 1) x.enterFunction y.enterFunction :=
  ⟨h.enter.scopes, h.enter.current⟩

theorem exit (h : Twin A (d + 1) x y) : Twin A d x.exit y.exit := by
  have hpos := A.pos
  have hx' := h.length
  have hy' := h.length_eq
  obtain ⟨inner, hd, hx, hy⟩ := h.scopes
  have hne : inner ≠ [] := List.ne_nil_of_length_eq_add_one hd
  refine ⟨⟨inner.dropLast, ?_, ?_, ?_⟩, h.function⟩
  · rw [List.length_dropLast, hd, Nat.add_sub_cancel]
  · rw [ScopeStack.exit, if_neg (by omega), hx, List.dropLast_append_of_ne_nil hne]
  · rw [ScopeStack.exit, if_neg (by omega), hy, List.dropLast_append_of_ne_nil hne]

/-- A name stands for the same if it is declared inside, or stands for the same outside. -/
theorem lookup? (h : Twin A d x y) {n : String}
    (hn : x.Inside A n ∨ A.left.lookup? n = A.right.lookup? n) : x.lookup? n = y.lookup? n := by
  obtain ⟨inner, _, hx, hy⟩ := h.scopes
  rw [ScopeStack.lookup?, ScopeStack.lookup?, hx, hy, List.reverse_append, List.reverse_append,
    List.findSome?_append, List.findSome?_append]
  rcases hn with ⟨i, hi, hfound⟩ | hsame
  · rw [ScopeStack.find?, hx, List.getElem?_append_right hi] at hfound
    obtain ⟨symbol, hsymbol⟩ := Option.isSome_iff_exists.mp hfound
    obtain ⟨scope, hscope, hlookup⟩ := Option.bind_eq_some_iff.mp hsymbol
    have hinner : (inner.reverse.findSome? (·.lookup n)).isSome := by
      rw [List.findSome?_isSome_iff]
      exact ⟨scope, List.mem_reverse.mpr (List.mem_of_getElem? hscope), by rw [hlookup]; rfl⟩
    rw [Option.or_of_isSome hinner, Option.or_of_isSome hinner]
  · exact congrArg _ hsame

end Twin

/-- The function at hand is inside the surroundings, and so are the bound names. -/
structure Scoped (A : Surroundings) (bound : List String) (x : ScopeStack) : Prop where
  inside : A.left.scopes.length ≤ x.function
  valid : x.Valid
  names : ∀ n ∈ bound, x.Inside A n

namespace Scoped

theorem current (h : Scoped A bound x) : A.left.scopes.length ≤ x.current :=
  Nat.le_trans h.inside h.valid.function_le

/-- What a step declares is inside when the step is done. -/
theorem changes (h : Scoped A bound x) {f : Footprint} (hxy : Changes f x y) :
    Scoped A (f.names ++ bound) y := by
  refine ⟨?_, hxy.valid h.valid, fun n hn => ?_⟩
  · rw [hxy.function]
    exact h.inside
  · rcases List.mem_append.mp hn with hn | hn
    · rcases List.mem_append.mp hn with hn | hn
      · exact ⟨x.current, h.current, hxy.block n hn⟩
      · exact ⟨x.function, h.inside, hxy.hoisted n hn⟩
    · obtain ⟨i, hi, hfound⟩ := h.names n hn
      exact ⟨i, hi, hxy.grown i n hfound⟩

theorem enter (h : Scoped A bound x) : Scoped A bound x.enter := by
  refine ⟨h.inside, ?_, fun n hn => ?_⟩
  · rw [Valid, length_enter]
    exact Nat.lt_succ_of_lt h.valid
  · obtain ⟨i, hi, hfound⟩ := h.names n hn
    exact ⟨i, hi, by rwa [find?_enter]⟩

end Scoped

/-- A new function is inside the surroundings, wherever the checker is. -/
theorem Twin.scoped_enterFunction (h : Twin A d x y) (hbound : ∀ n ∈ bound, x.Inside A n) :
    Scoped A bound x.enterFunction := by
  have hcurrent : x.enterFunction.function = x.scopes.length := by
    show x.enter.current = _
    rw [ScopeStack.current, length_enter, Nat.add_sub_cancel]
  refine ⟨?_, ?_, fun n hn => ?_⟩
  · rw [hcurrent, h.length]
    exact Nat.le_add_right _ d
  · rw [Valid, hcurrent]
    show _ < x.enter.scopes.length
    rw [length_enter]
    exact Nat.lt_succ_self _
  · obtain ⟨i, hi, hfound⟩ := hbound n hn
    refine ⟨i, hi, ?_⟩
    show (x.enter.find? i n).isSome
    rwa [find?_enter]

end ScopeStack

/-! ### Steps inside two surroundings -/

/-- The checker in two surroundings: inside them there are the same `d` scopes, and the same `k`
functions are being checked. Types and errors do not matter. -/
structure Typing.State.Twin (A : Surroundings) (d k : Nat) (s t : Typing.State) : Prop where
  scopes : s.scopes.Twin A d t.scopes
  frames : ∃ inner : List Typing.Frame, inner.length = k ∧ s.frames = inner ++ A.leftFrames ∧
    t.frames = inner ++ A.rightFrames

namespace Check

open Typing

variable {α β : Type} {d k : Nat} {s t : State} {bound : List String} {f : Footprint}

/-- From these states the step goes the same way in both surroundings. -/
def Twins (A : Surroundings) (d k : Nat) (p : Check α) (s t : State) : Prop :=
  (p s).1 = (p t).1 ∧ State.Twin A d k (p s).2 (p t).2

/-- The step goes the same way in both surroundings, if the bound names are declared inside. -/
def Local (A : Surroundings) (k : Nat) (bound : List String) (p : Check α) : Prop :=
  ∀ d s t, State.Twin A d k s t → s.scopes.Scoped A bound → Twins A d k p s t

theorem Twins.bind {p : Check α} {q : α → Check β} (hp : Twins A d k p s t)
    (hq : ∀ a s' t', State.Twin A d k s' t' → Twins A d k (q a) s' t') :
    Twins A d k (p >>= q) s t := by
  rw [Twins, run_bind, run_bind, ← hp.1]
  exact hq _ _ _ hp.2

/-- A step that reads no names goes the same way. -/
theorem Reads.twins {p : Check α} (hp : Reads [] p) (h : State.Twin A d k s t) :
    Twins A d k p s t := by
  refine ⟨hp.value s t (fun _ hn => nomatch hn), ?_, ?_⟩
  · rw [hp.scopes, hp.scopes]
    exact h.scopes
  · rw [hp.frames, hp.frames]
    exact h.frames

namespace Local

theorem pure (a : α) : Local A k bound (Pure.pure a : Check α) :=
  fun _ _ _ h _ => ⟨rfl, h⟩

/-- One step after the other: what the first declares is bound for the second. -/
theorem bind {p : Check α} {q : α → Check β} (hp : Local A k bound p) (hacts : Acts f p)
    (hq : ∀ a, Local A k (f.names ++ bound) (q a)) : Local A k bound (p >>= q) := by
  intro d s t h hs
  obtain ⟨hvalue, htwin⟩ := hp d s t h hs
  have hscoped := hs.changes (hacts s hs.valid)
  rw [Twins, run_bind, run_bind, ← hvalue]
  exact hq _ d _ _ htwin hscoped

/-- After a step that declares nothing. -/
theorem after {p : Check α} {q : α → Check β} (hp : Local A k bound p) (hacts : Acts .empty p)
    (hq : ∀ a, Local A k bound (q a)) : Local A k bound (p >>= q) :=
  hp.bind hacts hq

/-- A step that reads names which are bound or stand for the same outside. -/
theorem of_reads {N : List String} {p : Check α} (hp : Reads N p)
    (hN : ∀ n ∈ N, n ∈ bound ∨ A.left.lookup? n = A.right.lookup? n) : Local A k bound p := by
  intro d s t h hs
  constructor
  · refine hp.value s t fun n hn => h.scopes.lookup? ?_
    exact (hN n hn).imp_left (hs.names n)
  · refine ⟨?_, ?_⟩
    · rw [hp.scopes, hp.scopes]
      exact h.scopes
    · rw [hp.frames, hp.frames]
      exact h.frames

theorem of_reads_nil {p : Check α} (hp : Reads [] p) : Local A k bound p :=
  fun _ _ _ h _ => hp.twins h

theorem inScope {p : Check α} (hp : Local A k bound p) : Local A k bound (inScope p) := by
  intro d s t h hs
  obtain ⟨hvalue, htwin⟩ := hp (d + 1) { s with scopes := s.scopes.enter }
    { t with scopes := t.scopes.enter } ⟨h.scopes.enter, h.frames⟩ hs.enter
  exact ⟨hvalue, htwin.scopes.exit, htwin.frames⟩

theorem silently {p : Check α} (hp : Local A k bound p) : Local A k bound (silently p) := by
  intro d s t h hs
  obtain ⟨hvalue, htwin⟩ := hp d { s with silent := true } { t with silent := true }
    ⟨h.scopes, h.frames⟩ hs
  exact ⟨hvalue, htwin.scopes, htwin.frames⟩

/-- A step inside a new function of the surroundings. -/
theorem inFrame {p : Check Unit} (hp : Local A (k + 1) bound p) (declared : Option Ty) :
    Local A k bound (inFrame declared p) := by
  intro d s t h hs
  obtain ⟨inner, hk, hf, hg⟩ := h.frames
  obtain ⟨_, htwin⟩ := hp d { s with frames := ⟨declared, []⟩ :: s.frames }
    { t with frames := ⟨declared, []⟩ :: t.frames }
    ⟨h.scopes, ⟨declared, []⟩ :: inner, by rw [List.length_cons, hk], by rw [hf]; rfl,
      by rw [hg]; rfl⟩ hs
  obtain ⟨frames, hk', hf', hg'⟩ := htwin.frames
  obtain ⟨frame, frames, rfl⟩ := List.exists_cons_of_length_eq_add_one hk'
  refine ⟨?_, htwin.scopes, frames, Nat.succ.inj hk', ?_, ?_⟩
  · show (p _).2.frames.headD ⟨none, []⟩ = (p _).2.frames.headD ⟨none, []⟩
    rw [hf', hg']
    rfl
  · show (p _).2.frames.tail = _
    rw [hf']
    rfl
  · show (p _).2.frames.tail = _
    rw [hg']
    rfl

end Local

/-- A step in the scope of a new function. It does not matter which function was at hand. -/
theorem twins_inFunctionScope {p : Check α} (hp : Local A k bound p) (h : State.Twin A d k s t)
    (hbound : ∀ n ∈ bound, s.scopes.Inside A n) : Twins A d k (inFunctionScope p) s t := by
  obtain ⟨hvalue, htwin⟩ := hp (d + 1) { s with scopes := s.scopes.enterFunction }
    { t with scopes := t.scopes.enterFunction } ⟨h.scopes.enterFunction, h.frames⟩
    (h.scopes.scoped_enterFunction hbound)
  exact ⟨hvalue, ⟨htwin.scopes.exit.scopes, h.scopes.function⟩, htwin.frames⟩

/-! ### Declarations -/

theorem twins_declare {i : Nat} (h : State.Twin A d k s t) (hi : A.left.scopes.length ≤ i)
    (n : String) (symbol : Symbol) : Twins A d k (modifyScopes (·.declare i n symbol)) s t :=
  ⟨rfl, h.scopes.declare hi n symbol, h.frames⟩

theorem twins_declareNew {i : Nat} (h : State.Twin A d k s t) (hi : A.left.scopes.length ≤ i)
    (n : String) (symbol : Symbol) : Twins A d k (declareNew i n symbol) s t := by
  have hfind := h.scopes.find? hi n
  cases hs : s.scopes.find? i n with
  | some existing =>
    rw [Twins, declareNew_of_some hs, declareNew_of_some (hfind.symm.trans hs)]
    exact ⟨rfl, h⟩
  | none =>
    rw [Twins, declareNew_of_none hs, declareNew_of_none (hfind.symm.trans hs)]
    exact ⟨rfl, h.scopes.declare hi n symbol, h.frames⟩

theorem local_declareVariable (kind : DeclKind) (name : Ident) (type : Ty) :
    Local A k bound (declareVariable kind name type) := by
  intro d s t h hs
  have hi : A.left.scopes.length
      ≤ if kind = .varKind then s.scopes.function else s.scopes.current := by
    split
    · exact hs.inside
    · exact hs.current
  unfold declareVariable
  rw [Twins, run_get_bind, run_get_bind, ← h.scopes.function, ← h.scopes.current]
  generalize (if kind = .varKind then s.scopes.function else s.scopes.current) = i at hi ⊢
  refine Twins.bind (twins_declareNew h hi _ _) fun existing s' t' h' => ?_
  match existing with
  | none => exact (Reads.pure ()).twins h'
  | some (.function _ _ _) => exact (reads_reportBoth _ _ _).twins h'
  | some (.value _ existingKind _) =>
    show Twins A d k (if _ then _ else _) s' t'
    split
    · exact twins_declare h' hi _ _
    · split
      · exact (reads_reportBoth _ _ _).twins h'
      · exact (reads_reportBoth _ _ _).twins h'

theorem local_record (start : Nat) (type : Ty) :
    Local A k bound (modify (State.record start type)) := by
  intro d s t h _
  have hrecord : ∀ s : State, (s.record start type).scopes = s.scopes ∧
      (s.record start type).frames = s.frames := by
    intro s
    unfold State.record
    split <;> exact ⟨rfl, rfl⟩
  refine ⟨rfl, ?_, ?_⟩
  · show (s.record start type).scopes.Twin A d (t.record start type).scopes
    rw [(hrecord s).1, (hrecord t).1]
    exact h.scopes
  · show ∃ inner, _ ∧ (s.record start type).frames = _ ∧ (t.record start type).frames = _
    rw [(hrecord s).2, (hrecord t).2]
    exact h.frames

/-- An expression goes the same way if the names it reads from outside stand for the same. -/
theorem local_infer {e : Expr} (h : A.Same (e.free bound)) : Local A k bound (infer e) := by
  refine Local.of_reads (reads_infer e) fun n hn => ?_
  by_cases hbound : n ∈ bound
  · exact .inl hbound
  · exact .inr (h n (List.mem_filter.mpr ⟨hn, by simpa using hbound⟩))

theorem local_firstValue {e : Option Expr} (h : A.Same (Expr.free? bound e)) :
    Local A k bound (firstValue e) := by
  cases e with
  | some e => exact (local_infer h).after (reads_infer e).acts fun _ => Local.pure _
  | none => exact Local.pure none

theorem local_declareValued (kind : DeclKind) (name : Ident) (declared : Option Ty)
    (initial : Option (Option Ty)) : Local A k bound (declareValued kind name declared initial) := by
  have htype := reads_variableType kind name declared initial
  refine (Local.of_reads_nil htype).after htype.acts fun type => ?_
  cases type with
  | some type =>
    exact (local_record _ type).after (acts_record _ type) fun _ =>
      local_declareVariable kind name type
  | none => exact local_declareVariable kind name Ty.any

theorem local_declarator (kind : DeclKind) {d : Declarator}
    (h : A.Same (Expr.free? bound d.initializer)) : Local A k bound (declarator kind d) := by
  have hdeclared := reads_resolve? d.declaredType
  rw [declarator_eq]
  refine (Local.of_reads_nil hdeclared).after hdeclared.acts fun declared => ?_
  exact (local_firstValue h).after (acts_firstValue d.initializer) fun initial =>
    local_declareValued kind d.name declared initial

/-- A variable is bound behind its first value. -/
theorem local_declarators (kind : DeclKind) {ds : List Declarator} {bound : List String}
    (h : A.Same (Declarator.free bound ds)) : Local A k bound (ds.forM (declarator kind)) := by
  induction ds generalizing bound with
  | nil => exact Local.pure ()
  | cons d ds ih =>
    obtain ⟨hd, hds⟩ := Surroundings.same_append.mp h
    refine (local_declarator kind hd).bind (acts_declarator kind d) fun _ => ?_
    have hnames : (kind.footprint d.name.name).names = [d.name.name] := by
      unfold DeclKind.footprint
      split <;> rfl
    rw [hnames]
    exact ih hds

theorem local_expression {e : Expr} (h : A.Same (e.free bound)) : Local A k bound (expression e) :=
  (local_infer h).after (reads_infer e).acts fun _ => Local.pure ()

theorem local_expression? {e : Option Expr} (h : A.Same (Expr.free? bound e)) :
    Local A k bound (expression? e) := by
  cases e with
  | some e => exact local_expression h
  | none => exact Local.pure ()

theorem local_forStart {start : Option ForStart} (h : A.Same (ForStart.free bound start)) :
    Local A k bound (forStart start) :=
  match start with
  | some (.declaration d) => local_declarators d.kind h
  | some (.expression _) => local_expression h
  | none => Local.pure ()

/-- A name is declared in the innermost scope, and a conflict is reported. -/
theorem local_declareNew_current (n : String) (symbol : Symbol) {conflict : Symbol → Check Unit}
    (hconflict : ∀ existing, Reads [] (conflict existing)) :
    Local A k bound (do
      match ← declareNew (← get).scopes.current n symbol with
      | none => pure ()
      | some existing => conflict existing) := by
  intro d s t h hs
  rw [Twins, run_get_bind, run_get_bind, ← h.scopes.current]
  refine Twins.bind (twins_declareNew h hs.current n symbol) fun existing s' t' h' => ?_
  cases existing with
  | none => exact (Reads.pure ()).twins h'
  | some existing => exact (hconflict existing).twins h'

theorem local_declareParameter (p : Parameter) : Local A k bound (declareParameter p) := by
  have htype := reads_resolve? p.declaredType
  refine (Local.of_reads_nil htype).after htype.acts fun type => ?_
  exact local_declareNew_current _ _ fun _ => reads_reportBoth _ _ _

theorem local_declareParameters (ps : List Parameter) {bound : List String} :
    Local A k bound (ps.forM declareParameter) := by
  induction ps generalizing bound with
  | nil => exact Local.pure ()
  | cons p ps ih =>
    exact (local_declareParameter p).bind (acts_declareParameter p) fun _ => ih

theorem local_declareFunction (signature : Signature) :
    Local A k bound (declareFunction signature) := by
  refine local_declareNew_current _ _ fun existing => ?_
  cases existing <;> exact reads_reportBoth _ _ _

theorem local_declareFunctions (stmts : List Stmt) {bound : List String} :
    Local A k bound (declareFunctions stmts) := by
  induction stmts generalizing bound with
  | nil => exact Local.pure ()
  | cons s ss ih =>
    cases s with
    | function signature _ _ _ =>
      exact (local_declareFunction signature).bind (acts_declareFunction signature) fun _ => ih
    | _ => exact ih

/-! ### Functions and statements -/

/-- A function yields the same type in both surroundings, if its body goes the same way. -/
theorem twins_functionBody {signature : Signature} (declared : Option Ty) {run : Check Unit}
    (hrun : Local A (k + 1) (signature.parameterNames ++ bound) run) (h : State.Twin A d k s t)
    (hbound : ∀ n ∈ bound, s.scopes.Inside A n) :
    Twins A d k (functionBody signature declared run) s t := by
  have hbody : Local A k bound (do
      signature.parameters.forM declareParameter
      inFrame declared run) := by
    refine (local_declareParameters _).bind (acts_declareParameters signature) fun _ => ?_
    rw [Footprint.names_block]
    exact hrun.inFrame declared
  refine (twins_inFunctionScope hbody h hbound).bind fun frame s' t' h' => ?_
  cases signature.returnType with
  | some type => exact (reads_report_if (Reads.pure (returnedType frame.returns))).twins h'
  | none => exact (Reads.pure _).twins h'

theorem addReturn_cons {s : State} {frame : Frame} {frames : List Frame}
    (h : s.frames = frame :: frames) (type : Ty) :
    addReturn type s
      = ((), { s with frames := { frame with returns := frame.returns ++ [type] } :: frames }) := by
  rw [addReturn, run_modify, h]

theorem local_addReturn (type : Ty) : Local A (k + 1) bound (addReturn type) := by
  intro d s t h _
  obtain ⟨frames, hk, hf, hg⟩ := h.frames
  obtain ⟨frame, frames, rfl⟩ := List.exists_cons_of_length_eq_add_one hk
  rw [Twins, addReturn_cons hf, addReturn_cons hg]
  exact ⟨rfl, h.scopes, { frame with returns := frame.returns ++ [type] } :: frames, hk, rfl, rfl⟩

theorem local_yieldValue (value : Option Expr) (span : Span) (type : Option Ty) :
    Local A (k + 1) bound (yieldValue value span type) := by
  intro d s t h hs
  obtain ⟨frames, hk, hf, hg⟩ := h.frames
  obtain ⟨frame, frames, rfl⟩ := List.exists_cons_of_length_eq_add_one hk
  rw [List.cons_append] at hf hg
  unfold yieldValue
  rw [Twins, run_get_bind, run_get_bind, hf, hg]
  refine (?_ : Local A (k + 1) bound _) d s t h hs
  dsimp only
  split
  · split
    · exact (Local.of_reads_nil (reads_report _ _)).after (reads_report _ _).acts fun _ =>
        local_addReturn _
    · exact local_addReturn _
  · exact local_addReturn _

theorem local_returnValue {value : Option Expr} (h : A.Same (Expr.free? bound value))
    (span : Span) : Local A (k + 1) bound (returnValue value span) := by
  have hvalue : Local A (k + 1) bound (valueType value) := by
    cases value with
    | some e => exact local_infer h
    | none => exact Local.pure _
  rw [returnValue_eq]
  exact hvalue.after (acts_valueType value) (local_yieldValue value span)

mutual

/-- **A statement goes the same way in both surroundings** if the names that it reads from
outside stand for the same in both. -/
theorem local_statement : ∀ (s : Stmt) {k : Nat} {bound : List String},
    A.Same (s.free bound) → Local A (k + 1) bound (statement s)
  | .variables d _, _, _, h => local_declarators d.kind h
  | .function signature body _ _, _, _, h => by
    have hdeclared := reads_resolve? signature.returnType
    refine (Local.of_reads_nil hdeclared).after hdeclared.acts fun declared => ?_
    refine Local.after ?_ (acts_functionBody signature declared (acts_together body)) fun _ =>
      Local.pure ()
    exact fun d s t hst hs => twins_functionBody declared (local_together body h) hst hs.names
  | .block body _, _, _, h => (local_together body h).inScope
  | .ifThen condition thenBranch _, _, _, h => by
    obtain ⟨hc, hs⟩ := Surroundings.same_append.mp h
    exact (local_expression hc).after (reads_expression condition).acts fun _ =>
      local_statement thenBranch hs
  | .ifElse condition thenBranch elseBranch _, _, _, h => by
    obtain ⟨hc, h⟩ := Surroundings.same_append.mp h
    obtain ⟨hs, hs'⟩ := Surroundings.same_append.mp h
    refine (local_expression hc).after (reads_expression condition).acts fun _ => ?_
    exact (local_statement thenBranch hs).bind (acts_statement thenBranch) fun _ =>
      local_statement elseBranch hs'
  | .whileLoop condition body _, _, _, h => by
    obtain ⟨hc, hs⟩ := Surroundings.same_append.mp h
    exact (local_expression hc).after (reads_expression condition).acts fun _ =>
      local_statement body hs
  | .forLoop start condition update body _, _, _, h => by
    obtain ⟨hstart, h⟩ := Surroundings.same_append.mp h
    obtain ⟨hcondition, h⟩ := Surroundings.same_append.mp h
    obtain ⟨hupdate, hbody⟩ := Surroundings.same_append.mp h
    refine Local.inScope ((local_forStart hstart).bind (acts_forStart start) fun _ => ?_)
    refine (local_expression? hcondition).after (acts_expression? condition) fun _ => ?_
    exact (local_expression? hupdate).after (acts_expression? update) fun _ =>
      local_statement body hbody
  | .returns _ span, _, _, h => local_returnValue h span
  | .expression _ _, _, _, h => local_expression h

/-- The functions of a list are bound in the whole list. -/
theorem local_together : ∀ (body : List Stmt) {k : Nat} {bound : List String},
    A.Same (Stmt.freeOpen (functionNames body ++ bound) body
      ++ Stmt.freeAll (functionNames body ++ bound) body) →
    Local A (k + 1) bound (together body (inferFunctions body) (statements body))
  | body, _, _, h => by
    obtain ⟨hopen, hall⟩ := Surroundings.same_append.mp h
    refine (local_declareFunctions body).bind (acts_declareFunctions body) fun _ => ?_
    rw [Footprint.names_block]
    exact (local_inferFunctions body hopen).bind (acts_inferFunctions body) fun _ =>
      local_statements body hall

theorem local_statements : ∀ (ss : List Stmt) {k : Nat} {bound : List String},
    A.Same (Stmt.freeAll bound ss) → Local A (k + 1) bound (statements ss)
  | [], _, _, _ => Local.pure ()
  | s :: ss, _, _, h => by
    obtain ⟨hs, hss⟩ := Surroundings.same_append.mp h
    exact (local_statement s hs).bind (acts_statement s) fun _ => local_statements ss hss

theorem local_inferFunction : ∀ (s : Stmt) {k : Nat} {bound : List String},
    A.Same (if s.isOpen then s.free bound else []) → Local A (k + 1) bound (inferFunction s)
  | .function signature body _ _, k, bound, h => by
    rw [inferFunction]
    cases hresult : signature.returnType with
    | some _ => exact Local.pure ()
    | none =>
      rw [if_pos (by simp [Stmt.isOpen, hresult])] at h
      have hbody : Local A (k + 1) bound (functionBody signature none
          (together body (inferFunctions body) (statements body))) :=
        fun d s t hst hs => twins_functionBody none (local_together body h) hst hs.names
      have hacts := (acts_functionBody signature none (acts_together body)).silently
      refine hbody.silently.after hacts fun result d s t hst hs => ?_
      rw [Twins, run_get_bind, run_get_bind, ← hst.scopes.current]
      exact twins_declare hst hs.current _ _
  | .variables _ _, _, _, _ => Local.pure ()
  | .block _ _, _, _, _ => Local.pure ()
  | .ifThen _ _ _, _, _, _ => Local.pure ()
  | .ifElse _ _ _ _, _, _, _ => Local.pure ()
  | .whileLoop _ _ _, _, _, _ => Local.pure ()
  | .forLoop _ _ _ _ _, _, _, _ => Local.pure ()
  | .returns _ _, _, _, _ => Local.pure ()
  | .expression _ _, _, _, _ => Local.pure ()

theorem local_inferFunctions : ∀ (ss : List Stmt) {k : Nat} {bound : List String},
    A.Same (Stmt.freeOpen bound ss) → Local A (k + 1) bound (inferFunctions ss)
  | [], _, _, _ => Local.pure ()
  | s :: ss, _, _, h => by
    obtain ⟨hs, hss⟩ := Surroundings.same_append.mp h
    exact (local_inferFunction s hs).bind (acts_inferFunction s) fun _ =>
      local_inferFunctions ss hss

end

/-- **What a function returns depends on the names that it reads from outside:** in two states in
which they stand for the same, its body yields the same type. -/
theorem functionBody_eq {signature : Signature} {stmts : List Stmt} {bodySpan span : Span}
    {s t : State} (hpos : 0 < s.scopes.scopes.length)
    (hlength : s.scopes.scopes.length = t.scopes.scopes.length)
    (hfunction : s.scopes.function = t.scopes.function)
    (hfree : ∀ n ∈ (Stmt.function signature stmts bodySpan span).free [],
      s.scopes.lookup? n = t.scopes.lookup? n) (declared : Option Ty) :
    (functionBody signature declared (body stmts) s).1
      = (functionBody signature declared (body stmts) t).1 := by
  let A : Surroundings := ⟨s.scopes, t.scopes, s.frames, t.frames, hlength, hpos⟩
  have hsame : State.Twin A 0 0 s t :=
    ⟨⟨⟨[], rfl, (List.append_nil _).symm, (List.append_nil _).symm⟩, hfunction⟩, [], rfl, rfl, rfl⟩
  have hbody : Local A 1 (signature.parameterNames ++ []) (body stmts) :=
    local_together stmts hfree
  exact (twins_functionBody declared hbody hsame fun _ hn => nomatch hn).1

end Check

end ScriptLint
