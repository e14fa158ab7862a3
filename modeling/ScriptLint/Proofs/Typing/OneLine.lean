import ScriptLint.Proofs.Syntax.Texts
import ScriptLint.Proofs.Typing.Visits
/-!
# Messages of the checker that are one line

If no text in a script has a newline, then the checker never meets one: the
types in its scopes are shown in one line, and so are those that its functions
declare and return. Each step keeps this, and from it each error that is told
has a message of one line.

Key definitions: `Typing.State.OneLine`, `Check.KeepsLines`, `Site.OneLine`.
Key theorems: `Check.KeepsLines.bind`, `Check.keepsLines_infer`, `Check.keepsLines_statement`,
`Script.oneLine_checkDiagnostic`.
-/

namespace ScriptLint

/-! ### States -/

namespace ScopeStack

/-- The names that are declared in any of the scopes, with their symbols. -/
def entries (x : ScopeStack) : List (String × Symbol) :=
  x.scopes.flatten

variable {x : ScopeStack}

@[simp] theorem entries_enter : x.enter.entries = x.entries := by
  simp [entries, enter]

theorem entries_exit_subset : x.exit.entries ⊆ x.entries := by
  intro entry hentry
  obtain ⟨scope, hscope, hmem⟩ := List.mem_flatten.mp hentry
  refine List.mem_flatten.mpr ⟨scope, ?_, hmem⟩
  unfold exit at hscope
  dsimp only at hscope
  split at hscope
  · exact hscope
  · exact List.dropLast_subset _ hscope

theorem mem_entries_declare {i : Nat} {n : String} {symbol : Symbol} {entry : String × Symbol}
    (h : entry ∈ (x.declare i n symbol).entries) : entry = (n, symbol) ∨ entry ∈ x.entries := by
  obtain ⟨scope, hscope, hmem⟩ := List.mem_flatten.mp h
  obtain ⟨j, hj, rfl⟩ := List.mem_iff_getElem.mp hscope
  have hlength : j < x.scopes.length := by simpa [declare] using hj
  have hold : ∀ entry ∈ x.scopes[j], entry ∈ x.entries := fun entry hentry =>
    List.mem_flatten.mpr ⟨_, List.getElem_mem hlength, hentry⟩
  simp only [declare, List.getElem_modify] at hmem
  split at hmem
  · exact (List.mem_cons.mp hmem).imp_right (hold entry)
  · exact .inr (hold entry hmem)

theorem mem_entries_of_lookup? {n : String} {symbol : Symbol} (h : x.lookup? n = some symbol) :
    (n, symbol) ∈ x.entries := by
  obtain ⟨scope, hscope, hfound⟩ := List.exists_of_findSome?_eq_some h
  refine List.mem_flatten.mpr ⟨scope, List.mem_reverse.mp hscope, ?_⟩
  obtain ⟨before, behind, rfl, -⟩ := List.lookup_eq_some_iff.mp hfound
  simp

/-- What is declared in the scopes has types that are shown in one line. -/
def OneLine (x : ScopeStack) : Prop :=
  ∀ entry ∈ x.entries, entry.2.type.OneLine

theorem OneLine.declare (h : x.OneLine) {symbol : Symbol} (hsymbol : symbol.type.OneLine) (i : Nat)
    (n : String) : (x.declare i n symbol).OneLine := by
  intro entry hentry
  rcases mem_entries_declare hentry with rfl | hentry
  · exact hsymbol
  · exact h entry hentry

end ScopeStack

namespace Typing

/-- The function declares and returns types that are shown in one line. -/
structure Frame.OneLine (frame : Frame) : Prop where
  declared : ∀ ty ∈ frame.declared, ty.OneLine
  returns : ∀ ty ∈ frame.returns, ty.OneLine

/-- All types that the checker knows are shown in one line, and so are the errors. -/
structure State.OneLine (s : State) : Prop where
  scopes : s.scopes.OneLine
  frames : ∀ frame ∈ s.frames, frame.OneLine
  log : ∀ e ∈ s.log, e.problem.OneLine

end Typing

namespace Check

open Typing

variable {α β : Type}

/-- The step meets no newline and makes none, and its result is as told. -/
def KeepsLines (Q : α → Prop) (p : Check α) : Prop :=
  ∀ s : State, s.OneLine → (p s).2.OneLine ∧ Q (p s).1

/-- The type is shown in one line, if there is one. -/
def Shown (type : Option Ty) : Prop :=
  ∀ ty ∈ type, ty.OneLine

theorem Shown.none : Shown none := by
  intro ty hty
  cases hty

theorem Shown.some {ty : Ty} (h : ty.OneLine) : Shown (some ty) := fun _ heq =>
  Option.some.inj heq ▸ h

theorem Shown.getD {type : Option Ty} (h : Shown type) : (type.getD Ty.any).OneLine := by
  cases type with
  | none => exact .any
  | some ty => exact h ty rfl

/-! ### Steps -/

namespace KeepsLines

variable {p : Check α} {Q : α → Prop} {R : β → Prop}

theorem pure {a : α} (h : Q a) : KeepsLines Q (Pure.pure a : Check α) :=
  fun _ hs => ⟨hs, h⟩

theorem bind {q : α → Check β} (hp : KeepsLines Q p) (hq : ∀ a, Q a → KeepsLines R (q a)) :
    KeepsLines R (p >>= q) := by
  intro s hs
  obtain ⟨hstate, hvalue⟩ := hp s hs
  exact hq _ hvalue _ hstate

theorem get_bind {q : State → Check β} (h : ∀ s : State, s.OneLine → KeepsLines R (q s)) :
    KeepsLines R (get >>= q) :=
  fun s hs => h s hs s hs

theorem modify_bind {f : State → State} {q : Unit → Check β}
    (h : ∀ s : State, s.OneLine → (f s).OneLine) (hq : KeepsLines R (q ())) :
    KeepsLines R (modify f >>= q) :=
  fun s hs => hq (f s) (h s hs)

theorem modify {f : State → State} (h : ∀ s : State, s.OneLine → (f s).OneLine) :
    KeepsLines (fun _ => True) (modify f) :=
  fun s hs => ⟨h s hs, trivial⟩

/-- One step after the other, with no results. -/
theorem andThen {p : Check Unit} {q : Check Unit} (hp : KeepsLines (fun _ => True) p)
    (hq : KeepsLines (fun _ => True) q) : KeepsLines (fun _ => True) (p >>= fun _ => q) :=
  hp.bind fun _ _ => hq

theorem forM {γ : Type} {f : γ → Check Unit} {items : List γ}
    (h : ∀ item ∈ items, KeepsLines (fun _ => True) (f item)) :
    KeepsLines (fun _ => True) (items.forM f) := by
  induction items with
  | nil => exact .pure trivial
  | cons item items ih =>
    have hrest := ih fun other hother => h other (List.mem_cons_of_mem _ hother)
    exact (h item List.mem_cons_self).andThen hrest

end KeepsLines

theorem keepsLines_report {problem : TypeProblem} (span : Span) (h : problem.OneLine) :
    KeepsLines (fun _ => True) (report problem span) := by
  refine .modify fun s hs => ?_
  rcases report_cases ⟨problem, span⟩ s with ⟨heq, -⟩ | ⟨heq, -⟩
  · rwa [heq]
  · rw [heq]
    refine ⟨hs.scopes, hs.frames, fun e he => ?_⟩
    rcases List.mem_cons.mp he with rfl | he
    · exact h
    · exact hs.log e he

/-- An error, and what comes then. -/
theorem keepsLines_report_bind {problem : TypeProblem} {span : Span} {f : Unit → Check α}
    {Q : α → Prop} (h : problem.OneLine) (hf : KeepsLines Q (f ())) :
    KeepsLines Q (report problem span >>= f) :=
  (keepsLines_report span h).bind fun _ _ => hf

/-- An error under a condition, and what comes then. -/
theorem keepsLines_report_if {c : Prop} {_ : Decidable c} {problem : TypeProblem} {span : Span}
    {f : Unit → Check α} {Q : α → Prop} (h : problem.OneLine) (hf : KeepsLines Q (f ())) :
    KeepsLines Q (if c then report problem span >>= f else f ()) := by
  by_cases hc : c
  · rw [if_pos hc]
    exact keepsLines_report_bind h hf
  · rw [if_neg hc]
    exact hf

theorem keepsLines_reportBoth {problem : TypeProblem} (existing : Symbol) (span : Span)
    (h : problem.OneLine) : KeepsLines (fun _ => True) (reportBoth problem existing span) :=
  (keepsLines_report _ h).andThen (keepsLines_report _ h)

theorem keepsLines_modifyScopes {f : ScopeStack → ScopeStack}
    (h : ∀ x : ScopeStack, x.OneLine → (f x).OneLine) :
    KeepsLines (fun _ => True) (modifyScopes f) :=
  .modify fun _ hs => ⟨h _ hs.scopes, hs.frames, hs.log⟩

theorem keepsLines_record (start : Nat) (type : Ty) :
    KeepsLines (fun _ => True) (modify (State.record start type)) := by
  refine .modify fun _ hs => ?_
  unfold State.record
  split
  · exact hs
  · exact ⟨hs.scopes, hs.frames, hs.log⟩

theorem keepsLines_addReturn {type : Ty} (h : type.OneLine) :
    KeepsLines (fun _ => True) (addReturn type) := by
  refine .modify fun _ hs => ?_
  split
  · rename_i frame frames hframes
    have hold := hs.frames
    rw [hframes] at hold
    refine ⟨hs.scopes, fun other hother => ?_, hs.log⟩
    rcases List.mem_cons.mp hother with rfl | hother
    · obtain ⟨hdeclared, hreturns⟩ := hold frame List.mem_cons_self
      refine ⟨hdeclared, fun ty hty => ?_⟩
      rcases List.mem_append.mp hty with hty | hty
      · exact hreturns ty hty
      · rwa [List.mem_singleton.mp hty]
    · exact hold other (List.mem_cons_of_mem _ hother)
  · exact hs

section Nested

variable {p : Check α} {Q : α → Prop}

theorem KeepsLines.inScope (h : KeepsLines Q p) : KeepsLines Q (inScope p) := by
  refine (keepsLines_modifyScopes fun x hx => ?_).bind fun _ _ => ?_
  · rwa [ScopeStack.OneLine, ScopeStack.entries_enter]
  refine h.bind fun a ha => ?_
  refine (keepsLines_modifyScopes fun x hx => ?_).bind fun _ _ => .pure ha
  exact fun entry hentry => hx entry (ScopeStack.entries_exit_subset hentry)

theorem KeepsLines.inFunctionScope (h : KeepsLines Q p) : KeepsLines Q (inFunctionScope p) := by
  refine .get_bind fun s _ => ?_
  refine (keepsLines_modifyScopes (f := ScopeStack.enterFunction) fun x hx => ?_).bind fun _ _ => ?_
  · have hentries : x.enterFunction.entries = x.entries := ScopeStack.entries_enter
    rwa [ScopeStack.OneLine, hentries]
  refine h.bind fun a ha => ?_
  refine (keepsLines_modifyScopes
    (f := fun x => { x.exit with function := s.scopes.function }) fun x hx => ?_).bind
      fun _ _ => .pure ha
  exact fun entry hentry => hx entry (ScopeStack.entries_exit_subset hentry)

theorem KeepsLines.inFrame {run : Check Unit} {declared : Option Ty} (hdeclared : Shown declared)
    (h : KeepsLines (fun _ => True) run) : KeepsLines Frame.OneLine (inFrame declared run) := by
  refine .modify_bind (fun s hs => ?_) ?_
  · refine ⟨hs.scopes, fun frame hframe => ?_, hs.log⟩
    rcases List.mem_cons.mp hframe with rfl | hframe
    · exact ⟨hdeclared, nofun⟩
    · exact hs.frames frame hframe
  refine h.bind fun _ _ => .get_bind fun s hs => ?_
  have hframe : (s.frames.headD ⟨none, []⟩).OneLine := by
    cases hframes : s.frames with
    | nil => exact ⟨nofun, nofun⟩
    | cons frame frames => exact hs.frames frame (by rw [hframes]; exact List.mem_cons_self)
  refine .modify_bind (fun t ht => ?_) (.pure hframe)
  exact ⟨ht.scopes, fun frame hmem => ht.frames frame (List.mem_of_mem_tail hmem), ht.log⟩

theorem KeepsLines.silently (h : KeepsLines Q p) : KeepsLines Q (silently p) := by
  refine .get_bind fun s _ => ?_
  have hsilent : ∀ (silent : Bool) (t : State), t.OneLine → { t with silent := silent }.OneLine :=
    fun _ _ ht => ⟨ht.scopes, ht.frames, ht.log⟩
  refine .modify_bind (hsilent true) (h.bind fun a ha => ?_)
  exact .modify_bind (hsilent s.silent) (.pure ha)

end Nested

/-! ### Names -/

theorem oneLine_of_ambientSymbol? {n : String} {symbol : Symbol}
    (h : ambientSymbol? n = some symbol) : symbol.type.OneLine := by
  unfold ambientSymbol? at h
  split_ifs at h
  all_goals
    obtain rfl := Option.some.inj h
    exact .plain (by decide)

theorem keepsLines_lookup? (n : String) :
    KeepsLines (fun found => ∀ symbol ∈ found, symbol.type.OneLine) (lookup? n) := by
  refine .get_bind fun s hs => .pure fun symbol hsymbol => ?_
  rcases Option.or_eq_some_iff.mp hsymbol with hlocal | ⟨-, hglobal⟩
  · exact hs.scopes _ (ScopeStack.mem_entries_of_lookup? hlocal)
  · exact oneLine_of_ambientSymbol? hglobal

theorem keepsLines_declareNew (i : Nat) (n : String) {symbol : Symbol}
    (h : symbol.type.OneLine) : KeepsLines (fun _ => True) (declareNew i n symbol) := by
  refine .get_bind fun s _ => ?_
  cases s.scopes.find? i n with
  | some existing => exact .pure trivial
  | none =>
    refine (keepsLines_modifyScopes fun x hx => ?_).bind fun _ _ => .pure trivial
    exact hx.declare h i n

theorem keepsLines_callResult (callee : Ty) (span : Span) :
    KeepsLines Ty.OneLine (callResult callee span) := by
  unfold callResult
  exact keepsLines_report_if trivial (.pure .any)

/-- A name that stands for nothing is reported. -/
theorem keepsLines_unknown {name : Ident} (hname : OneLine name.name) :
    KeepsLines Shown (do report (.unknownName name.name) name.span; return none) :=
  keepsLines_report_bind hname (.pure .none)

theorem keepsLines_callNamed {name : Ident} (count : Nat) (span : Span)
    (hname : OneLine name.name) : KeepsLines Shown (callNamed name count span) := by
  refine (keepsLines_lookup? name.name).bind fun found hfound => ?_
  match found, hfound with
  | some (.function _ (some _) _), hfound =>
    exact keepsLines_report_if trivial (.pure (.some (hfound _ rfl)))
  | some (.function _ none _), hfound => exact .pure (.some (hfound _ rfl))
  | some (.value type _ _), _ =>
    exact (keepsLines_callResult type name.span).bind fun _ hresult => .pure (.some hresult)
  | none, _ => exact keepsLines_unknown hname

theorem keepsLines_nameType {name : Ident} (hname : OneLine name.name) :
    KeepsLines Shown (nameType name) := by
  refine (keepsLines_lookup? name.name).bind fun found hfound => ?_
  match found, hfound with
  | some (.function _ _ _), _ => exact .pure (.some (.object (by decide)))
  | some (.value _ _ _), hfound => exact .pure (.some (hfound _ rfl))
  | none, _ => exact keepsLines_unknown hname

theorem keepsLines_targetType {name : Ident} (hname : OneLine name.name) :
    KeepsLines Shown (targetType name) := by
  refine (keepsLines_lookup? name.name).bind fun found hfound => ?_
  match found, hfound with
  | some (.function _ _ _), _ =>
    exact keepsLines_report_bind hname (.pure (.some .any))
  | some (.value _ kind _), hfound =>
    show KeepsLines Shown (if kind = some .constKind then _ else _)
    split
    · exact keepsLines_report_bind hname (.pure .none)
    · exact .pure (.some (hfound _ rfl))
  | none, _ => exact keepsLines_unknown hname

/-! ### Operations -/

theorem keepsLines_addition (sign : Punctuator) {left right : Ty} (span : Span)
    (hleft : left.OneLine) (hright : right.OneLine) :
    KeepsLines Ty.OneLine (addition sign left right span) := by
  unfold addition
  split
  · exact .pure .any
  split
  · exact .pure .string
  split
  · exact .pure .number
  · exact keepsLines_report_bind ⟨hleft, hright⟩ (.pure .any)

theorem keepsLines_arithmetic (left right : Ty) (span : Span) :
    KeepsLines Ty.OneLine (arithmetic left right span) := by
  unfold arithmetic
  split
  · exact keepsLines_report_bind trivial (.pure .number)
  · exact keepsLines_report_if trivial (.pure .number)

theorem keepsLines_binaryResult (op : BinaryOp) {left right : Ty} (span : Span)
    (hleft : left.OneLine) (hright : right.OneLine) :
    KeepsLines Ty.OneLine (binaryResult op left right span) := by
  unfold binaryResult
  split
  · exact .pure (hleft.falsyPart.join_pair hright)
  · exact .pure (hleft.truthyPart.join_pair hright)
  · exact .pure (hleft.nonNullable.join_pair hright)
  · exact keepsLines_addition _ span hleft hright
  · exact keepsLines_arithmetic left right span

theorem keepsLines_binaryType (op : BinaryOp) {left right : Option Ty} (span : Span)
    (hleft : Shown left) (hright : Shown right) :
    KeepsLines Shown (binaryType op left right span) := by
  unfold binaryType
  split
  · exact .pure (.some .boolean)
  · match left, right with
    | some left, some right =>
      have hresult := keepsLines_binaryResult op span (hleft left rfl) (hright right rfl)
      exact hresult.bind fun _ hresult => .pure (.some hresult)
    | none, _ => exact .pure .none
    | some _, none => exact .pure .none

theorem shown_unaryType (op : UnaryOp) (operand : Expr) (type : Option Ty) :
    Shown (unaryType op operand type) := by
  have hnumber : Shown (type.map fun _ => Ty.number) := by
    intro ty hty
    obtain ⟨_, -, rfl⟩ := Option.map_eq_some_iff.mp hty
    exact .number
  unfold unaryType
  split
  · exact .some .boolean
  · exact hnumber
  · split
    · exact .some (.numberLiteral _)
    · exact hnumber

theorem keepsLines_propertyType {object : Ty} {name : Ident} (hobject : object.OneLine)
    (hname : OneLine name.name) : KeepsLines Ty.OneLine (propertyType object name) := by
  unfold propertyType
  split
  · exact .pure .any
  split
  · exact .pure .number
  · exact keepsLines_report_bind ⟨hname, hobject⟩ (.pure .any)

theorem oneLine_elementType {object : Ty} (h : object.OneLine) : (elementType object).OneLine := by
  unfold elementType
  split
  · rename_i helement
    exact h.element helement
  · split
    · exact .string
    · exact .any

theorem oneLine_arrayOf {types : List Ty} (h : ∀ ty ∈ types, ty.OneLine) :
    (arrayOf types).OneLine := by
  unfold arrayOf
  split
  · exact .array .any
  · exact .array (.join_map (fun _ => .widened) h)

theorem keepsLines_storedType (op : AssignOp) {target : Option Ty} {value : Ty} (span : Span)
    (htarget : Shown target) (hvalue : value.OneLine) :
    KeepsLines Shown (storedType op target value span) := by
  unfold storedType
  split
  · exact .pure (.some hvalue)
  · exact (keepsLines_addition _ span (htarget _ rfl) hvalue).bind fun _ hresult =>
      .pure (.some hresult)
  · exact keepsLines_report_if ⟨htarget _ rfl, hvalue⟩ (.pure (.some .number))
  · exact .pure .none

theorem keepsLines_assignmentType (op : AssignOp) {target value : Option Ty}
    (targetSpan valueSpan : Span) (htarget : Shown target) (hvalue : Shown value) :
    KeepsLines Shown (assignmentType op target value targetSpan valueSpan) := by
  unfold assignmentType
  match value with
  | none => exact .pure .none
  | some value =>
    refine (keepsLines_storedType op _ htarget (hvalue value rfl)).bind fun stored hstored => ?_
    match stored, target with
    | none, _ => exact .pure .none
    | some stored, none => exact .pure hstored
    | some stored, some target =>
      exact keepsLines_report_if ⟨hstored stored rfl, htarget target rfl⟩ (.pure hstored)

/-! ### Expressions -/

theorem texts_of_name? {e : Expr} {name : Ident} (h : e.name? = some name) :
    e.texts = [name.name] := by
  cases e with
  | identifier _ =>
    obtain rfl := Option.some.inj h
    rfl
  | _ => cases h

mutual

/-- **An expression without newlines is of a type that is shown in one line,** and so are the
errors in it. -/
theorem keepsLines_infer : ∀ {e : Expr}, (∀ text ∈ e.texts, OneLine text) →
    KeepsLines Shown (infer e)
  | .number value _, _ => .pure (.some (.numberLiteral value))
  | .string value _, he =>
    .pure (.some (.stringLiteral (he value (List.mem_singleton_self value))))
  | .boolean value _, _ => .pure (.some (.booleanLiteral value))
  | .null _, _ => .pure (.some (.plain (by decide)))
  | .identifier name, he => keepsLines_nameType (he name.name (List.mem_singleton_self _))
  | .binary op left right span, he => by
    rw [Expr.texts, List.forall_mem_append] at he
    refine (keepsLines_infer he.1).bind fun a ha => ?_
    refine (keepsLines_infer he.2).bind fun b hb => ?_
    exact keepsLines_binaryType op span ha hb
  | .unary op operand _, he => by
    rw [Expr.texts] at he
    exact (keepsLines_infer he).bind fun a _ => .pure (shown_unaryType op operand a)
  | .typeOf operand _, he => by
    rw [Expr.texts] at he
    exact (keepsLines_infer he).bind fun _ _ => .pure (.some .string)
  | .assignment op target value _, he => by
    rw [Expr.texts, List.forall_mem_append] at he
    obtain ⟨htarget, hvalue⟩ := he
    have hrest : ∀ a, Shown a → KeepsLines Shown (do
        let b ← infer value
        assignmentType op a b target.span value.span) := by
      intro a ha
      refine (keepsLines_infer hvalue).bind fun b hb => ?_
      exact keepsLines_assignmentType op target.span value.span ha hb
    have hinfer := keepsLines_infer htarget
    rw [infer]
    cases hname : target.name? with
    | some name =>
      rw [texts_of_name? hname] at htarget
      exact (keepsLines_targetType (htarget _ (List.mem_singleton_self _))).bind hrest
    | none => exact hinfer.bind hrest
  | .conditional condition whenTrue whenFalse _, he => by
    rw [Expr.texts, List.forall_mem_append, List.forall_mem_append] at he
    refine (keepsLines_infer he.1).bind fun _ _ => ?_
    refine (keepsLines_infer he.2.1).bind fun b hb => ?_
    refine (keepsLines_infer he.2.2).bind fun c hc => ?_
    match b, c with
    | some b, some c => exact .pure (.some ((hb b rfl).join_pair (hc c rfl)))
    | none, _ => exact .pure .none
    | some _, none => exact .pure .none
  | .call callee arguments span, he => by
    rw [Expr.texts, List.forall_mem_append] at he
    obtain ⟨hcallee, harguments⟩ := he
    have hrest : ∀ a, Shown a → KeepsLines Shown (do
        let _ ← inferAll arguments
        return a) := by
      intro a ha
      exact (keepsLines_inferAll harguments).bind fun _ _ => .pure ha
    have hinfer := keepsLines_infer hcallee
    rw [infer]
    cases hname : callee.name? with
    | some name =>
      rw [texts_of_name? hname] at hcallee
      exact (keepsLines_callNamed _ span (hcallee _ (List.mem_singleton_self _))).bind hrest
    | none =>
      refine hinfer.bind fun a ha => ?_
      match a with
      | some type =>
        have hresult := keepsLines_callResult type callee.span
        refine KeepsLines.bind (Q := Shown) ?_ hrest
        exact hresult.bind fun _ hresult => .pure (.some hresult)
      | none => exact hrest none .none
  | .property object name _, he => by
    rw [Expr.texts, List.forall_mem_append] at he
    refine (keepsLines_infer he.1).bind fun a ha => ?_
    match a with
    | some type =>
      have hname := he.2 name.name (List.mem_singleton_self _)
      exact (keepsLines_propertyType (ha type rfl) hname).bind fun _ hresult =>
        .pure (.some hresult)
    | none => exact .pure .none
  | .element object index _, he => by
    rw [Expr.texts, List.forall_mem_append] at he
    refine (keepsLines_infer he.1).bind fun a ha => ?_
    refine (keepsLines_infer he.2).bind fun _ _ => .pure fun ty hty => ?_
    obtain ⟨object, rfl, rfl⟩ := Option.map_eq_some_iff.mp hty
    exact oneLine_elementType (ha object rfl)
  | .parenthesized inner _, he => by
    rw [Expr.texts] at he
    rw [infer]
    exact keepsLines_infer he
  | .array elements _, he => by
    rw [Expr.texts] at he
    refine (keepsLines_inferAll he).bind fun types htypes => .pure ?_
    rcases mapM_id_cases types with ⟨tys, htys, hmem⟩ | ⟨hnone, -⟩
    · rw [htys]
      exact .some (oneLine_arrayOf fun ty hty => htypes _ (hmem ty hty) ty rfl)
    · rw [hnone]
      exact .none

theorem keepsLines_inferAll : ∀ {es : List Expr}, (∀ text ∈ Expr.textsAll es, OneLine text) →
    KeepsLines (fun types => ∀ type ∈ types, Shown type) (inferAll es)
  | [], _ => .pure nofun
  | e :: es, he => by
    rw [Expr.textsAll, List.forall_mem_append] at he
    refine (keepsLines_infer he.1).bind fun a ha => ?_
    refine (keepsLines_inferAll he.2).bind fun types htypes => .pure fun type htype => ?_
    rcases List.mem_cons.mp htype with rfl | htype
    · exact ha
    · exact htypes type htype

end

end Check

/-! ### Sites -/

/-- No name and no string at the site has a newline. -/
structure Site.OneLine (site : Site) : Prop where
  name : ∀ v ∈ site.name?, ScriptLint.OneLine v.name
  references : ∀ v ∈ site.references, ScriptLint.OneLine v.name
  expression : ∀ e ∈ site.expression?, ∀ text ∈ e.texts, ScriptLint.OneLine text

theorem Site.oneLine_of_texts {site : Site} (h : ∀ text ∈ site.texts, ScriptLint.OneLine text) :
    site.OneLine := by
  rw [Site.texts, List.forall_mem_append, List.forall_mem_append] at h
  obtain ⟨hname, hreferences, hexpression⟩ := h
  refine ⟨fun v hv => ?_, fun v hv => ?_, fun e he text htext => ?_⟩
  · exact hname _ (List.mem_map_of_mem (Option.mem_toList.mpr hv))
  · exact hreferences _ (List.mem_map_of_mem hv)
  · exact hexpression _ (List.mem_flatMap.mpr ⟨e, Option.mem_toList.mpr he, htext⟩)

namespace Check

open Typing

/-! ### Declarations -/

theorem keepsLines_resolve? {site : Site} (h : site.OneLine) :
    KeepsLines Shown (resolve? site.type?) := by
  have hreferences := h.references
  unfold Site.references at hreferences
  cases htype : site.type? with
  | none => exact .pure .none
  | some type =>
    rw [htype] at hreferences
    have hnames : KeepsLines (fun _ => True)
        (type.unknownNames.forM fun v => report (.unknownName v.name) v.span) := by
      refine .forM fun v hv => keepsLines_report v.span ?_
      rw [type.unknownNames_eq] at hv
      exact hreferences v (by simpa using (List.mem_filter.mp hv).1)
    have hresolve : KeepsLines Ty.OneLine (resolve type) :=
      hnames.bind fun _ _ => .pure type.oneLine_toTy
    exact hresolve.bind fun _ hty => .pure (.some hty)

theorem keepsLines_declareVariable (kind : DeclKind) {name : Ident} {type : Ty}
    (hname : OneLine name.name) (htype : type.OneLine) :
    KeepsLines (fun _ => True) (declareVariable kind name type) := by
  have hsymbol : (Symbol.value type (some kind) name.span).type.OneLine := htype
  refine .get_bind fun s _ => (keepsLines_declareNew _ _ hsymbol).bind fun found _ => ?_
  match found with
  | none => exact .pure trivial
  | some (.function _ _ _) => exact keepsLines_reportBoth _ _ hname
  | some (.value _ existingKind _) =>
    show KeepsLines _ (if _ then _ else _)
    split
    · exact keepsLines_modifyScopes fun _ hx => hx.declare hsymbol _ _
    · split
      · exact keepsLines_reportBoth _ _ hname
      · exact keepsLines_reportBoth _ _ hname

theorem keepsLines_variableType (kind : DeclKind) (name : Ident) {declared : Option Ty}
    {initial : Option (Option Ty)} (hdeclared : Shown declared)
    (hinitial : ∀ type ∈ initial, Shown type) :
    KeepsLines Shown (variableType kind name declared initial) := by
  unfold variableType
  split
  next declared initial =>
    have hproblem : (TypeProblem.notAssignable initial declared).OneLine :=
      ⟨hinitial _ rfl initial rfl, hdeclared declared rfl⟩
    exact keepsLines_report_if hproblem (.pure hdeclared)
  next => exact .pure hdeclared
  next initial =>
    have hvalue := hinitial _ rfl initial rfl
    refine .pure (.some ?_)
    split
    · exact hvalue
    · exact hvalue.widened
  next => exact .pure .none
  next => exact .pure (.some .any)

theorem keepsLines_firstValue {site : Site} (h : site.OneLine) :
    KeepsLines (fun initial => ∀ type ∈ initial, Shown type) (firstValue site.expression?) := by
  have hvalue := h.expression
  cases hexpression : site.expression? with
  | none => exact .pure nofun
  | some e =>
    refine (keepsLines_infer (hvalue e hexpression)).bind fun type htype => .pure ?_
    simpa using htype

theorem keepsLines_declarator {kind : DeclKind} {d : Declarator}
    (h : (Site.declarator kind d).OneLine) : KeepsLines (fun _ => True) (declarator kind d) := by
  have hname : OneLine d.name.name := h.name d.name rfl
  rw [declarator_eq]
  refine (keepsLines_resolve? h).bind fun declared hdeclared => ?_
  refine (keepsLines_firstValue h).bind fun initial hinitial => ?_
  refine (keepsLines_variableType kind d.name hdeclared hinitial).bind fun type htype => ?_
  have hdeclare := keepsLines_declareVariable kind hname htype.getD
  cases type with
  | some type => exact (keepsLines_record _ type).andThen hdeclare
  | none => exact hdeclare

theorem keepsLines_declaration {d : Declaration} (h : ∀ site ∈ d.sites, site.OneLine) :
    KeepsLines (fun _ => True) (declaration d) :=
  .forM fun v hv => keepsLines_declarator (h (.declarator d.kind v) (List.mem_map_of_mem hv))

/-- A name is declared in the innermost scope, and a conflict is reported. -/
theorem keepsLines_declareNew_current (n : String) {symbol : Symbol}
    {conflict : Symbol → Check Unit} (hsymbol : symbol.type.OneLine)
    (h : ∀ existing, KeepsLines (fun _ => True) (conflict existing)) :
    KeepsLines (fun _ => True) (do
      match ← declareNew (← get).scopes.current n symbol with
      | none => pure ()
      | some existing => conflict existing) := by
  refine .get_bind fun s _ => (keepsLines_declareNew _ n hsymbol).bind fun found _ => ?_
  cases found with
  | none => exact .pure trivial
  | some existing => exact h existing

theorem keepsLines_declareParameter {p : Parameter} (h : (Site.parameter p).OneLine) :
    KeepsLines (fun _ => True) (declareParameter p) := by
  refine (keepsLines_resolve? h).bind fun type htype => ?_
  refine keepsLines_declareNew_current p.name.name htype.getD fun existing => ?_
  exact keepsLines_reportBoth existing p.name.span (h.name p.name rfl)

theorem keepsLines_declareFunction {f : Signature} (h : (Site.signature f).OneLine) :
    KeepsLines (fun _ => True) (declareFunction f) := by
  have hresult : Shown (f.returnType.map TypeExpr.toTy) := by
    intro ty hty
    obtain ⟨type, -, rfl⟩ := Option.map_eq_some_iff.mp hty
    exact type.oneLine_toTy
  refine keepsLines_declareNew_current f.name.name hresult.getD fun existing => ?_
  cases existing with
  | value _ _ _ => exact keepsLines_reportBoth _ _ (h.name f.name rfl)
  | function _ _ _ => exact keepsLines_reportBoth _ _ trivial

theorem keepsLines_declareFunctions : ∀ {ss : List Stmt},
    (∀ site ∈ Stmt.sitesAll ss, site.OneLine) →
    KeepsLines (fun _ => True) (declareFunctions ss)
  | [], _ => .pure trivial
  | stmt :: ss, h => by
    rw [Stmt.sitesAll, List.forall_mem_append] at h
    have hrest := keepsLines_declareFunctions h.2
    cases stmt with
    | function f body bodySpan span =>
      exact (keepsLines_declareFunction (h.1 _ mem_sites_of_function)).andThen hrest
    | _ => exact hrest

/-! ### Functions and statements -/

theorem oneLine_returnedType {types : List Ty} (h : ∀ ty ∈ types, ty.OneLine) :
    (returnedType types).OneLine := by
  unfold returnedType
  split
  · exact .void
  · exact .join_map (fun _ => .widened) h

theorem keepsLines_functionBody {f : Signature} {declared : Option Ty} {run : Check Unit}
    (hparameters : ∀ p ∈ f.parameters, (Site.parameter p).OneLine) (hdeclared : Shown declared)
    (hrun : KeepsLines (fun _ => True) run) :
    KeepsLines Ty.OneLine (functionBody f declared run) := by
  have hparameter : KeepsLines (fun _ => True) (f.parameters.forM declareParameter) :=
    .forM fun p hp => keepsLines_declareParameter (hparameters p hp)
  have hbody : KeepsLines Frame.OneLine (inFunctionScope do
      f.parameters.forM declareParameter
      inFrame declared run) :=
    .inFunctionScope (hparameter.bind fun _ _ => .inFrame hdeclared hrun)
  refine hbody.bind fun frame hframe => ?_
  have hreturned := oneLine_returnedType hframe.returns
  cases f.returnType with
  | none => exact .pure hreturned
  | some type => exact keepsLines_report_if trivial (.pure hreturned)

theorem keepsLines_expression {e : Expr} (h : (Site.expression e).OneLine) :
    KeepsLines (fun _ => True) (expression e) :=
  (keepsLines_infer (h.expression e rfl)).bind fun _ _ => .pure trivial

theorem keepsLines_expression? {e : Option Expr}
    (h : ∀ site ∈ e.toList.map Site.expression, site.OneLine) :
    KeepsLines (fun _ => True) (expression? e) := by
  cases e with
  | none => exact .pure trivial
  | some e => exact keepsLines_expression (h _ (by simp))

theorem keepsLines_forStart {start : Option ForStart}
    (h : ∀ site ∈ start.toList.flatMap ForStart.sites, site.OneLine) :
    KeepsLines (fun _ => True) (forStart start) := by
  match start with
  | none => exact .pure trivial
  | some (.declaration d) => exact keepsLines_declaration (by simpa [ForStart.sites] using h)
  | some (.expression e) => exact keepsLines_expression (h _ (by simp [ForStart.sites]))

theorem keepsLines_returnValue {value : Option Expr} (span : Span)
    (h : ∀ site ∈ value.toList.map Site.expression, site.OneLine) :
    KeepsLines (fun _ => True) (returnValue value span) := by
  have hvalue : KeepsLines Shown (valueType value) := by
    cases value with
    | none => exact .pure (.some .void)
    | some e => exact keepsLines_infer ((h (.expression e) (by simp)).expression e rfl)
  rw [returnValue_eq]
  refine hvalue.bind fun type htype => .get_bind fun s hs => ?_
  have hreturn := keepsLines_addReturn htype.getD
  split
  · exact keepsLines_report span trivial
  next frame frames hframes =>
    have hframe : frame.OneLine := hs.frames frame (by rw [hframes]; exact List.mem_cons_self)
    split
    next e type declared hdeclared =>
      have hproblem : (TypeProblem.notAssignable type declared).OneLine :=
        ⟨htype type rfl, hframe.declared declared hdeclared⟩
      exact keepsLines_report_if hproblem hreturn
    next => exact hreturn

mutual

/-- **A statement without newlines is checked without making one.** -/
theorem keepsLines_statement : ∀ {stmt : Stmt}, (∀ site ∈ stmt.sites, site.OneLine) →
    KeepsLines (fun _ => True) (statement stmt)
  | .variables d _, h => keepsLines_declaration h
  | .function f body _ _, h => by
    rw [Stmt.sites, List.forall_mem_append, Signature.sites, List.forall_mem_append] at h
    obtain ⟨⟨hparameters, hsignature⟩, hbody⟩ := h
    rw [List.forall_mem_map] at hparameters
    have hf := hsignature _ (List.mem_singleton_self _)
    refine (keepsLines_resolve? hf).bind fun declared hdeclared => ?_
    have hrun := keepsLines_together hbody
    exact (keepsLines_functionBody hparameters hdeclared hrun).bind fun _ _ => .pure trivial
  | .block body _, h => by
    rw [Stmt.sites] at h
    exact .inScope (keepsLines_together h)
  | .ifThen c stmt _, h | .whileLoop c stmt _, h => by
    rw [Stmt.sites, List.forall_mem_cons] at h
    exact (keepsLines_expression h.1).andThen (keepsLines_statement h.2)
  | .ifElse c stmt stmt' _, h => by
    rw [Stmt.sites, List.forall_mem_cons, List.forall_mem_append] at h
    refine (keepsLines_expression h.1).andThen ?_
    exact (keepsLines_statement h.2.1).andThen (keepsLines_statement h.2.2)
  | .forLoop start c update stmt _, h => by
    rw [Stmt.sites, List.forall_mem_append, List.forall_mem_append, List.forall_mem_append] at h
    obtain ⟨hstart, hc, hupdate, hstmt⟩ := h
    refine .inScope ((keepsLines_forStart hstart).andThen ?_)
    refine (keepsLines_expression? hc).andThen ?_
    exact (keepsLines_expression? hupdate).andThen (keepsLines_statement hstmt)
  | .returns value span, h => keepsLines_returnValue span h
  | .expression e _, h => keepsLines_expression (h _ (List.mem_singleton_self _))

theorem keepsLines_together : ∀ {body : List Stmt},
    (∀ site ∈ Stmt.sitesAll body, site.OneLine) →
    KeepsLines (fun _ => True) (together body (inferFunctions body) (statements body))
  | body, h => by
    refine (keepsLines_declareFunctions h).andThen ?_
    exact (keepsLines_inferFunctions h).andThen (keepsLines_statements h)

theorem keepsLines_statements : ∀ {ss : List Stmt},
    (∀ site ∈ Stmt.sitesAll ss, site.OneLine) → KeepsLines (fun _ => True) (statements ss)
  | [], _ => .pure trivial
  | stmt :: ss, h => by
    rw [Stmt.sitesAll, List.forall_mem_append] at h
    exact (keepsLines_statement h.1).andThen (keepsLines_statements h.2)

/-- A function that is tried out may get another result. -/
theorem keepsLines_inferFunction : ∀ {stmt : Stmt}, (∀ site ∈ stmt.sites, site.OneLine) →
    KeepsLines (fun _ => True) (inferFunction stmt)
  | .function f body bodySpan span, h => by
    rw [Stmt.sites, List.forall_mem_append, Signature.sites, List.forall_mem_append,
      List.forall_mem_map] at h
    obtain ⟨⟨hparameters, -⟩, hbody⟩ := h
    have hrun := keepsLines_together hbody
    rw [inferFunction]
    cases f.returnType with
    | some _ => exact .pure trivial
    | none =>
      have hfunction := keepsLines_functionBody hparameters .none hrun
      refine hfunction.silently.bind fun result hresult => .get_bind fun s _ => ?_
      have hsymbol : (functionSymbol f result).type.OneLine := hresult
      exact keepsLines_modifyScopes fun _ hx => hx.declare hsymbol _ _
  | .variables _ _, _ => .pure trivial
  | .block _ _, _ => .pure trivial
  | .ifThen _ _ _, _ => .pure trivial
  | .ifElse _ _ _ _, _ => .pure trivial
  | .whileLoop _ _ _, _ => .pure trivial
  | .forLoop _ _ _ _ _, _ => .pure trivial
  | .returns _ _, _ => .pure trivial
  | .expression _ _, _ => .pure trivial

theorem keepsLines_inferFunctions : ∀ {ss : List Stmt},
    (∀ site ∈ Stmt.sitesAll ss, site.OneLine) → KeepsLines (fun _ => True) (inferFunctions ss)
  | [], _ => .pure trivial
  | stmt :: ss, h => by
    rw [Stmt.sitesAll, List.forall_mem_append] at h
    exact (keepsLines_inferFunction h.1).andThen (keepsLines_inferFunctions h.2)

end

end Check

/-! ### Scripts -/

/-- **In a script without newlines each error of the checker is one line.** -/
theorem Script.oneLine_checkDiagnostic {script : Script}
    (h : ∀ text ∈ script.texts, OneLine text) {d : Diagnostic}
    (hd : d ∈ script.check.diagnostics) : OneLine d.message := by
  have hinitial : Typing.State.initial.OneLine := ⟨nofun, nofun, nofun⟩
  have hsites : ∀ site ∈ script.sites, site.OneLine := by
    intro site hsite
    refine Site.oneLine_of_texts fun text htext => h text ?_
    exact List.mem_flatMap.mpr ⟨site, hsite, htext⟩
  obtain ⟨hstate, -⟩ := Check.keepsLines_together hsites Typing.State.initial hinitial
  obtain ⟨e, he, rfl⟩ := Script.mem_diagnostics.mp hd
  exact TypeProblem.oneLine_message (hstate.log e he)

end ScriptLint
