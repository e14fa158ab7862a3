import ScriptLint.Proofs.Syntax.Sites
import ScriptLint.Proofs.Types.Built
import ScriptLint.Proofs.Typing.Lookups
/-!
# The course of a check

While the checker walks over the sites of a script its errors and types only
grow. In between, a scope has no names but those that the sites introduce, all
types are built up, an error about an unknown name stands at a name that is
used at a site, and no two errors tell the same (`Fits`). So a name that
nothing introduces is reported wherever it is used, and an expression has no
type only if an error has been reported at one of its names.

Key definitions: `Check.Fits`, `Check.Extends`, `Check.Leads`, `Check.Typed`.
Key theorems: `Check.Leads.bind`, `Check.leads_infer`.
-/

namespace ScriptLint

/-- The type that a symbol gives to what uses it. -/
def Symbol.type : Symbol → Ty
  | .value type _ _ => type
  | .function result _ _ => result

/-- The name is introduced at one of the sites. -/
def Introduced (sites : List Site) (n : String) : Prop :=
  ∃ site ∈ sites, ∃ v ∈ site.name?, v.name = n

/-- At one of the sites the name is used as a value, or as a type that is not ambient. -/
def Sought (sites : List Site) (v : Ident) : Prop :=
  ∃ site ∈ sites, v ∈ site.identifiers ∨ v ∈ site.references ∧ isAmbientType v.name = false

/-- The name is neither a global nor introduced at one of the sites. -/
def Unknown (sites : List Site) (n : String) : Prop :=
  ambientSymbol? n = none ∧ ¬Introduced sites n

/-- The scopes have no names but those of the sites, and their types are built up. -/
def ScopeStack.Holds (sites : List Site) (x : ScopeStack) : Prop :=
  ∀ scope ∈ x.scopes, ∀ n symbol, (n, symbol) ∈ scope → Introduced sites n ∧ symbol.type.Built

namespace Check

open Typing

variable {α β : Type} {L : List Site} {s t u : State}

/-- What holds of the checker at every place of a script with the given sites. -/
structure Fits (L : List Site) (s : State) : Prop where
  scopes : s.scopes.Holds L
  returns : ∀ frame ∈ s.frames, ∀ type ∈ frame.returns, type.Built
  log : ∀ e ∈ s.log, e.problem.code = 2304 → ∃ v, Sought L v ∧ e = ⟨.unknownName v.name, v.span⟩
  distinct : s.log.Pairwise fun e e' => e.sameAs e' = false
  types : ∀ entry ∈ s.types, ∃ kind d, .declarator kind d ∈ L ∧ d.name.span.start = entry.1 ∧
    (d.declaredType = none → kind ≠ .constKind → entry.2.LiteralFree)
  recorded : ∀ entry ∈ s.types, entry.2.Built

/-- The state `t` has the errors and the types of `s`, and perhaps more. -/
structure Extends (s t : State) : Prop where
  silent : t.silent = s.silent
  log : s.log <:+ t.log
  types : s.types <:+ t.types

theorem Extends.refl (s : State) : Extends s s :=
  ⟨rfl, List.suffix_refl _, List.suffix_refl _⟩

theorem Extends.trans (h : Extends s t) (h' : Extends t u) : Extends s u :=
  ⟨h'.silent.trans h.silent, h.log.trans h'.log, h.types.trans h'.types⟩

/-- From the state `s` the step leads to a state that fits, and to a result as told. -/
structure Leads (L : List Site) (s : State) (p : Check α) (Q : α → State → Prop) : Prop where
  later : Extends s (p s).2
  fits : Fits L (p s).2
  holds : Q (p s).1 (p s).2

namespace Leads

variable {p : Check α} {Q : α → State → Prop} {R : β → State → Prop}

theorem pure {a : α} (hs : Fits L s) (h : Q a s) : Leads L s (Pure.pure a : Check α) Q :=
  ⟨.refl s, hs, h⟩

theorem bind {q : α → Check β} (hp : Leads L s p Q)
    (hq : ∀ a t, Extends s t → Fits L t → Q a t → Leads L t (q a) R) :
    Leads L s (p >>= q) R := by
  have hnext := hq (p s).1 (p s).2 hp.later hp.fits hp.holds
  exact ⟨hp.later.trans hnext.later, hnext.fits, hnext.holds⟩

theorem get_bind {q : State → Check β} (h : Leads L s (q s) R) : Leads L s (get >>= q) R :=
  ⟨h.later, h.fits, h.holds⟩

theorem modify {f : State → State} {Q : Unit → State → Prop} (hlater : Extends s (f s))
    (hfits : Fits L (f s)) (h : Q () (f s)) : Leads L s (modify f) Q :=
  ⟨hlater, hfits, h⟩

theorem imp {R : α → State → Prop} (h : Leads L s p Q)
    (hR : ∀ a t, Extends s t → Q a t → R a t) : Leads L s p R :=
  ⟨h.later, h.fits, hR _ _ h.later h.holds⟩

end Leads

/-! ### Reports -/

/-- Unless the checker is silent, an error of this number at this place has been reported. -/
def Told (code start : Nat) (s : State) : Prop :=
  s.silent = false → ∃ e ∈ s.log, e.problem.code = code ∧ e.span.start = start

theorem Told.mono {code start : Nat} (h : Told code start s) (hst : Extends s t) :
    Told code start t := by
  intro hloud
  obtain ⟨e, he, hcode, hstart⟩ := h (hst.silent ▸ hloud)
  exact ⟨e, hst.log.subset he, hcode, hstart⟩

/-- An error is not told in silence, and not twice. -/
theorem report_cases (e : TypeError) (s : State) :
    (s.report e = s ∧ (s.silent = false → ∃ old ∈ s.log, old.sameAs e = true)) ∨
      (s.report e = { s with log := e :: s.log } ∧ ∀ old ∈ s.log, old.sameAs e = false) := by
  unfold State.report
  split
  · rename_i hskip
    refine .inl ⟨rfl, fun hloud => ?_⟩
    rw [hloud, Bool.false_or] at hskip
    exact List.any_eq_true.mp hskip
  · rename_i hnew
    rw [Bool.not_eq_true, Bool.or_eq_false_iff] at hnew
    exact .inr ⟨rfl, fun old hold => Bool.eq_false_iff.mpr (List.any_eq_false.mp hnew.2 old hold)⟩

theorem sameAs_iff {e e' : TypeError} :
    e.sameAs e' = true ↔ e.problem.code = e'.problem.code ∧ e.span.start = e'.span.start := by
  rw [TypeError.sameAs, Bool.and_eq_true, beq_iff_eq, beq_iff_eq]

theorem leads_report {problem : TypeProblem} {span : Span} (hs : Fits L s)
    (h : problem.code = 2304 → ∃ v, Sought L v ∧ problem = .unknownName v.name ∧ span = v.span) :
    Leads L s (report problem span) fun _ t => Told problem.code span.start t := by
  suffices hreport : Extends s (s.report ⟨problem, span⟩) ∧ Fits L (s.report ⟨problem, span⟩) ∧
      Told problem.code span.start (s.report ⟨problem, span⟩) from
    .modify hreport.1 hreport.2.1 hreport.2.2
  rcases report_cases ⟨problem, span⟩ s with ⟨heq, hold⟩ | ⟨heq, hnew⟩
  · rw [heq]
    refine ⟨.refl s, hs, fun hloud => ?_⟩
    obtain ⟨e, he, hsame⟩ := hold hloud
    exact ⟨e, he, sameAs_iff.mp hsame⟩
  · rw [heq]
    refine ⟨⟨rfl, List.suffix_cons _ _, List.suffix_refl _⟩, ?_, fun _ => ?_⟩
    · refine ⟨hs.scopes, hs.returns, fun e he hcode => ?_, ?_, hs.types, hs.recorded⟩
      · rcases List.mem_cons.mp he with rfl | he
        · obtain ⟨v, hv, rfl, rfl⟩ := h hcode
          exact ⟨v, hv, rfl⟩
        · exact hs.log e he hcode
      · refine List.pairwise_cons.mpr ⟨fun e he => Bool.eq_false_iff.mpr fun hsame => ?_, hs.distinct⟩
        have hnot := Bool.eq_false_iff.mp (hnew e he)
        obtain ⟨hcode, hstart⟩ := sameAs_iff.mp hsame
        exact hnot (sameAs_iff.mpr ⟨hcode.symm, hstart.symm⟩)
    · exact ⟨_, List.mem_cons_self, rfl, rfl⟩

/-- An error that is not about an unknown name. -/
theorem leads_remark {problem : TypeProblem} {span : Span} (hs : Fits L s)
    (h : problem.code ≠ 2304) : Leads L s (report problem span) fun _ _ => True :=
  (leads_report hs fun hcode => absurd hcode h).imp fun _ _ _ _ => trivial

/-- Such an error under a condition, and what comes then. -/
theorem leads_remark_if {c : Prop} {_ : Decidable c} {problem : TypeProblem} {span : Span}
    {f : Unit → Check α} {Q : α → State → Prop} (hs : Fits L s) (h : problem.code ≠ 2304)
    (hf : ∀ t, Extends s t → Fits L t → Leads L t (f ()) Q) :
    Leads L s (if c then report problem span >>= f else f ()) Q := by
  by_cases hc : c
  · rw [if_pos hc]
    exact (leads_remark hs h).bind fun _ t hst ht _ => hf t hst ht
  · rw [if_neg hc]
    exact hf s (.refl s) hs

/-! ### Names -/

/-- At the name an error has been reported that leaves its use without a type. -/
def Excused (v : Ident) (s : State) : Prop :=
  Told 2304 v.span.start s ∨ Told 2588 v.span.start s

/-- What is known when the types of expressions have been found that use the given names. -/
structure Typed (L : List Site) (vs : List Ident) (types : List (Option Ty)) (s : State) :
    Prop where
  built : ∀ type ∈ types, ∀ ty ∈ type, ty.Built
  told : ∀ v ∈ vs, Unknown L v.name → Told 2304 v.span.start s
  excused : none ∈ types → ∃ v ∈ vs, Excused v s

namespace Typed

variable {vs us : List Ident} {types types' : List (Option Ty)} {type : Option Ty}

theorem nil : Typed L [] [] s :=
  ⟨nofun, nofun, nofun⟩

theorem mono (h : Typed L vs types s) (hst : Extends s t) : Typed L vs types t := by
  refine ⟨h.built, fun v hv hunknown => (h.told v hv hunknown).mono hst, fun hnone => ?_⟩
  obtain ⟨v, hv, hexcused⟩ := h.excused hnone
  exact ⟨v, hv, hexcused.imp (·.mono hst) (·.mono hst)⟩

theorem append (h : Typed L vs types s) (h' : Typed L us types' s) :
    Typed L (vs ++ us) (types ++ types') s := by
  refine ⟨?_, ?_, ?_⟩
  · intro type htype
    exact (List.mem_append.mp htype).elim (h.built type) (h'.built type)
  · intro v hv
    exact (List.mem_append.mp hv).elim (h.told v) (h'.told v)
  · intro hnone
    rcases List.mem_append.mp hnone with hnone | hnone
    · obtain ⟨v, hv, hexcused⟩ := h.excused hnone
      exact ⟨v, List.mem_append_left us hv, hexcused⟩
    · obtain ⟨v, hv, hexcused⟩ := h'.excused hnone
      exact ⟨v, List.mem_append_right vs hv, hexcused⟩

/-- A type that is made of others is there if they are. -/
theorem make (h : Typed L vs types s) (hbuilt : ∀ ty ∈ type, ty.Built)
    (hnone : type = none → none ∈ types) : Typed L vs [type] s := by
  refine ⟨fun a ha => ?_, h.told, fun ha => h.excused (hnone ?_)⟩
  · rw [List.mem_singleton.mp ha]
    exact hbuilt
  · exact (List.mem_singleton.mp ha).symm

/-- A type that needs no other. -/
theorem known (h : Typed L vs types s) {ty : Ty} (hty : ty.Built) : Typed L vs [some ty] s :=
  h.make (by simpa using hty) nofun

theorem built_of_some {ty : Ty} (h : Typed L vs [some ty] s) : ty.Built :=
  h.built _ (List.mem_singleton_self _) ty rfl

/-- A name that stands for something. -/
theorem of_found {name : Ident} (hname : ¬Unknown L name.name) {ty : Ty} (hty : ty.Built) :
    Typed L [name] [some ty] s := by
  refine ⟨by simpa using hty, fun v hv hunknown => ?_, by simp⟩
  rw [List.mem_singleton.mp hv] at hunknown
  exact absurd hunknown hname

end Typed

theorem built_of_ambientSymbol? {n : String} {symbol : Symbol}
    (h : ambientSymbol? n = some symbol) : symbol.type.Built := by
  have hbasic : symbol.type ∈ [Ty.any, Ty.undefined, Ty.number, Ty.boolean, Ty.string] := by
    unfold ambientSymbol? at h
    split_ifs at h
    all_goals
      obtain rfl := Option.some.inj h
      simp [Symbol.type]
  refine .basic ?_
  simp only [Ty.basics, List.mem_cons, List.not_mem_nil, or_false] at hbasic ⊢
  tauto

theorem Fits.of_lookup? (hs : Fits L s) {n : String} {symbol : Symbol}
    (h : s.scopes.lookup? n = some symbol) : Introduced L n ∧ symbol.type.Built := by
  obtain ⟨scope, hscope, hfound⟩ := List.exists_of_findSome?_eq_some h
  have hmem : (n, symbol) ∈ scope := by
    clear hscope
    induction scope with
    | nil => cases hfound
    | cons entry scope ih =>
      rw [List.lookup_cons] at hfound
      split at hfound
      · rename_i heq
        rw [← Option.some.inj hfound, beq_iff_eq.mp heq]
        exact List.mem_cons_self
      · exact List.mem_cons_of_mem _ (ih hfound)
  exact hs.scopes scope (List.mem_reverse.mp hscope) n symbol hmem

/-- What a name stands for has a type, and no name stands for anything that is unknown. -/
theorem leads_lookup? (n : String) (hs : Fits L s) :
    Leads L s (lookup? n) fun found _ =>
      ∀ symbol ∈ found, symbol.type.Built ∧ ¬Unknown L n := by
  refine ⟨.refl s, hs, fun symbol hsymbol => ?_⟩
  rcases Option.or_eq_some_iff.mp hsymbol with hlocal | ⟨-, hglobal⟩
  · obtain ⟨hintroduced, hbuilt⟩ := hs.of_lookup? hlocal
    exact ⟨hbuilt, fun hunknown => hunknown.2 hintroduced⟩
  · refine ⟨built_of_ambientSymbol? hglobal, fun hunknown => ?_⟩
    rw [hunknown.1] at hglobal
    cases hglobal

/-- A name that stands for nothing is reported, and its use has no type. -/
theorem leads_unknown {name : Ident} (hs : Fits L s) (hname : Sought L name) :
    Leads L s (do report (.unknownName name.name) name.span; return none : Check (Option Ty))
      fun type t => Typed L [name] [type] t := by
  refine (leads_report hs fun _ => ⟨name, hname, rfl, rfl⟩).bind fun _ t _ ht htold => ?_
  refine .pure ht ⟨by simp, fun v hv _ => ?_, fun _ => ⟨name, by simp, .inl htold⟩⟩
  rw [List.mem_singleton.mp hv]
  exact htold

theorem leads_callResult (callee : Ty) (span : Span) (hs : Fits L s) :
    Leads L s (callResult callee span) fun type _ => type.Built := by
  unfold callResult
  exact leads_remark_if hs (by decide) fun t _ ht => .pure ht .any

theorem leads_callNamed {name : Ident} (count : Nat) (span : Span) (hs : Fits L s)
    (hname : Sought L name) :
    Leads L s (callNamed name count span) fun type t => Typed L [name] [type] t := by
  refine (leads_lookup? name.name hs).bind fun found t _ ht hfound => ?_
  match found, hfound with
  | some (.function _ (some _) _), hfound =>
    obtain ⟨hbuilt, hknown⟩ := hfound _ rfl
    exact leads_remark_if ht (by simp [TypeProblem.code]) fun u _ hu => .pure hu (.of_found hknown hbuilt)
  | some (.function _ none _), hfound =>
    obtain ⟨hbuilt, hknown⟩ := hfound _ rfl
    exact .pure ht (.of_found hknown hbuilt)
  | some (.value type _ _), hfound =>
    obtain ⟨-, hknown⟩ := hfound _ rfl
    exact (leads_callResult type name.span ht).bind fun _ u _ hu hresult =>
      .pure hu (.of_found hknown hresult)
  | none, _ => exact leads_unknown ht hname

theorem leads_nameType {name : Ident} (hs : Fits L s) (hname : Sought L name) :
    Leads L s (nameType name) fun type t => Typed L [name] [type] t := by
  refine (leads_lookup? name.name hs).bind fun found t _ ht hfound => ?_
  match found, hfound with
  | some (.function _ _ _), hfound =>
    obtain ⟨-, hknown⟩ := hfound _ rfl
    exact .pure ht (.of_found hknown (.object "Function"))
  | some (.value _ _ _), hfound =>
    obtain ⟨hbuilt, hknown⟩ := hfound _ rfl
    exact .pure ht (.of_found hknown hbuilt)
  | none, _ => exact leads_unknown ht hname

theorem leads_targetType {name : Ident} (hs : Fits L s) (hname : Sought L name) :
    Leads L s (targetType name) fun type t => Typed L [name] [type] t := by
  refine (leads_lookup? name.name hs).bind fun found t _ ht hfound => ?_
  match found, hfound with
  | some (.function _ _ _), hfound =>
    obtain ⟨-, hknown⟩ := hfound _ rfl
    exact (leads_remark ht (by simp [TypeProblem.code])).bind fun _ u _ hu _ =>
      .pure hu (.of_found hknown .any)
  | some (.value _ kind _), hfound =>
    obtain ⟨hbuilt, hknown⟩ := hfound _ rfl
    show Leads L t (if kind = some .constKind then _ else _) _
    split
    · have hcode : (TypeProblem.assignmentToConstant name.name).code ≠ 2304 := by
        simp [TypeProblem.code]
      refine (leads_report ht fun h => absurd h hcode).bind fun _ u _ hu htold => .pure hu ?_
      refine ⟨by simp, fun v hv hunknown => ?_, fun _ => ⟨name, by simp, .inr htold⟩⟩
      rw [List.mem_singleton.mp hv] at hunknown
      exact absurd hunknown hknown
    · exact .pure ht (.of_found hknown hbuilt)
  | none, _ => exact leads_unknown ht hname

/-! ### Operations -/

theorem leads_addition (sign : Punctuator) (left right : Ty) (span : Span) (hs : Fits L s) :
    Leads L s (addition sign left right span) fun type _ => type.Built := by
  unfold addition
  split
  · exact .pure hs .any
  · split
    · exact .pure hs .string
    · split
      · exact .pure hs .number
      · exact (leads_remark hs (by simp [TypeProblem.code])).bind fun _ t _ ht _ => .pure ht .any

theorem leads_arithmetic (left right : Ty) (span : Span) (hs : Fits L s) :
    Leads L s (arithmetic left right span) fun type _ => type.Built := by
  unfold arithmetic
  split
  · exact (leads_remark hs (by decide)).bind fun _ t _ ht _ => .pure ht .number
  · exact leads_remark_if hs (by decide) fun t _ ht => .pure ht .number

theorem leads_binaryResult (op : BinaryOp) {left right : Ty} (span : Span) (hs : Fits L s)
    (hleft : left.Built) (hright : right.Built) :
    Leads L s (binaryResult op left right span) fun type _ => type.Built := by
  unfold binaryResult
  split
  · exact .pure hs (hleft.falsyPart.join_pair hright)
  · exact .pure hs (hleft.truthyPart.join_pair hright)
  · exact .pure hs (hleft.nonNullable.join_pair hright)
  · exact leads_addition _ left right span hs
  · exact leads_arithmetic left right span hs

theorem leads_binaryType (op : BinaryOp) {left right : Option Ty} (span : Span) (hs : Fits L s)
    (hleft : ∀ ty ∈ left, ty.Built) (hright : ∀ ty ∈ right, ty.Built) :
    Leads L s (binaryType op left right span) fun type _ =>
      (∀ ty ∈ type, ty.Built) ∧ (type = none → none ∈ [left, right]) := by
  unfold binaryType
  split
  · exact .pure hs ⟨by simpa using .boolean, nofun⟩
  · match left, right with
    | some left, some right =>
      refine (leads_binaryResult op span hs (hleft left rfl) (hright right rfl)).bind
        fun _ t _ ht hresult => ?_
      exact .pure ht ⟨by simpa using hresult, nofun⟩
    | none, _ => exact .pure hs ⟨nofun, fun _ => by simp⟩
    | some _, none => exact .pure hs ⟨nofun, fun _ => by simp⟩

theorem built_unaryType (op : UnaryOp) (operand : Expr) (type : Option Ty) :
    ∀ ty ∈ unaryType op operand type, ty.Built := by
  intro ty hty
  unfold unaryType at hty
  split at hty
  · rw [← Option.some.inj hty]
    exact .boolean
  · obtain ⟨_, -, rfl⟩ := Option.map_eq_some_iff.mp hty
    exact .number
  · split at hty
    · rw [← Option.some.inj hty]
      exact .numberLiteral _
    · obtain ⟨_, -, rfl⟩ := Option.map_eq_some_iff.mp hty
      exact .number

theorem eq_none_of_unaryType {op : UnaryOp} {operand : Expr} {type : Option Ty}
    (h : unaryType op operand type = none) : type = none := by
  unfold unaryType at h
  split at h
  · cases h
  · exact Option.map_eq_none_iff.mp h
  · split at h
    · cases h
    · exact Option.map_eq_none_iff.mp h

theorem leads_propertyType (object : Ty) (name : Ident) (hs : Fits L s) :
    Leads L s (propertyType object name) fun type _ => type.Built := by
  unfold propertyType
  split
  · exact .pure hs .any
  · split
    · exact .pure hs .number
    · exact (leads_remark hs (by simp [TypeProblem.code])).bind fun _ t _ ht _ => .pure ht .any

theorem built_elementType {object : Ty} (h : object.Built) : (elementType object).Built := by
  unfold elementType
  split
  · rename_i helement
    exact h.element helement
  · split
    · exact .string
    · exact .any

theorem built_arrayOf {types : List Ty} (h : ∀ ty ∈ types, ty.Built) : (arrayOf types).Built := by
  unfold arrayOf
  split
  · exact .array .any
  · exact .array (.join_widened h)

theorem leads_storedType (op : AssignOp) (target : Option Ty) {value : Ty} (span : Span)
    (hs : Fits L s) (hvalue : value.Built) :
    Leads L s (storedType op target value span) fun type _ =>
      (∀ ty ∈ type, ty.Built) ∧ (type = none → target = none) := by
  unfold storedType
  split
  · exact .pure hs ⟨by simpa using hvalue, nofun⟩
  · exact (leads_addition _ _ value span hs).bind fun _ t _ ht hresult =>
      .pure ht ⟨by simpa using hresult, nofun⟩
  · exact leads_remark_if hs (by simp [TypeProblem.code]) fun t _ ht =>
      .pure ht ⟨by simpa using .number, nofun⟩
  · exact .pure hs ⟨nofun, fun _ => rfl⟩

theorem leads_assignmentType (op : AssignOp) {target value : Option Ty}
    (targetSpan valueSpan : Span) (hs : Fits L s) (hvalue : ∀ ty ∈ value, ty.Built) :
    Leads L s (assignmentType op target value targetSpan valueSpan) fun type _ =>
      (∀ ty ∈ type, ty.Built) ∧ (type = none → none ∈ [target, value]) := by
  unfold assignmentType
  match value with
  | none => exact .pure hs ⟨nofun, fun _ => by simp⟩
  | some value =>
    refine (leads_storedType op target _ hs (hvalue value rfl)).bind fun stored t _ ht hstored => ?_
    match stored, target with
    | none, _ => exact .pure ht ⟨nofun, fun _ => by simp [hstored.2 rfl]⟩
    | some stored, none => exact .pure ht ⟨hstored.1, nofun⟩
    | some stored, some target =>
      exact leads_remark_if ht (by simp [TypeProblem.code]) fun u _ hu =>
        .pure hu ⟨hstored.1, nofun⟩

/-! ### Expressions -/

theorem identifiers_of_name? {e : Expr} {name : Ident} (h : e.name? = some name) :
    e.identifiers = [name] := by
  cases e with
  | identifier _ =>
    obtain rfl := Option.some.inj h
    rfl
  | _ => cases h

/-- All types of a list are there, or one is missing. -/
theorem mapM_id_cases (types : List (Option Ty)) :
    (∃ tys, types.mapM id = some tys ∧ ∀ ty ∈ tys, some ty ∈ types) ∨
      (types.mapM id = none ∧ none ∈ types) := by
  induction types with
  | nil => exact .inl ⟨[], rfl, by simp⟩
  | cons type types ih =>
    cases type with
    | none => exact .inr ⟨rfl, List.mem_cons_self⟩
    | some ty =>
      rcases ih with ⟨tys, htys, hmem⟩ | ⟨hnone, hmem⟩
      · refine .inl ⟨ty :: tys, by simp [htys], fun x hx => ?_⟩
        rcases List.mem_cons.mp hx with rfl | hx
        · exact List.mem_cons_self
        · exact List.mem_cons_of_mem _ (hmem x hx)
      · exact .inr ⟨by simp [hnone], List.mem_cons_of_mem _ hmem⟩

mutual

/-- **An expression has a type, or one of its names explains why it has none**; and each of its
names that is unknown has been reported. -/
theorem leads_infer : ∀ {e : Expr}, (∀ v ∈ e.identifiers, Sought L v) →
    ∀ {s : State}, Fits L s → Leads L s (infer e) fun type t => Typed L e.identifiers [type] t
  | .number value _, _, _, hs => .pure hs (Typed.nil.known (.numberLiteral value))
  | .string value _, _, _, hs => .pure hs (Typed.nil.known (.stringLiteral value))
  | .boolean value _, _, _, hs => .pure hs (Typed.nil.known (.booleanLiteral value))
  | .null _, _, _, hs => .pure hs (Typed.nil.known (.basic (by simp [Ty.basics])))
  | .identifier name, he, _, hs => leads_nameType hs (he name (List.mem_singleton_self name))
  | .binary op left right span, he, s, hs => by
    rw [Expr.identifiers] at he ⊢
    refine (leads_infer (fun v hv => he v (List.mem_append_left _ hv)) hs).bind
      fun a t _ ht ha => ?_
    refine (leads_infer (fun v hv => he v (List.mem_append_right _ hv)) ht).bind
      fun b u htu hu hb => ?_
    refine (leads_binaryType op span hu (ha.built a (by simp)) (hb.built b (by simp))).imp
      fun c v huv hc => ?_
    exact ((ha.mono (htu.trans huv)).append (hb.mono huv)).make hc.1 hc.2
  | .unary op operand _, he, s, hs => by
    rw [Expr.identifiers] at he ⊢
    refine (leads_infer he hs).bind fun a t _ ht ha => .pure ht ?_
    refine ha.make (built_unaryType op operand a) fun hnone => ?_
    rw [eq_none_of_unaryType hnone]
    exact List.mem_singleton_self _
  | .typeOf operand _, he, s, hs => by
    rw [Expr.identifiers] at he ⊢
    exact (leads_infer he hs).bind fun a t _ ht ha => .pure ht (ha.known .string)
  | .assignment op target value _, he, s, hs => by
    rw [Expr.identifiers] at he ⊢
    have htarget : ∀ v ∈ target.identifiers, Sought L v := fun v hv =>
      he v (List.mem_append_left _ hv)
    have hrest : ∀ a t, Extends s t → Fits L t → Typed L target.identifiers [a] t →
        Leads L t (do
          let b ← infer value
          assignmentType op a b target.span value.span)
          fun type u => Typed L (target.identifiers ++ value.identifiers) [type] u := by
      intro a t _ ht ha
      refine (leads_infer (fun v hv => he v (List.mem_append_right _ hv)) ht).bind
        fun b u htu hu hb => ?_
      refine (leads_assignmentType op target.span value.span hu (hb.built b (by simp))).imp
        fun c v huv hc => ?_
      exact ((ha.mono (htu.trans huv)).append (hb.mono huv)).make hc.1 hc.2
    have hinfer := leads_infer htarget hs
    rw [infer]
    cases hname : target.name? with
    | some name =>
      have hvs := identifiers_of_name? hname
      rw [hvs] at htarget hrest ⊢
      exact (leads_targetType hs (htarget name (List.mem_singleton_self name))).bind hrest
    | none => exact hinfer.bind hrest
  | .conditional condition whenTrue whenFalse _, he, s, hs => by
    rw [Expr.identifiers] at he ⊢
    simp only [List.mem_append] at he
    refine (leads_infer (fun v hv => he v (.inl hv)) hs).bind fun a t _ ht ha => ?_
    refine (leads_infer (fun v hv => he v (.inr (.inl hv))) ht).bind fun b u htu hu hb => ?_
    refine (leads_infer (fun v hv => he v (.inr (.inr hv))) hu).bind fun c v huv hv hc => ?_
    have hall := (ha.mono (htu.trans huv)).append ((hb.mono huv).append hc)
    match b, c with
    | some b, some c =>
      have hbuilt := (hb.built_of_some).join_pair hc.built_of_some
      exact .pure hv (hall.known hbuilt)
    | none, _ => exact .pure hv (hall.make nofun fun _ => by simp)
    | some _, none => exact .pure hv (hall.make nofun fun _ => by simp)
  | .call callee arguments span, he, s, hs => by
    rw [Expr.identifiers] at he ⊢
    have hcallee : ∀ v ∈ callee.identifiers, Sought L v := fun v hv =>
      he v (List.mem_append_left _ hv)
    have hrest : ∀ a t, Extends s t → Fits L t → Typed L callee.identifiers [a] t →
        Leads L t (do
          let _ ← inferAll arguments
          return a)
          fun type u => Typed L (callee.identifiers ++ Expr.identifiersAll arguments) [type] u := by
      intro a t _ ht ha
      refine (leads_inferAll (fun v hv => he v (List.mem_append_right _ hv)) ht).bind
        fun types u htu hu htypes => .pure hu ?_
      have hfirst := ha.built a (List.mem_singleton_self a)
      exact ((ha.mono htu).append htypes).make hfirst fun hnone => by simp [hnone]
    have hinfer := leads_infer hcallee hs
    rw [infer]
    cases hname : callee.name? with
    | some name =>
      have hvs := identifiers_of_name? hname
      rw [hvs] at hcallee hrest ⊢
      exact (leads_callNamed _ span hs (hcallee name (List.mem_singleton_self name))).bind hrest
    | none =>
      refine hinfer.bind fun a t hst ht ha => ?_
      match a with
      | some type =>
        have hresult := (leads_callResult type callee.span ht).bind fun result u htu hu hbuilt =>
          Leads.pure (Q := fun type u => Typed L callee.identifiers [type] u) (a := some result)
            hu ((ha.mono htu).known hbuilt)
        exact hresult.bind fun b u htu => hrest b u (hst.trans htu)
      | none => exact hrest none t hst ht ha
  | .property object name _, he, s, hs => by
    rw [Expr.identifiers] at he ⊢
    refine (leads_infer he hs).bind fun a t _ ht ha => ?_
    match a with
    | some type =>
      exact (leads_propertyType type name ht).bind fun _ u htu hu hresult =>
        .pure hu ((ha.mono htu).known hresult)
    | none => exact .pure ht ha
  | .element object index _, he, s, hs => by
    rw [Expr.identifiers] at he ⊢
    refine (leads_infer (fun v hv => he v (List.mem_append_left _ hv)) hs).bind
      fun a t _ ht ha => ?_
    refine (leads_infer (fun v hv => he v (List.mem_append_right _ hv)) ht).bind
      fun b u htu hu hb => .pure hu ?_
    refine ((ha.mono htu).append hb).make (fun ty hty => ?_) fun hnone => ?_
    · obtain ⟨object, rfl, rfl⟩ := Option.map_eq_some_iff.mp hty
      exact built_elementType ha.built_of_some
    · simp [Option.map_eq_none_iff.mp hnone]
  | .parenthesized inner _, he, s, hs => by
    rw [Expr.identifiers] at he ⊢
    rw [infer]
    exact leads_infer he hs
  | .array elements _, he, s, hs => by
    rw [Expr.identifiers] at he ⊢
    refine (leads_inferAll he hs).bind fun types t _ ht htypes => .pure ht ?_
    rcases mapM_id_cases types with ⟨tys, htys, hmem⟩ | ⟨hnone, hmem⟩
    · rw [htys]
      exact htypes.known (built_arrayOf fun ty hty => htypes.built _ (hmem ty hty) ty rfl)
    · rw [hnone]
      exact htypes.make nofun fun _ => hmem

theorem leads_inferAll : ∀ {es : List Expr}, (∀ v ∈ Expr.identifiersAll es, Sought L v) →
    ∀ {s : State}, Fits L s →
      Leads L s (inferAll es) fun types t => Typed L (Expr.identifiersAll es) types t
  | [], _, _, hs => .pure hs .nil
  | e :: es, he, s, hs => by
    rw [Expr.identifiersAll] at he ⊢
    refine (leads_infer (fun v hv => he v (List.mem_append_left _ hv)) hs).bind
      fun a t _ ht ha => ?_
    refine (leads_inferAll (fun v hv => he v (List.mem_append_right _ hv)) ht).bind
      fun types u htu hu htypes => ?_
    exact .pure hu ((ha.mono htu).append htypes)

end

end Check

end ScriptLint
