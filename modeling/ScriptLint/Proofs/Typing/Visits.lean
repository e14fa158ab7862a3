import ScriptLint.Proofs.Typing.Course
import ScriptLint.Proofs.Typing.Footprints
import ScriptLint.Typing.CheckedScript
/-!
# Every site is visited

The bodies of functions are walked over more than once, but all walks except
one are silent. So when the checker is done with a statement it has been aloud
at each of its sites, however deep: the names at the site that stand for
nothing are reported, and a variable has its type, or an error in its first
value says why not.

Key definitions: `Check.Done`, `Check.AllDone`.
Key theorems: `Check.leads_statement`, `Script.fits_checkedState`, `Script.allDone_checkedState`.
-/

namespace ScriptLint

/-! ### Written types -/

theorem TypeKeyword.built_toTy (word : TypeKeyword) : word.toTy.Built := by
  cases word with
  | object => exact .object "object"
  | _ => exact .basic (by simp [TypeKeyword.toTy, Ty.basics])

mutual

theorem TypeExpr.built_toTy : ∀ t : TypeExpr, t.toTy.Built
  | .keyword word _ => word.built_toTy
  | .literal value _ => .booleanLiteral value
  | .reference name => by
    rw [TypeExpr.toTy]
    split
    · exact .object name.name
    · exact .any
  | .array element _ => .array element.built_toTy
  | .union members _ => .join (TypeExpr.built_toTys members)

theorem TypeExpr.built_toTys : ∀ ts : List TypeExpr, ∀ ty ∈ TypeExpr.toTys ts, ty.Built
  | [] => nofun
  | t :: ts => fun ty hty => by
    rcases List.mem_cons.mp hty with rfl | hty
    · exact t.built_toTy
    · exact TypeExpr.built_toTys ts ty hty

end

mutual

/-- The unknown names of a type are the names in it that are not ambient. -/
theorem TypeExpr.unknownNames_eq : ∀ t : TypeExpr,
    t.unknownNames = t.references.filter fun v => !isAmbientType v.name
  | .keyword _ _ | .literal _ _ => rfl
  | .reference name => by
    rw [TypeExpr.unknownNames, TypeExpr.references]
    cases h : isAmbientType name.name <;> simp [h]
  | .array element _ => by
    rw [TypeExpr.unknownNames, TypeExpr.references, element.unknownNames_eq]
  | .union members _ => by
    rw [TypeExpr.unknownNames, TypeExpr.references, TypeExpr.unknownNamesAll_eq members]

theorem TypeExpr.unknownNamesAll_eq : ∀ ts : List TypeExpr, TypeExpr.unknownNamesAll ts
    = (TypeExpr.referencesAll ts).filter fun v => !isAmbientType v.name
  | [] => rfl
  | t :: ts => by
    rw [TypeExpr.unknownNamesAll, TypeExpr.referencesAll, List.filter_append, t.unknownNames_eq,
      TypeExpr.unknownNamesAll_eq ts]

end

namespace ScopeStack.Holds

variable {L : List Site} {x : ScopeStack}

theorem enter (h : x.Holds L) : x.enter.Holds L := by
  intro scope hscope n symbol hmem
  rcases List.mem_append.mp hscope with hscope | hscope
  · exact h scope hscope n symbol hmem
  · rw [List.mem_singleton.mp hscope] at hmem
    cases hmem

theorem exit (h : x.Holds L) : x.exit.Holds L := by
  intro scope hscope
  refine h scope ?_
  have hsub : x.exit.scopes ⊆ x.scopes := by
    show (if x.scopes.length ≤ 1 then x.scopes else x.scopes.dropLast) ⊆ x.scopes
    split
    · exact List.Subset.refl _
    · exact List.dropLast_subset _
  exact hsub hscope

theorem declare (h : x.Holds L) {n : String} {symbol : Symbol} (hn : Introduced L n)
    (hsymbol : symbol.type.Built) (i : Nat) : (x.declare i n symbol).Holds L := by
  intro scope hscope m other hmem
  obtain ⟨j, hj, rfl⟩ := List.mem_iff_getElem.mp hscope
  have hlength : j < x.scopes.length := by simpa [ScopeStack.declare] using hj
  have hold := h _ (List.getElem_mem hlength) m other
  simp only [ScopeStack.declare, List.getElem_modify] at hmem
  split at hmem
  · rcases List.mem_cons.mp hmem with heq | hmem
    · obtain ⟨rfl, rfl⟩ := Prod.mk.inj heq
      exact ⟨hn, hsymbol⟩
    · exact hold hmem
  · exact hold hmem

end ScopeStack.Holds

namespace Check

open Typing

variable {α β : Type} {L xs ys : List Site} {s t u : State}

/-! ### Sites that are done -/

/-- The variable has a type, or a name in its first value explains why it has none. -/
def Settled (d : Declarator) (s : State) : Prop :=
  (s.silent = false → ∃ type, (d.name.span.start, type) ∈ s.types) ∨
    (d.declaredType = none ∧ ∃ e, d.initializer = some e ∧ ∃ v ∈ e.identifiers, Excused v s)

/-- What has been found out about a site. -/
structure Done (L : List Site) (site : Site) (s : State) : Prop where
  identifiers : ∀ v ∈ site.identifiers, Unknown L v.name → Told 2304 v.span.start s
  references : ∀ v ∈ site.references, isAmbientType v.name = false → Told 2304 v.span.start s
  settled : ∀ x ∈ site.declared?, Settled x.2 s

/-- All of the sites are done. -/
def AllDone (L sites : List Site) (s : State) : Prop :=
  ∀ site ∈ sites, Done L site s

theorem Settled.mono {d : Declarator} (h : Settled d s) (hst : Extends s t) : Settled d t := by
  rcases h with h | ⟨htype, e, he, v, hv, hexcused⟩
  · refine .inl fun hloud => ?_
    obtain ⟨type, htype⟩ := h (hst.silent ▸ hloud)
    exact ⟨type, hst.types.subset htype⟩
  · exact .inr ⟨htype, e, he, v, hv, hexcused.imp (·.mono hst) (·.mono hst)⟩

theorem Done.mono {site : Site} (h : Done L site s) (hst : Extends s t) : Done L site t :=
  ⟨fun v hv hunknown => (h.identifiers v hv hunknown).mono hst,
    fun v hv hambient => (h.references v hv hambient).mono hst,
    fun x hx => (h.settled x hx).mono hst⟩

namespace AllDone

theorem nil : AllDone L [] s :=
  nofun

theorem mono (h : AllDone L xs s) (hst : Extends s t) : AllDone L xs t :=
  fun site hsite => (h site hsite).mono hst

theorem append (h : AllDone L xs s) (h' : AllDone L ys s) : AllDone L (xs ++ ys) s := by
  intro site hsite
  exact (List.mem_append.mp hsite).elim (h site) (h' site)

theorem single {site : Site} (h : Done L site s) : AllDone L [site] s := by
  intro other hother
  rwa [List.mem_singleton.mp hother]

end AllDone

/-- One step after the other, each with sites of its own. -/
theorem Leads.andThen {p : Check α} {q : α → Check β}
    (hp : Leads L s p fun _ t => AllDone L xs t)
    (hq : ∀ a t, Fits L t → Leads L t (q a) fun _ u => AllDone L ys u) :
    Leads L s (p >>= q) fun _ u => AllDone L (xs ++ ys) u :=
  hp.bind fun a t _ ht hxs => (hq a t ht).imp fun _ _ htu hys => (hxs.mono htu).append hys

/-- A step for each item of a list, each with sites of its own. -/
theorem leads_forM {γ : Type} {f : γ → Check Unit} {g : γ → List Site} {items : List γ}
    (h : ∀ item ∈ items, ∀ {s : State}, Fits L s →
      Leads L s (f item) fun _ t => AllDone L (g item) t) (hs : Fits L s) :
    Leads L s (items.forM f) fun _ t => AllDone L (items.flatMap g) t := by
  induction items generalizing s with
  | nil => exact .pure hs .nil
  | cons item items ih =>
    rw [List.flatMap_cons]
    refine (h item List.mem_cons_self hs).andThen fun _ t ht => ?_
    exact ih (fun other hother => h other (List.mem_cons_of_mem _ hother)) ht

/-! ### Scopes and frames -/

theorem Fits.withScopes (hs : Fits L s) {x : ScopeStack} (hx : x.Holds L) :
    Fits L { s with scopes := x } :=
  ⟨hx, hs.returns, hs.log, hs.distinct, hs.types, hs.recorded⟩

theorem leads_modifyScopes {f : ScopeStack → ScopeStack} (hs : Fits L s)
    (hf : (f s.scopes).Holds L) : Leads L s (modifyScopes f) fun _ _ => True :=
  .modify ⟨rfl, List.suffix_refl _, List.suffix_refl _⟩ (hs.withScopes hf) trivial

/-- What holds of a state holds of the states that extend it. -/
def Stable (Q : α → State → Prop) : Prop :=
  ∀ a s t, Extends s t → Q a s → Q a t

theorem stable_allDone : Stable fun (_ : α) s => AllDone L xs s :=
  fun _ _ _ hst h => h.mono hst

section Scopes

variable {p : Check α} {Q : α → State → Prop}

theorem Leads.inScope (hs : Fits L s) (hQ : Stable Q)
    (h : ∀ t, Fits L t → Leads L t p Q) : Leads L s (inScope p) Q := by
  refine (leads_modifyScopes hs hs.scopes.enter).bind fun _ t _ ht _ => ?_
  refine (h t ht).bind fun a u _ hu ha => ?_
  refine (leads_modifyScopes hu hu.scopes.exit).bind fun _ v huv hv _ => ?_
  exact .pure hv (hQ a u v huv ha)

theorem Leads.inFunctionScope (hs : Fits L s) (hQ : Stable Q)
    (h : ∀ t, Fits L t → Leads L t p Q) : Leads L s (inFunctionScope p) Q := by
  refine .get_bind ?_
  refine (leads_modifyScopes (f := ScopeStack.enterFunction) hs hs.scopes.enter).bind
    fun _ t _ ht _ => ?_
  refine (h t ht).bind fun a u _ hu ha => ?_
  refine (leads_modifyScopes (f := fun x => { x.exit with function := s.scopes.function }) hu
    hu.scopes.exit).bind fun _ v huv hv _ => ?_
  exact .pure hv (hQ a u v huv ha)

/-- The function's frame has the types that its `return` statements yield. -/
theorem Leads.inFrame {run : Check Unit} (declared : Option Ty) (hs : Fits L s)
    (h : ∀ t, Fits L t → Leads L t run fun _ u => AllDone L xs u) :
    Leads L s (inFrame declared run) fun frame t =>
      (∀ type ∈ frame.returns, type.Built) ∧ AllDone L xs t := by
  have hpushed : Fits L { s with frames := ⟨declared, []⟩ :: s.frames } := by
    refine ⟨hs.scopes, fun frame hframe => ?_, hs.log, hs.distinct, hs.types, hs.recorded⟩
    rcases List.mem_cons.mp hframe with rfl | hframe
    · simp
    · exact hs.returns frame hframe
  obtain ⟨hlater, hfits, hdone⟩ := h _ hpushed
  refine ⟨⟨hlater.silent, hlater.log, hlater.types⟩, ?_, ?_, ?_⟩
  · refine ⟨hfits.scopes, fun frame hframe => ?_, hfits.log, hfits.distinct, hfits.types,
      hfits.recorded⟩
    exact hfits.returns frame (List.mem_of_mem_tail hframe)
  · show ∀ type ∈ ((run _).2.frames.headD ⟨none, []⟩).returns, type.Built
    cases hframes : (run { s with frames := ⟨declared, []⟩ :: s.frames }).2.frames with
    | nil => simp
    | cons frame frames => exact hfits.returns frame (by rw [hframes]; exact List.mem_cons_self)
  · exact hdone.mono ⟨rfl, List.suffix_refl _, List.suffix_refl _⟩

/-- In silence nothing is told, but what is found is right. -/
theorem Leads.silently {P : α → Prop} (hs : Fits L s)
    (h : ∀ t, Fits L t → Leads L t p fun a _ => P a) :
    Leads L s (silently p) fun a _ => P a := by
  obtain ⟨hlater, hfits, hvalue⟩ :=
    h { s with silent := true } ⟨hs.scopes, hs.returns, hs.log, hs.distinct, hs.types, hs.recorded⟩
  exact ⟨⟨rfl, hlater.log, hlater.types⟩,
    ⟨hfits.scopes, hfits.returns, hfits.log, hfits.distinct, hfits.types, hfits.recorded⟩, hvalue⟩

end Scopes

theorem leads_addReturn {type : Ty} (hs : Fits L s) (htype : type.Built) :
    Leads L s (addReturn type) fun _ _ => True := by
  refine .modify ?_ ?_ trivial
  · split
    · exact ⟨rfl, List.suffix_refl _, List.suffix_refl _⟩
    · exact .refl s
  · split
    · rename_i frame frames hframes
      have hold := hs.returns
      rw [hframes] at hold
      refine ⟨hs.scopes, fun other hother => ?_, hs.log, hs.distinct, hs.types, hs.recorded⟩
      rcases List.mem_cons.mp hother with rfl | hother
      · intro ty hty
        rcases List.mem_append.mp hty with hty | hty
        · exact hold frame List.mem_cons_self ty hty
        · rwa [List.mem_singleton.mp hty]
      · exact hold other (List.mem_cons_of_mem _ hother)
    · exact hs

/-! ### Declarations -/

theorem leads_reportBoth {problem : TypeProblem} (existing : Symbol) (span : Span)
    (hs : Fits L s) (h : problem.code ≠ 2304) :
    Leads L s (reportBoth problem existing span) fun _ _ => True :=
  (leads_remark hs h).bind fun _ _ _ ht _ => leads_remark ht h

theorem leads_declareNew {n : String} {symbol : Symbol} (i : Nat) (hs : Fits L s)
    (hn : Introduced L n) (hsymbol : symbol.type.Built) :
    Leads L s (declareNew i n symbol) fun _ _ => True := by
  cases hfind : s.scopes.find? i n with
  | some existing =>
    have hrun := declareNew_of_some hfind symbol
    exact ⟨by rw [hrun]; exact .refl s, by rwa [hrun], trivial⟩
  | none =>
    have hrun := declareNew_of_none hfind symbol
    refine ⟨?_, ?_, trivial⟩
    · rw [hrun]
      exact ⟨rfl, List.suffix_refl _, List.suffix_refl _⟩
    · rw [hrun]
      exact hs.withScopes (hs.scopes.declare hn hsymbol i)

theorem leads_declareVariable (kind : DeclKind) {name : Ident} {type : Ty} (hs : Fits L s)
    (hn : Introduced L name.name) (htype : type.Built) :
    Leads L s (declareVariable kind name type) fun _ _ => True := by
  have hsymbol : (Symbol.value type (some kind) name.span).type.Built := htype
  refine .get_bind ((leads_declareNew _ hs hn hsymbol).bind fun found t _ ht _ => ?_)
  match found with
  | none => exact .pure ht trivial
  | some (.function _ _ _) => exact leads_reportBoth _ _ ht (by simp [TypeProblem.code])
  | some (.value _ existingKind _) =>
    show Leads L t (if _ then _ else _) _
    split
    · exact leads_modifyScopes ht (ht.scopes.declare hn hsymbol _)
    · split
      · exact leads_reportBoth _ _ ht (by simp [TypeProblem.code])
      · exact leads_reportBoth _ _ ht (by simp [TypeProblem.code])

/-- The written type, and its unknown names are reported. -/
theorem leads_resolve {type : TypeExpr} (hs : Fits L s)
    (h : ∀ v ∈ type.references, isAmbientType v.name = false → Sought L v) :
    Leads L s (resolve type) fun ty t => ty = type.toTy ∧
      ∀ v ∈ type.references, isAmbientType v.name = false → Told 2304 v.span.start t := by
  have hnames : ∀ (names : List Ident) {s : State}, Fits L s → (∀ v ∈ names, Sought L v) →
      Leads L s (names.forM fun v => report (.unknownName v.name) v.span)
        fun _ t => ∀ v ∈ names, Told 2304 v.span.start t := by
    intro names
    induction names with
    | nil => exact fun hs _ => .pure hs nofun
    | cons name names ih =>
      intro s hs hsought
      have hname := hsought name List.mem_cons_self
      refine (leads_report hs fun _ => ⟨name, hname, rfl, rfl⟩).bind fun _ t _ ht htold => ?_
      refine (ih ht fun v hv => hsought v (List.mem_cons_of_mem _ hv)).imp
        fun _ u htu hrest v hv => ?_
      rcases List.mem_cons.mp hv with rfl | hv
      · exact htold.mono htu
      · exact hrest v hv
  refine (hnames type.unknownNames hs fun v hv => ?_).bind fun _ t _ ht htold => ?_
  · rw [type.unknownNames_eq, List.mem_filter, Bool.not_eq_true'] at hv
    exact h v hv.1 hv.2
  · refine .pure ht ⟨rfl, fun v hv hambient => htold v ?_⟩
    rw [type.unknownNames_eq]
    exact List.mem_filter.mpr ⟨hv, by rw [hambient]; rfl⟩

theorem leads_resolve? {site : Site} (hs : Fits L s) (hsite : site ∈ L) :
    Leads L s (resolve? site.type?) fun ty t => ty = site.type?.map TypeExpr.toTy ∧
      ∀ v ∈ site.references, isAmbientType v.name = false → Told 2304 v.span.start t := by
  have hsought : ∀ v ∈ site.references, isAmbientType v.name = false → Sought L v :=
    fun v hv hambient => ⟨site, hsite, .inr ⟨hv, hambient⟩⟩
  unfold Site.references at hsought ⊢
  cases htype : site.type? with
  | none => exact .pure hs ⟨rfl, nofun⟩
  | some type =>
    rw [htype] at hsought
    simp only [Option.toList_some, List.flatMap_cons, List.flatMap_nil, List.append_nil]
      at hsought ⊢
    refine (leads_resolve hs hsought).bind fun ty t _ ht hty => .pure ht ⟨?_, hty.2⟩
    rw [hty.1]
    rfl

theorem leads_firstValue {site : Site} (hs : Fits L s) (hsite : site ∈ L) :
    Leads L s (firstValue site.expression?) fun initial t =>
      (initial = none ↔ site.expression? = none) ∧ Typed L site.identifiers initial.toList t := by
  have hsought : ∀ v ∈ site.identifiers, Sought L v := fun v hv => ⟨site, hsite, .inl hv⟩
  unfold Site.identifiers at hsought ⊢
  cases hvalue : site.expression? with
  | none => exact .pure hs ⟨⟨fun _ => rfl, fun _ => rfl⟩, .nil⟩
  | some e =>
    rw [hvalue] at hsought
    simp only [Option.toList_some, List.flatMap_cons, List.flatMap_nil, List.append_nil]
      at hsought ⊢
    exact (leads_infer hsought hs).bind fun type t _ ht htype => .pure ht ⟨by simp, htype⟩

theorem leads_variableType (kind : DeclKind) (name : Ident) {declared : Option Ty}
    {initial : Option (Option Ty)} (hs : Fits L s) (hdeclared : ∀ ty ∈ declared, ty.Built)
    (hinitial : ∀ type ∈ initial, ∀ ty ∈ type, ty.Built) :
    Leads L s (variableType kind name declared initial) fun type _ =>
      (∀ ty ∈ type, ty.Built ∧ (declared = none → kind ≠ .constKind → ty.LiteralFree)) ∧
        (type = none → declared = none ∧ initial = some none) := by
  unfold variableType
  split
  next declared initial =>
    have hcode : (TypeProblem.notAssignable initial declared).code ≠ 2304 := by
      simp [TypeProblem.code]
    exact leads_remark_if hs hcode fun t _ ht => .pure ht (by simpa using hdeclared)
  next declared _ => exact .pure hs (by simpa using hdeclared)
  next initial =>
    have hbuilt := hinitial (some initial) rfl initial rfl
    refine .pure hs ⟨fun ty hty => ?_, by simp⟩
    rw [← Option.some.inj hty]
    split
    · exact ⟨hbuilt, fun _ hkind => absurd ‹kind = .constKind› hkind⟩
    · exact ⟨hbuilt.widened, fun _ _ => hbuilt.literalFree_widened⟩
  next => exact .pure hs (by simp)
  next =>
    refine .pure hs ⟨fun ty hty => ?_, by simp⟩
    rw [← Option.some.inj hty]
    have hfree : Ty.any.LiteralFree := by
      show ∀ m ∈ Ty.any.members, m.flags.intersects Flags.literal = false
      decide
    exact ⟨.any, fun _ _ => hfree⟩

theorem leads_record {kind : DeclKind} {d : Declarator} {type : Ty} (hs : Fits L s)
    (hd : .declarator kind d ∈ L) (hbuilt : type.Built)
    (htype : d.declaredType = none → kind ≠ .constKind → type.LiteralFree) :
    Leads L s (modify (State.record d.name.span.start type)) fun _ t =>
      t.silent = false → ∃ type, (d.name.span.start, type) ∈ t.types := by
  suffices hrecord : Extends s (s.record d.name.span.start type) ∧
      Fits L (s.record d.name.span.start type) ∧
      ((s.record d.name.span.start type).silent = false →
        ∃ type', (d.name.span.start, type') ∈ (s.record d.name.span.start type).types) from
    .modify hrecord.1 hrecord.2.1 hrecord.2.2
  unfold State.record
  split
  · rename_i hsilent
    exact ⟨.refl s, hs, fun hloud => absurd hsilent (by simp [hloud])⟩
  · refine ⟨⟨rfl, List.suffix_refl _, List.suffix_cons _ _⟩, ?_,
      fun _ => ⟨type, List.mem_cons_self⟩⟩
    refine ⟨hs.scopes, hs.returns, hs.log, hs.distinct, fun entry hentry => ?_,
      fun entry hentry => ?_⟩
    · rcases List.mem_cons.mp hentry with rfl | hentry
      · exact ⟨kind, d, hd, rfl, htype⟩
      · exact hs.types entry hentry
    · rcases List.mem_cons.mp hentry with rfl | hentry
      · exact hbuilt
      · exact hs.recorded entry hentry

/-- Behind the declaration of a variable its site is done. -/
theorem leads_declarator {kind : DeclKind} {d : Declarator} (hs : Fits L s)
    (hd : .declarator kind d ∈ L) :
    Leads L s (declarator kind d) fun _ t => AllDone L [.declarator kind d] t := by
  have hn : Introduced L d.name.name := ⟨_, hd, d.name, rfl, rfl⟩
  rw [declarator_eq]
  refine (leads_resolve? hs hd).bind fun declared t _ ht hdeclared => ?_
  refine (leads_firstValue ht hd).bind fun initial u htu hu hinitial => ?_
  have hnone : declared = none ↔ d.declaredType = none := by
    rw [hdeclared.1]
    exact Option.map_eq_none_iff
  refine (leads_variableType kind d.name hu (fun ty hty => ?_) fun type htype => ?_).bind
    fun type v huv hv htype => ?_
  · rw [hdeclared.1] at hty
    obtain ⟨written, -, rfl⟩ := Option.map_eq_some_iff.mp hty
    exact written.built_toTy
  · exact hinitial.2.built type (Option.mem_toList.mpr htype)
  -- what is known of the site but for the type of the variable
  have hsite : ∀ w, Extends v w → Settled d w → AllDone L [.declarator kind d] w := by
    intro w hvw hsettled
    refine .single ⟨fun x hx hunknown => ?_, fun x hx hambient => ?_, fun x hx => ?_⟩
    · exact (hinitial.2.told x hx hunknown).mono (huv.trans hvw)
    · exact (hdeclared.2 x hx hambient).mono (htu.trans (huv.trans hvw))
    · rw [← Option.some.inj hx]
      exact hsettled
  match type, htype with
  | some type, htype =>
    obtain ⟨hbuilt, hfree⟩ := htype.1 type rfl
    refine (leads_record hv hd hbuilt fun h => hfree (hnone.mpr h)).bind
      fun _ w hvw hw hrecorded => ?_
    exact (leads_declareVariable kind hw hn hbuilt).imp fun _ z hwz _ =>
      hsite z (hvw.trans hwz) (Settled.mono (.inl hrecorded) hwz)
  | none, htype =>
    obtain ⟨hundeclared, rfl⟩ := htype.2 rfl
    obtain ⟨x, hx, hexcused⟩ := (hinitial.2.mono huv).excused (by simp)
    have hsettled : Settled d v := by
      cases hvalue : d.initializer with
      | none => exact absurd (hinitial.1.mpr hvalue) (by simp)
      | some e =>
        refine .inr ⟨hnone.mp hundeclared, e, hvalue, x, ?_, hexcused⟩
        simpa [Site.identifiers, Site.expression?, hvalue] using hx
    exact (leads_declareVariable kind hv hn .any).imp fun _ w hvw _ =>
      hsite w hvw (hsettled.mono hvw)

theorem leads_declaration {d : Declaration} (hd : ∀ site ∈ d.sites, site ∈ L) (hs : Fits L s) :
    Leads L s (declaration d) fun _ t => AllDone L d.sites t := by
  have hsites : d.sites = d.declarators.flatMap fun v => [Site.declarator d.kind v] := by
    rw [Declaration.sites, List.map_eq_flatMap]
  rw [hsites]
  refine leads_forM (fun v hv s hs => leads_declarator hs (hd _ ?_)) hs
  exact List.mem_map_of_mem hv

/-- A name is declared in the innermost scope, and a conflict is reported. -/
theorem leads_declareNew_current {n : String} {symbol : Symbol} {conflict : Symbol → Check Unit}
    (hs : Fits L s) (hn : Introduced L n) (hsymbol : symbol.type.Built)
    (h : ∀ existing t, Fits L t → Leads L t (conflict existing) fun _ _ => True) :
    Leads L s (do
      match ← declareNew (← get).scopes.current n symbol with
      | none => pure ()
      | some existing => conflict existing) fun _ _ => True := by
  refine .get_bind ((leads_declareNew _ hs hn hsymbol).bind fun found t _ ht _ => ?_)
  cases found with
  | none => exact .pure ht trivial
  | some existing => exact h existing t ht

theorem leads_declareParameter {p : Parameter} (hs : Fits L s) (hp : .parameter p ∈ L) :
    Leads L s (declareParameter p) fun _ t => AllDone L [.parameter p] t := by
  refine (leads_resolve? hs hp).bind fun type t _ ht htype => ?_
  have hbuilt : (type.getD Ty.any).Built := by
    rw [htype.1]
    show ((p.declaredType.map TypeExpr.toTy).getD Ty.any).Built
    cases p.declaredType with
    | none => exact .any
    | some written => exact written.built_toTy
  suffices hdeclare : Leads L t _ fun _ _ => True from hdeclare.imp fun _ u htu _ =>
    .single ⟨nofun, fun v hv hambient => (htype.2 v hv hambient).mono htu, nofun⟩
  refine leads_declareNew_current ht ⟨_, hp, p.name, rfl, rfl⟩ ?_ fun existing u hu => ?_
  · exact hbuilt
  · exact leads_reportBoth existing p.name.span hu (by simp [TypeProblem.code])

theorem leads_declareFunction {f : Signature} (hs : Fits L s) (hf : .signature f ∈ L) :
    Leads L s (declareFunction f) fun _ _ => True := by
  refine leads_declareNew_current hs ⟨_, hf, f.name, rfl, rfl⟩ ?_ fun existing t ht => ?_
  · show ((f.returnType.map TypeExpr.toTy).getD Ty.any).Built
    cases f.returnType with
    | none => exact .any
    | some written => exact written.built_toTy
  · cases existing with
    | value _ _ _ => exact leads_reportBoth _ _ ht (by simp [TypeProblem.code])
    | function _ _ _ => exact leads_reportBoth _ _ ht (by simp [TypeProblem.code])

theorem mem_sites_of_function {f : Signature} {body : List Stmt} {bodySpan span : Span} :
    .signature f ∈ (Stmt.function f body bodySpan span).sites := by
  rw [Stmt.sites, Signature.sites]
  simp

theorem leads_declareFunctions : ∀ {ss : List Stmt}, (∀ site ∈ Stmt.sitesAll ss, site ∈ L) →
    ∀ {s : State}, Fits L s → Leads L s (declareFunctions ss) fun _ _ => True
  | [], _, _, hs => .pure hs trivial
  | stmt :: ss, hL, s, hs => by
    rw [Stmt.sitesAll] at hL
    have hrest := fun {s : State} (hs : Fits L s) =>
      leads_declareFunctions (fun site hsite => hL site (List.mem_append_right _ hsite)) hs
    cases stmt with
    | function f body bodySpan span =>
      have hf := hL _ (List.mem_append_left _ mem_sites_of_function)
      exact (leads_declareFunction hs hf).bind fun _ t _ ht _ => hrest ht
    | _ => exact hrest hs

/-! ### Functions and statements -/

theorem built_returnedType {types : List Ty} (h : ∀ ty ∈ types, ty.Built) :
    (returnedType types).Built := by
  unfold returnedType
  split
  · exact .void
  · exact .join_widened h

theorem leads_functionBody {f : Signature} {run : Check Unit} (declared : Option Ty)
    (hf : ∀ p ∈ f.parameters, .parameter p ∈ L)
    (hrun : ∀ t, Fits L t → Leads L t run fun _ u => AllDone L xs u) (hs : Fits L s) :
    Leads L s (functionBody f declared run) fun type t =>
      type.Built ∧ AllDone L (f.parameters.map .parameter ++ xs) t := by
  have hparameters : ∀ t, Fits L t → Leads L t (f.parameters.forM declareParameter)
      fun _ u => AllDone L (f.parameters.map .parameter) u := by
    intro t ht
    rw [List.map_eq_flatMap]
    exact leads_forM (fun p hp s hs => leads_declareParameter hs (hf p hp)) ht
  have hbody : Leads L s (inFunctionScope do
      f.parameters.forM declareParameter
      inFrame declared run) fun frame t => (∀ type ∈ frame.returns, type.Built) ∧
        AllDone L (f.parameters.map .parameter ++ xs) t := by
    refine .inFunctionScope hs (fun _ _ _ hst h => ⟨h.1, h.2.mono hst⟩) fun t ht => ?_
    refine (hparameters t ht).bind fun _ u _ hu hdone => ?_
    exact (Leads.inFrame declared hu hrun).imp fun frame v huv hframe =>
      ⟨hframe.1, (hdone.mono huv).append hframe.2⟩
  refine hbody.bind fun frame t _ ht hframe => ?_
  have hreturned := built_returnedType hframe.1
  cases f.returnType with
  | none => exact .pure ht ⟨hreturned, hframe.2⟩
  | some type =>
    exact leads_remark_if ht (by decide) fun u htu hu => .pure hu ⟨hreturned, hframe.2.mono htu⟩

/-- Behind an expression its site is done. -/
theorem leads_value {e : Expr} (hs : Fits L s) (he : .expression e ∈ L) :
    Leads L s (infer e) fun type t => (∀ ty ∈ type, ty.Built) ∧ AllDone L [.expression e] t := by
  have hnames : Site.identifiers (.expression e) = e.identifiers := by
    simp [Site.identifiers, Site.expression?]
  have hsought : ∀ v ∈ e.identifiers, Sought L v := fun v hv =>
    ⟨_, he, .inl (by rwa [hnames])⟩
  refine (leads_infer hsought hs).imp fun type t _ htyped => ?_
  refine ⟨htyped.built type (List.mem_singleton_self type), .single ⟨fun v hv => ?_, ?_, ?_⟩⟩
  · rw [hnames] at hv
    exact htyped.told v hv
  · simp [Site.references, Site.type?]
  · simp [Site.declared?]

theorem leads_expression {e : Expr} (hs : Fits L s) (he : .expression e ∈ L) :
    Leads L s (expression e) fun _ t => AllDone L [.expression e] t :=
  (leads_value hs he).bind fun _ _ _ ht h => .pure ht h.2

theorem leads_expression? {e : Option Expr} (he : ∀ site ∈ e.toList.map Site.expression, site ∈ L)
    (hs : Fits L s) :
    Leads L s (expression? e) fun _ t => AllDone L (e.toList.map .expression) t := by
  cases e with
  | none => exact .pure hs .nil
  | some e => exact leads_expression hs (he _ (by simp))

theorem leads_forStart {start : Option ForStart}
    (h : ∀ site ∈ start.toList.flatMap ForStart.sites, site ∈ L) (hs : Fits L s) :
    Leads L s (forStart start) fun _ t => AllDone L (start.toList.flatMap ForStart.sites) t := by
  match start with
  | none => exact .pure hs .nil
  | some (.declaration d) =>
    simp only [Option.toList_some, List.flatMap_cons, List.flatMap_nil, List.append_nil,
      ForStart.sites] at h ⊢
    exact leads_declaration h hs
  | some (.expression e) => exact leads_expression hs (h _ (by simp [ForStart.sites]))

theorem leads_returnValue {value : Option Expr} (span : Span)
    (h : ∀ site ∈ value.toList.map Site.expression, site ∈ L) (hs : Fits L s) :
    Leads L s (returnValue value span) fun _ t => AllDone L (value.toList.map .expression) t := by
  have hvalue : Leads L s (valueType value) fun type t =>
      (∀ ty ∈ type, ty.Built) ∧ AllDone L (value.toList.map .expression) t := by
    cases value with
    | none => exact .pure hs ⟨by simpa using .void, .nil⟩
    | some e => exact leads_value hs (h _ (by simp))
  rw [returnValue_eq]
  refine hvalue.bind fun type t _ ht htype => ?_
  suffices hyield : Leads L t (yieldValue value span type) fun _ _ => True from
    hyield.imp fun _ u htu _ => htype.2.mono htu
  have hreturn : ∀ u, Fits L u → Leads L u (addReturn (type.getD Ty.any)) fun _ _ => True := by
    intro u hu
    refine leads_addReturn hu ?_
    cases type with
    | none => exact .any
    | some type => exact htype.1 type rfl
  refine .get_bind ?_
  split
  · exact leads_remark ht (by decide)
  · split
    · exact leads_remark_if ht (by simp [TypeProblem.code]) fun u _ hu => hreturn u hu
    · exact hreturn t ht

mutual

/-- **Behind a statement all of its sites are done.** -/
theorem leads_statement : ∀ {stmt : Stmt}, (∀ site ∈ stmt.sites, site ∈ L) →
    ∀ {s : State}, Fits L s → Leads L s (statement stmt) fun _ t => AllDone L stmt.sites t
  | .variables d _, hL, s, hs => leads_declaration hL hs
  | .function f body _ _, hL, s, hs => by
    rw [Stmt.sites, Signature.sites] at hL ⊢
    simp only [List.mem_append, List.mem_map, List.mem_singleton] at hL
    refine (leads_resolve? hs (hL (.signature f) (.inl (.inr rfl)))).bind
      fun declared t _ ht hdeclared => ?_
    have hbody := leads_functionBody (f := f) declared
      (fun p hp => hL _ (.inl (.inl ⟨p, hp, rfl⟩)))
      (fun u hu => leads_together (fun site hsite => hL site (.inr hsite)) hu) ht
    refine hbody.bind fun _ u htu hu hdone => .pure hu ?_
    have hsignature : Done L (.signature f) u :=
      ⟨nofun, fun v hv hambient => (hdeclared.2 v hv hambient).mono htu, nofun⟩
    intro site hsite
    simp only [List.mem_append, List.mem_singleton] at hsite
    rcases hsite with (hparameter | rfl) | hinner
    · exact hdone.2 site (List.mem_append_left _ hparameter)
    · exact hsignature
    · exact hdone.2 site (List.mem_append_right _ hinner)
  | .block body _, hL, s, hs => by
    rw [Stmt.sites] at hL ⊢
    exact .inScope hs stable_allDone fun t ht => leads_together hL ht
  | .ifThen c stmt _, hL, s, hs | .whileLoop c stmt _, hL, s, hs => by
    rw [Stmt.sites] at hL ⊢
    refine (leads_expression hs (hL _ List.mem_cons_self)).andThen fun _ t ht => ?_
    exact leads_statement (fun site hsite => hL site (List.mem_cons_of_mem _ hsite)) ht
  | .ifElse c stmt stmt' _, hL, s, hs => by
    rw [Stmt.sites] at hL ⊢
    simp only [List.mem_cons, List.mem_append] at hL
    refine (leads_expression hs (hL _ (.inl rfl))).andThen fun _ t ht => ?_
    refine (leads_statement (fun site hsite => hL site (.inr (.inl hsite))) ht).andThen
      fun _ u hu => ?_
    exact leads_statement (fun site hsite => hL site (.inr (.inr hsite))) hu
  | .forLoop start c update stmt _, hL, s, hs => by
    rw [Stmt.sites] at hL ⊢
    simp only [List.mem_append] at hL
    refine .inScope hs stable_allDone fun t ht => ?_
    refine (leads_forStart (fun site hsite => hL site (.inl hsite)) ht).andThen fun _ u hu => ?_
    refine (leads_expression? (fun site hsite => hL site (.inr (.inl hsite))) hu).andThen
      fun _ v hv => ?_
    refine (leads_expression? (fun site hsite => hL site (.inr (.inr (.inl hsite)))) hv).andThen
      fun _ w hw => ?_
    exact leads_statement (fun site hsite => hL site (.inr (.inr (.inr hsite)))) hw
  | .returns value span, hL, s, hs => leads_returnValue span hL hs
  | .expression e _, hL, s, hs => leads_expression hs (hL _ (List.mem_singleton_self _))

theorem leads_together : ∀ {body : List Stmt}, (∀ site ∈ Stmt.sitesAll body, site ∈ L) →
    ∀ {s : State}, Fits L s → Leads L s (together body (inferFunctions body) (statements body))
      fun _ t => AllDone L (Stmt.sitesAll body) t
  | body, hL, s, hs => by
    refine (leads_declareFunctions hL hs).bind fun _ t _ ht _ => ?_
    refine (leads_inferFunctions hL ht).bind fun _ u _ hu _ => ?_
    exact leads_statements hL hu

theorem leads_statements : ∀ {ss : List Stmt}, (∀ site ∈ Stmt.sitesAll ss, site ∈ L) →
    ∀ {s : State}, Fits L s → Leads L s (statements ss) fun _ t => AllDone L (Stmt.sitesAll ss) t
  | [], _, _, hs => .pure hs .nil
  | stmt :: ss, hL, s, hs => by
    rw [Stmt.sitesAll] at hL ⊢
    refine (leads_statement (fun site hsite => hL site (List.mem_append_left _ hsite)) hs).andThen
      fun _ t ht => ?_
    exact leads_statements (fun site hsite => hL site (List.mem_append_right _ hsite)) ht

/-- A function that is tried out may get another result. -/
theorem leads_inferFunction : ∀ {stmt : Stmt}, (∀ site ∈ stmt.sites, site ∈ L) →
    ∀ {s : State}, Fits L s → Leads L s (inferFunction stmt) fun _ _ => True
  | .function f body bodySpan span, hL, s, hs => by
    have hf := hL _ mem_sites_of_function
    rw [Stmt.sites, Signature.sites] at hL
    simp only [List.mem_append, List.mem_map, List.mem_singleton] at hL
    rw [inferFunction]
    cases f.returnType with
    | some _ => exact .pure hs trivial
    | none =>
      have hbody : ∀ t, Fits L t → Leads L t (functionBody f none
          (together body (inferFunctions body) (statements body))) fun type _ => type.Built := by
        intro t ht
        have hfunction := leads_functionBody none (fun p hp => hL _ (.inl (.inl ⟨p, hp, rfl⟩)))
          (fun u hu => leads_together (fun site hsite => hL site (.inr hsite)) hu) ht
        exact hfunction.imp fun _ _ _ h => h.1
      refine (Leads.silently hs hbody).bind fun result t _ ht hresult => .get_bind ?_
      have hsymbol : (functionSymbol f result).type.Built := hresult
      exact leads_modifyScopes ht (ht.scopes.declare ⟨_, hf, f.name, rfl, rfl⟩ hsymbol _)
  | .variables _ _, _, _, hs => .pure hs trivial
  | .block _ _, _, _, hs => .pure hs trivial
  | .ifThen _ _ _, _, _, hs => .pure hs trivial
  | .ifElse _ _ _ _, _, _, hs => .pure hs trivial
  | .whileLoop _ _ _, _, _, hs => .pure hs trivial
  | .forLoop _ _ _ _ _, _, _, hs => .pure hs trivial
  | .returns _ _, _, _, hs => .pure hs trivial
  | .expression _ _, _, _, hs => .pure hs trivial

theorem leads_inferFunctions : ∀ {ss : List Stmt}, (∀ site ∈ Stmt.sitesAll ss, site ∈ L) →
    ∀ {s : State}, Fits L s → Leads L s (inferFunctions ss) fun _ _ => True
  | [], _, _, hs => .pure hs trivial
  | stmt :: ss, hL, s, hs => by
    rw [Stmt.sitesAll] at hL
    refine (leads_inferFunction (fun site hsite => hL site (List.mem_append_left _ hsite)) hs).bind
      fun _ t _ ht _ => ?_
    exact leads_inferFunctions (fun site hsite => hL site (List.mem_append_right _ hsite)) ht

end

end Check

/-! ### Whole scripts -/

namespace Script

open Check Typing

theorem leads_body (script : Script) :
    Leads script.sites State.initial (Check.body script.body)
      fun _ t => AllDone script.sites script.sites t := by
  have hinitial : Fits script.sites State.initial := by
    refine ⟨fun scope hscope n symbol hmem => ?_, nofun, nofun, .nil, nofun, nofun⟩
    rw [List.mem_singleton.mp hscope] at hmem
    cases hmem
  exact leads_together (fun _ hsite => hsite) hinitial

/-- **At the end of a check the errors and the types are those of the sites.** -/
theorem fits_checkedState (script : Script) : Fits script.sites script.checkedState :=
  script.leads_body.fits

/-- **At the end of a check every site of the script is done.** -/
theorem allDone_checkedState (script : Script) :
    AllDone script.sites script.sites script.checkedState :=
  script.leads_body.holds

theorem silent_checkedState (script : Script) : script.checkedState.silent = false :=
  script.leads_body.later.silent

/-- **No two errors of the checker have one number and one start.** -/
theorem distinct_diagnostics (script : Script) : script.check.diagnostics.Pairwise fun d d' =>
    ¬(d.code = d'.code ∧ d.span.start = d'.span.start) := by
  refine List.pairwise_map.mpr (List.pairwise_reverse.mpr ?_)
  refine script.fits_checkedState.distinct.imp fun {e e'} hne hsame => ?_
  rw [sameAs_iff.mpr ⟨hsame.1.symm, hsame.2.symm⟩] at hne
  cases hne

theorem mem_diagnostics {script : Script} {d : Diagnostic} : d ∈ script.check.diagnostics ↔
    ∃ e ∈ script.checkedState.log, e.toDiagnostic script.name = d := by
  simp [Script.check, State.errors]

theorem nodup_spans_of_code (script : Script) (code : Nat) :
    ((script.check.diagnostics.filter (·.code = code)).map Diagnostic.span).Nodup := by
  refine List.pairwise_map.mpr (List.pairwise_filter.mpr ?_)
  refine script.distinct_diagnostics.imp fun {d d'} hne hd hd' hspan => hne ⟨?_, by rw [hspan]⟩
  rw [of_decide_eq_true hd, of_decide_eq_true hd']

end Script

end ScriptLint
