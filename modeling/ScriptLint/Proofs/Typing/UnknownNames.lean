import Mathlib.Data.List.Nodup
import Mathlib.Data.List.Perm.Basic
import ScriptLint.Proofs.Parsing.Positions
import ScriptLint.Proofs.Typing.Visits
/-!
# Unknown names

A name that is neither a global nor introduced anywhere in a script stands for
nothing wherever it is used, so it is reported at each of its uses: once as an
expression, at any depth, and once as a type, unless every script can name that
type. It is reported nowhere else, since an error about an unknown name stands
at a use of that name, and no two uses start at one place.

Key definitions: `Script.uses`, `CheckedScript.unknownAt`.
Key theorems: `Script.unknownAt_perm_uses`.
-/

namespace ScriptLint

/-- The places at which the findings of a check tell that a name stands for nothing. -/
def CheckedScript.unknownAt (checked : CheckedScript) (x : String) : List Nat :=
  (checked.diagnostics.filter fun d =>
    d.code = 2304 ∧ d.message = "Cannot find name '" ++ x ++ "'.").map fun d => d.span.start

namespace Script

open Check

/-- The places at which a name is used as an expression, or as a type that is not ambient. -/
def uses (script : Script) (x : String) : List Nat :=
  ((script.identifiers ++ if isAmbientType x then [] else script.references).filter
    fun v => v.name = x).map fun v => v.span.start

/-- The uses of a name are the names that the checker has to look up. -/
theorem mem_uses {script : Script} {x : String} {n : Nat} :
    n ∈ script.uses x ↔ ∃ v, Sought script.sites v ∧ v.name = x ∧ v.span.start = n := by
  have hsought : ∀ v : Ident, v.name = x →
      (v ∈ script.identifiers ++ (if isAmbientType x then [] else script.references) ↔
        Sought script.sites v) := by
    rintro v rfl
    rw [List.mem_append, identifiers, references, List.mem_flatMap]
    constructor
    · rintro (⟨site, hsite, hv⟩ | hv)
      · exact ⟨site, hsite, .inl hv⟩
      · split at hv
        · cases hv
        · rename_i hambient
          obtain ⟨site, hsite, hv⟩ := List.mem_flatMap.mp hv
          exact ⟨site, hsite, .inr ⟨hv, Bool.eq_false_iff.mpr hambient⟩⟩
    · rintro ⟨site, hsite, hv | ⟨hv, hambient⟩⟩
      · exact .inl ⟨site, hsite, hv⟩
      · rw [hambient]
        exact .inr (List.mem_flatMap.mpr ⟨site, hsite, hv⟩)
  unfold uses
  simp only [List.mem_map, List.mem_filter, decide_eq_true_eq]
  constructor
  · rintro ⟨v, ⟨hv, hname⟩, hn⟩
    exact ⟨v, (hsought v hname).mp hv, hname, hn⟩
  · rintro ⟨v, hv, hname, hn⟩
    exact ⟨v, ⟨(hsought v hname).mpr hv, hname⟩, hn⟩

/-- An error about an unknown name stands at a use of the name that its message tells. -/
theorem exists_sought_of_unknownName {script : Script} {d : Diagnostic}
    (hd : d ∈ script.check.diagnostics) (hcode : d.code = 2304) :
    ∃ v, Sought script.sites v ∧ d.span = v.span ∧
      d.message = "Cannot find name '" ++ v.name ++ "'." := by
  obtain ⟨e, he, rfl⟩ := List.mem_map.mp hd
  obtain ⟨v, hv, rfl⟩ := script.fits_checkedState.log e (List.mem_reverse.mp he) hcode
  exact ⟨v, hv, rfl, rfl⟩

theorem mem_unknownAt {script : Script} {x : String} {n : Nat} :
    n ∈ script.check.unknownAt x ↔
      ∃ e ∈ script.checkedState.log, e.problem = .unknownName x ∧ e.span.start = n := by
  unfold CheckedScript.unknownAt
  simp only [List.mem_map, List.mem_filter, decide_eq_true_eq]
  constructor
  · rintro ⟨d, ⟨hd, hcode, hmessage⟩, rfl⟩
    obtain ⟨e, he, rfl⟩ := List.mem_map.mp hd
    have he := List.mem_reverse.mp he
    obtain ⟨v, -, rfl⟩ := script.fits_checkedState.log e he hcode
    have hname : v.name = x := by
      have hmessage : "Cannot find name '" ++ v.name ++ "'." = "Cannot find name '" ++ x ++ "'." :=
        hmessage
      simpa using hmessage
    exact ⟨_, he, by rw [hname], rfl⟩
  · rintro ⟨e, he, hproblem, rfl⟩
    refine ⟨e.toDiagnostic script.name, ⟨?_, ?_, ?_⟩, rfl⟩
    · exact List.mem_map_of_mem (List.mem_reverse.mpr he)
    · rw [TypeError.toDiagnostic, hproblem]
      rfl
    · rw [TypeError.toDiagnostic, hproblem]
      rfl

theorem nodup_unknownAt (script : Script) (x : String) : (script.check.unknownAt x).Nodup := by
  refine List.pairwise_map.mpr (List.pairwise_filter.mpr ?_)
  refine script.distinct_diagnostics.imp fun {d d'} hne hd hd' hstart => hne ⟨?_, hstart⟩
  rw [(of_decide_eq_true hd).1, (of_decide_eq_true hd').1]

/-- Two uses that start at one place are the same. -/
theorem sought_inj {name text : String} {v u : Ident} (hv : Sought (recover name text).1.sites v)
    (hu : Sought (recover name text).1.sites u) (h : v.span.start = u.span.start) : v = u := by
  have hmem : ∀ {w : Ident}, Sought (recover name text).1.sites w →
      w ∈ (recover name text).1.sites.flatMap Site.mentions := by
    rintro w ⟨site, hsite, hw⟩
    refine List.mem_flatMap.mpr ⟨site, hsite, ?_⟩
    rw [Site.mentions, List.mem_append]
    exact hw.elim .inr fun hw => .inl hw.1
  exact List.inj_on_of_nodup_map (nodup_mentions name text) (hmem hv) (hmem hu) h

theorem nodup_uses (name text x : String) : ((recover name text).1.uses x).Nodup := by
  have hperm := List.flatMap_append_perm (recover name text).1.sites Site.references
    Site.identifiers
  have hall := (hperm.map fun v : Ident => v.span.start).nodup_iff.mpr (nodup_mentions name text)
  have hboth := ((List.perm_append_comm.map fun v : Ident => v.span.start).nodup_iff).mpr hall
  refine List.Sublist.nodup (List.Sublist.map _ (List.filter_sublist.trans ?_)) hboth
  refine (List.Sublist.refl _).append ?_
  split
  · exact List.nil_sublist _
  · exact List.Sublist.refl _

/-- **A name that nothing introduces is reported at each of its uses, once,** and an error about an
unknown name stands at a use of that name. -/
theorem unknownAt_perm_uses (name text : String) :
    (∀ x, ambientSymbol? x = none → (∀ v ∈ (recover name text).1.introduced, v.name ≠ x) →
      ((recover name text).1.check.unknownAt x).Perm ((recover name text).1.uses x) ∧
        ((recover name text).1.check.unknownAt x).Nodup) ∧
      ∀ d ∈ (recover name text).1.check.diagnostics, d.code = 2304 →
        ∃ v ∈ (recover name text).1.identifiers ++ (recover name text).1.references,
          d.span = v.span ∧ d.message = "Cannot find name '" ++ v.name ++ "'." := by
  refine ⟨fun x hglobal hintroduced => ⟨?_, nodup_unknownAt _ x⟩, fun d hd hcode => ?_⟩
  · have hunknown : Unknown (recover name text).1.sites x := by
      refine ⟨hglobal, fun ⟨site, hsite, v, hv, hname⟩ => hintroduced v ?_ hname⟩
      exact List.mem_filterMap.mpr ⟨site, hsite, hv⟩
    refine (List.perm_ext_iff_of_nodup (nodup_unknownAt _ x) (nodup_uses name text x)).mpr
      fun n => ?_
    rw [mem_unknownAt, mem_uses]
    have hfits := (recover name text).1.fits_checkedState
    constructor
    · rintro ⟨e, he, hproblem, rfl⟩
      obtain ⟨v, hv, rfl⟩ := hfits.log e he (by rw [hproblem]; rfl)
      exact ⟨v, hv, TypeProblem.unknownName.inj hproblem, rfl⟩
    · rintro ⟨v, hv, rfl, rfl⟩
      have htold : Told 2304 v.span.start (recover name text).1.checkedState := by
        obtain ⟨site, hsite, hv | ⟨hv, hambient⟩⟩ := hv
        · exact ((recover name text).1.allDone_checkedState site hsite).identifiers v hv hunknown
        · exact ((recover name text).1.allDone_checkedState site hsite).references v hv hambient
      obtain ⟨e, he, hcode, hstart⟩ := htold (silent_checkedState _)
      -- the error that stands there is about the name that stands there
      obtain ⟨u, hu, rfl⟩ := hfits.log e he hcode
      rw [sought_inj hu hv hstart] at he
      exact ⟨_, he, rfl, rfl⟩
  · obtain ⟨v, ⟨site, hsite, hv⟩, hspan, hmessage⟩ := exists_sought_of_unknownName hd hcode
    refine ⟨v, List.mem_append.mpr ?_, hspan, hmessage⟩
    rw [identifiers, references, List.mem_flatMap, List.mem_flatMap]
    exact hv.imp (fun hv => ⟨site, hsite, hv⟩) fun hv => ⟨site, hsite, hv.1⟩

/-- The theorem at a text that uses an unknown name in a function, in a loop and as a type. -/
theorem unknownAt_perm_uses_nested :
    let script := (recover "a.ts" "function f(p: x[]) { for (x = 1;;) return p + x(y) } x(").1
    (script.check.unknownAt "x").Perm (script.uses "x") ∧ script.uses "x" = [26, 46, 14] := by
  have hintroduced : ∀ v ∈ (recover "a.ts"
      "function f(p: x[]) { for (x = 1;;) return p + x(y) } x(").1.introduced, v.name ≠ "x" := by
    decide +kernel
  exact ⟨((unknownAt_perm_uses "a.ts" _).1 "x" rfl hintroduced).1, by decide +kernel⟩

end Script

end ScriptLint
