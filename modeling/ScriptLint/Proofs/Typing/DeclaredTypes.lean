import Mathlib.Data.List.Nodup
import ScriptLint.Proofs.Parsing.Positions
import ScriptLint.Proofs.Types.NormalForm
import ScriptLint.Proofs.Typing.Visits
/-!
# The types of the variables

A type is only ever recorded for a variable of the script, and no other
variable starts at that place. Each variable with an annotation or without a
first value has a type, wherever it is declared. If a variable has none, an
error inside its first value says why: a name there stands for nothing, or a
constant is assigned to. A variable that can change and has no annotation
keeps no literal in its type. All types of variables are in normal form.

Key theorems: `Script.declarations_typed`, `Script.types_in_normal_form`.
-/

namespace ScriptLint

theorem CheckedScript.typeAt?_eq_none {checked : CheckedScript} {start : Nat}
    (h : checked.typeAt? start = none) : ∀ type, (start, type) ∉ checked.types := by
  unfold CheckedScript.typeAt? at h
  intro type hmem
  have hne := List.lookup_eq_none_iff.mp h (start, type) hmem
  simp at hne

namespace Script

open Check

theorem mem_declarations {script : Script} {x : DeclKind × Declarator} :
    x ∈ script.declarations ↔ .declarator x.1 x.2 ∈ script.sites := by
  rw [declarations, List.mem_filterMap]
  constructor
  · rintro ⟨site, hsite, hx⟩
    cases site with
    | declarator kind d =>
      obtain rfl := Option.some.inj hx
      exact hsite
    | _ => cases hx
  · exact fun hsite => ⟨_, hsite, rfl⟩

/-- A variable without a type has no annotation, and an error stands in its first value. -/
theorem explained_of_typeAt?_eq_none {name text : String} {kind : DeclKind} {d : Declarator}
    (hd : .declarator kind d ∈ (recover name text).1.sites)
    (hnone : (recover name text).1.check.typeAt? d.name.span.start = none) :
    d.declaredType = none ∧ ∃ e, d.initializer = some e ∧
      ∃ x ∈ (recover name text).1.check.diagnostics, (x.code = 2304 ∨ x.code = 2588) ∧
        e.span.start ≤ x.span.start ∧ x.span.start < e.span.stop := by
  have hsilent := (recover name text).1.silent_checkedState
  rcases ((recover name text).1.allDone_checkedState _ hd).settled _ rfl with htyped | hexcused
  · obtain ⟨type, htype⟩ := htyped hsilent
    exact absurd htype (CheckedScript.typeAt?_eq_none hnone type)
  · obtain ⟨htype, e, he, v, hv, hexcused⟩ := hexcused
    refine ⟨htype, e, he, ?_⟩
    have hin := start_mem_initializer hd he hv
    have hfound : ∀ code, Told code v.span.start (recover name text).1.checkedState →
        ∃ x ∈ (recover name text).1.check.diagnostics, x.code = code ∧
          e.span.start ≤ x.span.start ∧ x.span.start < e.span.stop := by
      intro code htold
      obtain ⟨error, herror, hcode, hstart⟩ := htold hsilent
      refine ⟨error.toDiagnostic name, List.mem_map_of_mem (List.mem_reverse.mpr herror), hcode, ?_⟩
      rwa [TypeError.toDiagnostic, hstart]
    rcases hexcused with htold | htold
    · obtain ⟨x, hx, hcode, hspan⟩ := hfound 2304 htold
      exact ⟨x, hx, .inl hcode, hspan⟩
    · obtain ⟨x, hx, hcode, hspan⟩ := hfound 2588 htold
      exact ⟨x, hx, .inr hcode, hspan⟩

/-- **Every variable of a script has a type, or an error explains why it has none.** Types are
recorded for variables only, and no two of them share a place. -/
theorem declarations_typed (name text : String) :
    (∀ entry ∈ (recover name text).1.check.types,
      ((recover name text).1.declarations.map fun x => x.2.name.span.start).count entry.1 = 1) ∧
    (∀ x ∈ (recover name text).1.declarations,
      x.2.declaredType.isSome ∨ x.2.initializer = none →
        ((recover name text).1.check.typeAt? x.2.name.span.start).isSome) ∧
    (∀ x ∈ (recover name text).1.declarations,
      (recover name text).1.check.typeAt? x.2.name.span.start = none →
        x.2.declaredType = none ∧ ∃ e, x.2.initializer = some e ∧
          ∃ d ∈ (recover name text).1.check.diagnostics, (d.code = 2304 ∨ d.code = 2588) ∧
            e.span.start ≤ d.span.start ∧ d.span.start < e.span.stop) ∧
    ∀ x ∈ (recover name text).1.declarations, x.2.declaredType = none → x.1 ≠ .constKind →
      ∀ type, (x.2.name.span.start, type) ∈ (recover name text).1.check.types →
        type.LiteralFree := by
  have hnodup := nodup_declarations name text
  refine ⟨?_, ?_, ?_, ?_⟩
  · intro entry hentry
    obtain ⟨kind, d, hd, hstart, -⟩ := (recover name text).1.fits_checkedState.types entry hentry
    refine List.count_eq_one_of_mem hnodup (List.mem_map.mpr ⟨(kind, d), ?_, hstart⟩)
    exact mem_declarations.mpr hd
  · intro x hx hgiven
    rw [Option.isSome_iff_ne_none]
    intro hnone
    obtain ⟨htype, e, he, -⟩ := explained_of_typeAt?_eq_none (mem_declarations.mp hx) hnone
    rcases hgiven with hgiven | hgiven
    · rw [htype] at hgiven
      cases hgiven
    · rw [he] at hgiven
      cases hgiven
  · intro x hx hnone
    exact explained_of_typeAt?_eq_none (mem_declarations.mp hx) hnone
  · intro x hx htype hkind type hentry
    obtain ⟨kind, d, hd, hstart, hfree⟩ :=
      (recover name text).1.fits_checkedState.types _ hentry
    -- the place belongs to one variable only
    have hsame : (kind, d) = x :=
      List.inj_on_of_nodup_map hnodup (mem_declarations.mpr hd) hx hstart
    subst hsame
    exact hfree htype hkind

/-- The second variable has no type, since `c` stands for nothing; only the constant keeps its
literal. -/
example : (recover "a.ts" "let a = 1, b = c; const d = 2").1.check.types.map
    (fun entry => (entry.1, entry.2.display)) = [(24, "2"), (4, "number")] := by
  decide +kernel

/-- **Types are in normal form,** whatever the checker makes them from, and so are the types of
all variables; and a type in normal form is the union of its members. -/
theorem types_in_normal_form :
    (∀ t : Ty, t.Derived → t.Normal) ∧
    (∀ script : Script, ∀ entry ∈ script.check.types, entry.2.Normal) ∧
    ∀ t : Ty, t.Normal → Ty.join t.members = t := by
  refine ⟨fun t ht => ht.built.normal, fun script entry hentry => ?_, fun t ht => ?_⟩
  · exact (script.fits_checkedState.recorded entry hentry).normal
  · exact (ht t .self).join_members

/-- The falsy part of `boolean | number | null` and the type of a variable whose first value is a
number or `null`. -/
theorem types_in_normal_form_union :
    (Ty.join [Ty.boolean, Ty.number, Ty.null]).falsyPart.Normal ∧
    Ty.join (Ty.join [Ty.boolean, Ty.number, Ty.null]).falsyPart.members
      = (Ty.join [Ty.boolean, Ty.number, Ty.null]).falsyPart ∧
    (15, Ty.union [Ty.number, Ty.null]) ∈
      (recover "a.ts" "let b = 1; let a = b ? 2 : null").1.check.types ∧
    (Ty.union [Ty.number, Ty.null]).Normal := by
  have hderived : (Ty.join [Ty.boolean, Ty.number, Ty.null]).falsyPart.Derived := by
    refine .falsyPart (.join fun t ht => .basic ?_)
    have hbasic : ∀ t ∈ [Ty.boolean, Ty.number, Ty.null], t ∈ Ty.basics := by decide
    exact hbasic t ht
  have hentry : (15, Ty.union [Ty.number, Ty.null]) ∈
      (recover "a.ts" "let b = 1; let a = b ? 2 : null").1.check.types := by
    decide +kernel
  obtain ⟨hmade, hrecorded, hself⟩ := types_in_normal_form
  exact ⟨hmade _ hderived, hself _ (hmade _ hderived), hentry, hrecorded _ _ hentry⟩

end Script

end ScriptLint
