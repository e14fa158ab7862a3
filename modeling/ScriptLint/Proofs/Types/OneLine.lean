import ScriptLint.Proofs.Text.OneLine
import ScriptLint.Proofs.Types.Built
import ScriptLint.Typing.Infer
/-!
# Types that are shown in one line

A type is shown in one line if all texts that it is made of have no newline.
The operations on types make up no other texts: what they yield consists of
parts of what they are given and of basic types. So a message about such
types, and about names without a newline, is one line.

Key definitions: `Ty.OneLine`, `TypeProblem.OneLine`.
Key theorems: `Ty.OneLine.display`, `Ty.OneLine.join`, `TypeProblem.oneLine_message`.
-/

namespace ScriptLint

/-- No text that the type is made of has a newline. -/
inductive Ty.OneLine : Ty → Prop where
  | plain {flags : Flags} {text : String} : ScriptLint.OneLine text → Ty.OneLine (.plain flags text)
  | array {t : Ty} : Ty.OneLine t → Ty.OneLine (.array t)
  | union {ts : List Ty} : (∀ t ∈ ts, Ty.OneLine t) → Ty.OneLine (.union ts)

namespace Ty

variable {t m : Ty} {ts : List Ty}

theorem displays_eq (ts : List Ty) : displays ts = ts.map display := by
  induction ts with
  | nil => rfl
  | cons t ts ih => rw [displays, ih, List.map_cons]

/-- **Such a type is shown in one line.** -/
theorem OneLine.display (h : t.OneLine) : ScriptLint.OneLine t.display := by
  induction h with
  | plain htext => exact htext
  | array _ ih =>
    rw [Ty.display]
    split
    · rw [oneLine_append, oneLine_append]
      exact ⟨⟨by decide, ih⟩, by decide⟩
    · rw [oneLine_append]
      exact ⟨ih, by decide⟩
  | union _ ih =>
    rw [Ty.display, displays_eq]
    refine oneLine_intercalate (by decide) fun text htext => ?_
    obtain ⟨m, hm, rfl⟩ := List.mem_map.mp htext
    exact ih m hm

/-! ### Basic types and literals -/

namespace OneLine

theorem any : Ty.any.OneLine := .plain (by decide)

theorem boolean : Ty.boolean.OneLine := .plain (by decide)

theorem number : Ty.number.OneLine := .plain (by decide)

theorem string : Ty.string.OneLine := .plain (by decide)

theorem void : Ty.void.OneLine := .plain (by decide)

theorem never : Ty.never.OneLine := .plain (by decide)

theorem booleanLiteral (value : Bool) : (Ty.booleanLiteral value).OneLine := by
  cases value <;> exact .plain (by decide)

theorem numberLiteral (value : Binary64) : (Ty.numberLiteral value).OneLine :=
  .plain value.oneLine_render

/-- A string between its quotes. -/
theorem stringLiteral {value : String} (h : ScriptLint.OneLine value) :
    (Ty.stringLiteral value).OneLine := by
  refine .plain ?_
  rw [oneLine_append, oneLine_append]
  exact ⟨⟨by decide, h⟩, by decide⟩

theorem object {name : String} (h : ScriptLint.OneLine name) : (Ty.object name).OneLine :=
  .plain h

/-! ### Operations -/

theorem parts (h : t.OneLine) : ∀ m ∈ t.parts, m.OneLine := by
  cases h with
  | union hts => exact hts
  | _ => nofun

theorem members (h : t.OneLine) : ∀ m ∈ t.members, m.OneLine := by
  unfold Ty.members
  split
  · exact h.parts
  · simpa using h

theorem element (h : t.OneLine) {e : Ty} (he : t.element? = some e) : e.OneLine := by
  cases h with
  | array ht => exact Option.some.inj he ▸ ht
  | _ => cases he

theorem ofMembers (h : ∀ t ∈ ts, t.OneLine) : (Ty.ofMembers ts).OneLine := by
  unfold Ty.ofMembers
  split
  · exact .never
  · exact h _ (List.mem_singleton_self _)
  · exact .union h

/-- **A union is made of what it is made from.** -/
theorem join (h : ∀ t ∈ ts, t.OneLine) : (Ty.join ts).OneLine := by
  unfold Ty.join
  split
  · exact .any
  · refine ofMembers fun m hm => ?_
    rcases mem_collapseBooleans hm with hm | rfl
    · obtain ⟨t, ht, hmt⟩ := List.mem_flatMap.mp (List.mem_filter.mp (mem_distinct hm)).1
      exact (h t ht).members m hmt
    · exact .boolean

theorem join_pair {s : Ty} (hs : s.OneLine) (ht : t.OneLine) : (Ty.join [s, t]).OneLine :=
  .join (by simp [hs, ht])

theorem join_map {f : Ty → Ty} (hf : ∀ m : Ty, m.OneLine → (f m).OneLine)
    (h : ∀ t ∈ ts, t.OneLine) : (Ty.join (ts.map f)).OneLine := by
  refine .join fun x hx => ?_
  obtain ⟨m, hm, rfl⟩ := List.mem_map.mp hx
  exact hf m (h m hm)

theorem base (h : t.OneLine) : t.base.OneLine := by
  unfold Ty.base
  split
  · exact .boolean
  · split
    · exact .number
    · split
      · exact .string
      · exact h

theorem widened (h : t.OneLine) : t.widened.OneLine := by
  unfold Ty.widened
  split
  · exact join_map (fun _ => base) h.parts
  · exact h.base

theorem nonNullable (h : t.OneLine) : t.nonNullable.OneLine := by
  unfold Ty.nonNullable
  split
  · exact .never
  · split
    · exact .join fun m hm => h.parts m (List.mem_filter.mp hm).1
    · exact h

theorem falsyPart (h : t.OneLine) : t.falsyPart.OneLine := by
  refine join_map (fun m hm => ?_) h.members
  unfold falsyMember
  split
  · exact hm
  · split
    · exact .booleanLiteral false
    · split
      · exact .numberLiteral Binary64.zero
      · split
        · exact .stringLiteral (by decide)
        · split
          · exact hm
          · exact .never

theorem truthyPart (h : t.OneLine) : t.truthyPart.OneLine := by
  refine join_map (fun m hm => ?_) h.members
  unfold truthyMember
  split
  · exact hm
  · split
    · exact .booleanLiteral true
    · split
      · exact .never
      · exact hm

end OneLine

end Ty

/-! ### Written types -/

/-- The names that a type can have are known, and they have no newline. -/
theorem oneLine_of_isAmbientType {name : String} (h : isAmbientType name = true) :
    OneLine name := by
  have hnames : ∀ name ∈ ["Boolean", "Number", "String", "Object", "Function", "Date"],
      OneLine name := by decide
  exact hnames name (List.contains_iff_mem.mp h)

theorem TypeKeyword.oneLine_toTy (word : TypeKeyword) : word.toTy.OneLine := by
  cases word <;> exact .plain (by decide)

mutual

/-- **A written type denotes one that is shown in one line,** whatever names are written. -/
theorem TypeExpr.oneLine_toTy : ∀ type : TypeExpr, type.toTy.OneLine
  | .keyword word _ => word.oneLine_toTy
  | .literal value _ => .booleanLiteral value
  | .reference name => by
    rw [TypeExpr.toTy]
    split
    · exact .object (oneLine_of_isAmbientType ‹_›)
    · exact .any
  | .array element _ => .array element.oneLine_toTy
  | .union members _ => .join (TypeExpr.oneLine_toTys members)

theorem TypeExpr.oneLine_toTys : ∀ types : List TypeExpr,
    ∀ t ∈ TypeExpr.toTys types, t.OneLine
  | [] => nofun
  | type :: types => by
    intro t ht
    rcases List.mem_cons.mp ht with rfl | ht
    · exact type.oneLine_toTy
    · exact TypeExpr.oneLine_toTys types t ht

end

/-! ### Problems -/

/-- The names and the types of the problem have no newline. -/
def TypeProblem.OneLine : TypeProblem → Prop
  | .unknownName name | .duplicateIdentifier name | .blockScopedRedeclaration name
  | .assignmentToConstant name | .assignmentToFunction name => ScriptLint.OneLine name
  | .notAssignable source target => source.OneLine ∧ target.OneLine
  | .operatorNotApplicable _ left right => left.OneLine ∧ right.OneLine
  | .unknownProperty name object => ScriptLint.OneLine name ∧ object.OneLine
  | _ => True

theorem Punctuator.oneLine_spelling (sign : Punctuator) : OneLine sign.spelling := by
  cases sign <;> decide

/-- Something that is quoted in a message. -/
theorem oneLine_quoted {a b text : String} (ha : OneLine a) (htext : OneLine text)
    (hb : OneLine b) : OneLine (a ++ text ++ b) := by
  rw [oneLine_append, oneLine_append]
  exact ⟨⟨ha, htext⟩, hb⟩

theorem TypeProblem.oneLine_operandMessage {side : String} (h : ScriptLint.OneLine side) :
    ScriptLint.OneLine (operandMessage side) := by
  unfold operandMessage
  rw [oneLine_append]
  exact ⟨oneLine_quoted (by decide) h (oneLine_ofList.mpr (by decide)),
    oneLine_ofList.mpr (by decide)⟩

/-- **The message of such a problem is one line.** -/
theorem TypeProblem.oneLine_message {problem : TypeProblem} (h : problem.OneLine) :
    ScriptLint.OneLine problem.message := by
  cases problem with
  | unknownName name => exact oneLine_quoted (by decide) h (by decide)
  | duplicateIdentifier name => exact oneLine_quoted (by decide) h (by decide)
  | blockScopedRedeclaration name => exact oneLine_quoted (by decide) h (by decide)
  | assignmentToConstant name => exact oneLine_quoted (by decide) h (by decide)
  | assignmentToFunction name => exact oneLine_quoted (by decide) h (by decide)
  | notAssignable source target =>
    have hshown : (shownSource source target).OneLine := by
      unfold shownSource
      split
      · exact h.1
      · exact h.1.widened
    exact oneLine_quoted (oneLine_quoted (by decide) hshown.display (by decide)) h.2.display
      (by decide)
  | operatorNotApplicable sign left right =>
    refine oneLine_quoted (oneLine_quoted (oneLine_quoted (by decide) sign.oneLine_spelling
      (by decide)) h.1.widened.display (by decide)) h.2.widened.display (by decide)
  | unknownProperty name object =>
    exact oneLine_quoted (oneLine_quoted (by decide) h.1 (by decide)) h.2.display (by decide)
  | argumentCount expected actual =>
    exact oneLine_quoted (oneLine_quoted (by decide) (oneLine_toString _) (by decide))
      (oneLine_toString _) (by decide)
  | leftNotNumeric => exact oneLine_operandMessage (by decide)
  | rightNotNumeric => exact oneLine_operandMessage (by decide)
  | _ => exact oneLine_ofList.mpr (by decide)

end ScriptLint
