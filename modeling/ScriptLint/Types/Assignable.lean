import ScriptLint.Types.Ty
/-!
# Assignability

A value of one type may be stored where another type is expected. Unions
are taken apart first: every member of the source has to fit, and some
member of the target has to take it. Then a literal fits its primitive,
`undefined` fits `void`, arrays are compared by their elements, and a few
named object types take the primitives they wrap.

Key definitions: `Ty.assignable`.
-/

namespace ScriptLint.Ty

/-- The named object types that take more than themselves: the wrappers of
the primitives, `Object` and the keyword type `object`. -/
def fitsNamedObject (source : Flags) (name : String) : Bool :=
  match name with
  | "Boolean" => source.intersects Flags.booleanLike
  | "Number" => source.intersects Flags.numberLike
  | "String" => source.intersects Flags.stringLike
  | "Object" => !source.intersects (Flags.nullable ||| Flags.void)
  | "object" => source.contains Flags.object
  | _ => false

theorem sizeOf_lt_of_mem_parts {t m : Ty} (h : m ∈ t.parts) : sizeOf m < sizeOf t := by
  cases t with
  | plain _ _ => simp [parts] at h
  | array _ => simp [parts] at h
  | union ms =>
    have := List.sizeOf_lt_of_mem h
    simp only [parts, Ty.union.sizeOf_spec] at *
    omega

/-- A value of type `source` may be stored where `target` is expected. -/
def assignable (source target : Ty) : Bool :=
  if target.flags.intersects (Flags.any ||| Flags.unknown)
      || source.flags.intersects (Flags.any ||| Flags.never) then true
  else if source.isUnion then source.parts.attach.all fun m => assignable m.1 target
  else if target.isUnion then target.parts.attach.any fun m => assignable source m.1
  else if source = target ∨ source.widened = target then true
  else if target.flags.contains Flags.void then source.flags.contains Flags.undefined
  else
    match source, target with
    | .array s, .array t => assignable s t
    | source, target =>
      target.flags.contains Flags.object && fitsNamedObject source.flags target.display
termination_by sizeOf source + sizeOf target
decreasing_by
  · have := sizeOf_lt_of_mem_parts m.2
    omega
  · have := sizeOf_lt_of_mem_parts m.2
    omega
  · simp only [Ty.array.sizeOf_spec]
    omega

end ScriptLint.Ty
