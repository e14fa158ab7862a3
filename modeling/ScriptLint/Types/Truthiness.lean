import ScriptLint.Types.Ty
/-!
# Truthy and falsy parts of a type

The left operand of a logical operator counts only as far as it decides the
result: `a && b` yields `a` when it is falsy and `a || b` when it is truthy.
Each member of a type is cut down to the values of that kind.

Key definitions: `Ty.falsyPart`, `Ty.truthyPart`.
-/

namespace ScriptLint.Ty

/-- The literal types whose only value is falsy, by the way they are shown. -/
def isFalsyLiteral (t : Ty) : Bool :=
  ["false", "0", "\"\""].contains t.display

/-- What is left of one member when its value is falsy. -/
def falsyMember (t : Ty) : Ty :=
  if t.flags.intersects (Flags.any ||| Flags.unknown ||| Flags.nullable ||| Flags.void) then t
  else if t.flags.contains Flags.boolean then booleanLiteral false
  else if t.flags.contains Flags.number then numberLiteral Binary64.zero
  else if t.flags.contains Flags.string then stringLiteral ""
  else if t.isFalsyLiteral then t
  else never

/-- What is left of one member when its value is truthy. -/
def truthyMember (t : Ty) : Ty :=
  if t.flags.intersects (Flags.any ||| Flags.unknown) then t
  else if t.flags.contains Flags.boolean then booleanLiteral true
  else if t.flags.intersects (Flags.nullable ||| Flags.void) || t.isFalsyLiteral then never
  else t

/-- The type of the falsy values of a type. -/
def falsyPart (t : Ty) : Ty :=
  join (t.members.map falsyMember)

/-- The type of the truthy values of a type; a primitive other than `boolean` stays whole. -/
def truthyPart (t : Ty) : Ty :=
  join (t.members.map truthyMember)

/-- Every member is a number or `any`. -/
def isNumeric (t : Ty) : Bool :=
  t.members.all (·.flags.intersects (Flags.numberLike ||| Flags.any))

/-- Every member is a string. -/
def isStringLike (t : Ty) : Bool :=
  t.members.all (·.flags.intersects Flags.stringLike)

end ScriptLint.Ty
