import ScriptLint.Typing.Scope
/-!
# The meaning of written types

A written type denotes a type. A name that no type has denotes `any`, and is
to be reported where the type is used.

Key definitions: `TypeExpr.toTy`, `TypeExpr.unknownNames`.
-/

namespace ScriptLint

/-- The type that a keyword denotes. -/
def TypeKeyword.toTy : TypeKeyword → Ty
  | .boolean => Ty.boolean
  | .number => Ty.number
  | .string => Ty.string
  | .any => Ty.any
  | .unknown => Ty.unknown
  | .void => Ty.void
  | .never => Ty.never
  | .object => Ty.object "object"
  | .null => Ty.null
  | .undefined => Ty.undefined

namespace TypeExpr

mutual

/-- The type that is written. -/
def toTy : TypeExpr → Ty
  | .keyword word _ => word.toTy
  | .literal value _ => Ty.booleanLiteral value
  | .reference name => if isAmbientType name.name then Ty.object name.name else Ty.any
  | .array element _ => .array element.toTy
  | .union members _ => Ty.join (toTys members)

/-- The types of a list. -/
def toTys : List TypeExpr → List Ty
  | [] => []
  | t :: ts => t.toTy :: toTys ts

end

mutual

/-- The names in a written type that no type has, in order. -/
def unknownNames : TypeExpr → List Ident
  | .keyword _ _ => []
  | .literal _ _ => []
  | .reference name => if isAmbientType name.name then [] else [name]
  | .array element _ => element.unknownNames
  | .union members _ => unknownNamesAll members

/-- The unknown names in the types of a list, in order. -/
def unknownNamesAll : List TypeExpr → List Ident
  | [] => []
  | t :: ts => t.unknownNames ++ unknownNamesAll ts

end

end TypeExpr

end ScriptLint
