import ScriptLint.Parsing.State
/-!
# Reading types

A type is a union of array types; an array type is a simple type with any
number of bracket pairs behind it. `undefined` is a name everywhere else,
but as a type it is a keyword.

Key definitions: `Parse.typeExpr`.
-/

namespace ScriptLint.Parse

/-- The keyword type that a token stands for. -/
def typeKeyword? : Token → Option TypeKeyword
  | .keyword .booleanWord => some .boolean
  | .keyword .numberWord => some .number
  | .keyword .stringWord => some .string
  | .keyword .anyWord => some .any
  | .keyword .unknownWord => some .unknown
  | .keyword .voidWord => some .void
  | .keyword .neverWord => some .never
  | .keyword .objectWord => some .object
  | .keyword .nullWord => some .null
  | .identifier "undefined" => some .undefined
  | _ => none

/-- A type without brackets behind it. -/
def simpleType (inner : Parse TypeExpr) : Parse TypeExpr := do
  let span ← currentSpan
  match ← peek with
  | some (.keyword .trueWord) =>
    advance
    return .literal true span
  | some (.keyword .falseWord) =>
    advance
    return .literal false span
  | some (.punctuator .leftParen) =>
    advance
    let type ← inner
    expect .rightParen
    return type
  | some token =>
    match typeKeyword? token with
    | some word =>
      advance
      return .keyword word span
    | none =>
      match token with
      | .identifier name =>
        advance
        return .reference ⟨name, span⟩
      | _ => fail .typeExpected
  | none => fail .typeExpected

/-- A type with its bracket pairs. Each pair is a level. -/
def arrayType (inner : Parse TypeExpr) : Parse TypeExpr := do
  let start := (← currentSpan).start
  let element ← simpleType inner
  loop (fun element => do
    if (← peek) = some (.punctuator .leftBracket) then
      descend
      advance
      expect .rightBracket
      return .again (.array element (← spanFrom start))
    else return .done element) element

/-- Array types with bars between them; one alone is no union. -/
def unionType (inner : Parse TypeExpr) : Parse TypeExpr := do
  let start := (← currentSpan).start
  match ← separated .bar (arrayType inner) with
  | [type] => return type
  | members => return .union members (← spanFrom start)

/-- A type at most `depth` levels deep. -/
def typeExpr : Nat → Parse TypeExpr
  | 0 => fail .nestedTooDeeply
  | depth + 1 => nested (unionType (typeExpr depth))

end ScriptLint.Parse
