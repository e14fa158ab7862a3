import ScriptLint.Typing.State
import ScriptLint.Types.Assignable
import ScriptLint.Types.Truthiness
/-!
# Types of expressions

Each expression has a type, unless that type depends on a name that stands
for nothing or on the value of a constant that is assigned to; then the
cause has been reported and the answer is `none`. All parts of an expression
are looked at even so, from left to right.

Key definitions: `Check.infer`.
-/

namespace ScriptLint

/-- The name, if the expression is nothing but a name. -/
def Expr.name? : Expr → Option Ident
  | .identifier name => some name
  | _ => none

/-- The negated value, if the expression is a number. -/
def Expr.negated? : Expr → Option Binary64
  | .number value _ => some value.negate
  | _ => none

namespace Check

/-- The type of a value called as a function: only `any` and functions can be. -/
def callResult (callee : Ty) (span : Span) : Check Ty := do
  if !callee.isAny && callee.display != "Function" then report .notCallable span
  return Ty.any

/-- The type of a call of a name, with the number of its arguments. The span of the whole call
is given. -/
def callNamed (name : Ident) (count : Nat) (span : Span) : Check (Option Ty) := do
  match ← lookup? name.name with
  | some (.function result arity _) =>
    match arity with
    | some arity => if arity ≠ count then report (.argumentCount arity count) span
    | none => pure ()
    return some result
  | some (.value type _ _) => return some (← callResult type name.span)
  | none =>
    report (.unknownName name.name) name.span
    return none

/-- The type of a name that is used as a value. -/
def nameType (name : Ident) : Check (Option Ty) := do
  match ← lookup? name.name with
  | some (.value type _ _) => return some type
  | some (.function _ _ _) => return some (Ty.object "Function")
  | none =>
    report (.unknownName name.name) name.span
    return none

/-- The type that a name accepts when a value is stored in it. -/
def targetType (name : Ident) : Check (Option Ty) := do
  match ← lookup? name.name with
  | some (.value type kind _) =>
    if kind = some .constKind then
      report (.assignmentToConstant name.name) name.span
      return none
    else return some type
  | some (.function _ _ _) =>
    report (.assignmentToFunction name.name) name.span
    return some Ty.any
  | none =>
    report (.unknownName name.name) name.span
    return none

/-- The type of a sum: `any` spreads, a string makes a string, numbers make a number. -/
def addition (sign : Punctuator) (left right : Ty) (span : Span) : Check Ty := do
  if left.isAny || right.isAny then return Ty.any
  else if left.isStringLike || right.isStringLike then return Ty.string
  else if left.isNumeric && right.isNumeric then return Ty.number
  else
    report (.operatorNotApplicable sign left right) span
    return Ty.any

/-- The type of other arithmetic, which needs numbers. Only the first operand at fault is
reported. -/
def arithmetic (left right : Ty) (span : Span) : Check Ty := do
  if !left.isNumeric then report .leftNotNumeric span
  else if !right.isNumeric then report .rightNotNumeric span
  return Ty.number

/-- The type of a binary operation on operands of known types. -/
def binaryResult (op : BinaryOp) (left right : Ty) (span : Span) : Check Ty :=
  match op with
  | .logicalAnd => return Ty.join [left.falsyPart, right]
  | .logicalOr => return Ty.join [left.truthyPart, right]
  | .coalesce => return Ty.join [left.nonNullable, right]
  | .add => addition BinaryOp.add.sign left right span
  | _ => arithmetic left right span

/-- The type of a binary operation. A comparison has one even if its operands have none. -/
def binaryType (op : BinaryOp) (left right : Option Ty) (span : Span) : Check (Option Ty) :=
  if op.isComparison then return some Ty.boolean
  else
    match left, right with
    | some left, some right => return some (← binaryResult op left right span)
    | _, _ => return none

/-- The type of a unary operation. The negation of a written number is that number. -/
def unaryType (op : UnaryOp) (operand : Expr) (type : Option Ty) : Option Ty :=
  match op with
  | .not => some Ty.boolean
  | .positive => type.map fun _ => Ty.number
  | .negative =>
    match operand.negated? with
    | some value => some (Ty.numberLiteral value)
    | none => type.map fun _ => Ty.number

/-- The type of a property: strings and arrays have a length, and `any` has everything. -/
def propertyType (object : Ty) (name : Ident) : Check Ty := do
  if object.isAny then return Ty.any
  else if name.name = "length"
      && (object.flags.intersects Flags.stringLike || object.element?.isSome) then
    return Ty.number
  else
    report (.unknownProperty name.name object) name.span
    return Ty.any

/-- The type of an element of a value. -/
def elementType (object : Ty) : Ty :=
  match object.element? with
  | some element => element
  | none => if object.flags.intersects Flags.stringLike then Ty.string else Ty.any

/-- The type of an array with elements of the given types. -/
def arrayOf : List Ty → Ty
  | [] => .array Ty.any
  | types => .array (Ty.join (types.map Ty.widened))

/-- The type of the value that an assignment stores. -/
def storedType (op : AssignOp) (target : Option Ty) (value : Ty) (span : Span) :
    Check (Option Ty) :=
  match op, target with
  | .simple, _ => return some value
  | .add, some target => return some (← addition AssignOp.add.sign target value span)
  | .subtract, some target => do
    if !target.isNumeric || !value.isNumeric then
      report (.operatorNotApplicable AssignOp.subtract.sign target value) span
    return some Ty.number
  | _, none => return none

/-- The type of an assignment. What is stored has to fit the place it is stored in. -/
def assignmentType (op : AssignOp) (target value : Option Ty) (targetSpan valueSpan : Span) :
    Check (Option Ty) := do
  match value with
  | none => return none
  | some value =>
    match ← storedType op target value (targetSpan.cover valueSpan) with
    | none => return none
    | some stored =>
      match target with
      | some target =>
        if !stored.assignable target then report (.notAssignable stored target) targetSpan
      | none => pure ()
      return some stored

mutual

/-- The type of an expression. -/
def infer : Expr → Check (Option Ty)
  | .number value _ => return some (Ty.numberLiteral value)
  | .string value _ => return some (Ty.stringLiteral value)
  | .boolean value _ => return some (Ty.booleanLiteral value)
  | .null _ => return some Ty.null
  | .identifier name => nameType name
  | .binary op left right span => do
    let leftType ← infer left
    let rightType ← infer right
    binaryType op leftType rightType span
  | .unary op operand _ => do
    let type ← infer operand
    return unaryType op operand type
  | .typeOf operand _ => do
    let _ ← infer operand
    return some Ty.string
  | .assignment op target value _ => do
    let targetType ← match target.name? with
      | some name => targetType name
      | none => infer target
    let valueType ← infer value
    assignmentType op targetType valueType target.span value.span
  | .conditional condition whenTrue whenFalse _ => do
    let _ ← infer condition
    let trueType ← infer whenTrue
    let falseType ← infer whenFalse
    match trueType, falseType with
    | some trueType, some falseType => return some (Ty.join [trueType, falseType])
    | _, _ => return none
  | .call callee arguments span => do
    let result ← match callee.name? with
      | some name => callNamed name arguments.length span
      | none => do
        match ← infer callee with
        | some type => some <$> callResult type callee.span
        | none => pure none
    let _ ← inferAll arguments
    return result
  | .property object name _ => do
    match ← infer object with
    | some type => return some (← propertyType type name)
    | none => return none
  | .element object index _ => do
    let type ← infer object
    let _ ← infer index
    return type.map elementType
  | .parenthesized inner _ => infer inner
  | .array elements _ => do
    let types ← inferAll elements
    return (types.mapM id).map arrayOf

/-- The types of the expressions of a list. -/
def inferAll : List Expr → Check (List (Option Ty))
  | [] => return []
  | e :: es => do
    let type ← infer e
    let types ← inferAll es
    return type :: types

end

end Check

end ScriptLint
