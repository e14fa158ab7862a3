import ScriptLint.Diagnostic.Basic
import ScriptLint.Types.Ty
/-!
# Type errors

What the checker can find wrong, with the number and the wording of each
finding.

Key definitions: `TypeProblem`, `TypeProblem.code`, `TypeProblem.message`, `TypeError`.
-/

namespace ScriptLint

/-- What is wrong with the types or the names of a script. -/
inductive TypeProblem where
  | unknownName (name : String)
  | notAssignable (source target : Ty)
  | duplicateFunction
  | duplicateIdentifier (name : String)
  | blockScopedRedeclaration (name : String)
  | missingReturn
  | strayReturn
  | leftNotNumeric
  | rightNotNumeric
  | operatorNotApplicable (sign : Punctuator) (left right : Ty)
  | argumentCount (expected actual : Nat)
  | notCallable
  | unknownProperty (name : String) (object : Ty)
  | assignmentToConstant (name : String)
  | assignmentToFunction (name : String)

namespace TypeProblem

/-- The number of a problem. -/
def code : TypeProblem → Nat
  | .unknownName _ => 2304
  | .notAssignable _ _ => 2322
  | .duplicateFunction => 2393
  | .duplicateIdentifier _ => 2300
  | .blockScopedRedeclaration _ => 2451
  | .missingReturn => 2355
  | .strayReturn => 1108
  | .leftNotNumeric => 2362
  | .rightNotNumeric => 2363
  | .operatorNotApplicable _ _ _ => 2365
  | .argumentCount _ _ => 2554
  | .notCallable => 2349
  | .unknownProperty _ _ => 2339
  | .assignmentToConstant _ => 2588
  | .assignmentToFunction _ => 2630

/-- The type in which the source of a failed assignment is shown: a literal only where the
target asks for literals. -/
def shownSource (source target : Ty) : Ty :=
  if target.members.any (·.flags.intersects Flags.literal) then source else source.widened

/-- The wording for an operand that is no number. -/
def operandMessage (side : String) : String :=
  "The " ++ side ++ "-hand side of an arithmetic operation must be of type 'any', 'number', "
    ++ "'bigint' or an enum type."

/-- The wording of a problem. -/
def message : TypeProblem → String
  | .unknownName name => "Cannot find name '" ++ name ++ "'."
  | .notAssignable source target =>
    "Type '" ++ (shownSource source target).display ++ "' is not assignable to type '"
      ++ target.display ++ "'."
  | .duplicateFunction => "Duplicate function implementation."
  | .duplicateIdentifier name => "Duplicate identifier '" ++ name ++ "'."
  | .blockScopedRedeclaration name => "Cannot redeclare block-scoped variable '" ++ name ++ "'."
  | .missingReturn =>
    "A function whose declared type is neither 'undefined', 'void', nor 'any' must return a value."
  | .strayReturn => "A 'return' statement can only be used within a function body."
  | .leftNotNumeric => operandMessage "left"
  | .rightNotNumeric => operandMessage "right"
  | .operatorNotApplicable sign left right =>
    "Operator '" ++ sign.spelling ++ "' cannot be applied to types '" ++ left.widened.display
      ++ "' and '" ++ right.widened.display ++ "'."
  | .argumentCount expected actual =>
    "Expected " ++ toString expected ++ " arguments, but got " ++ toString actual ++ "."
  | .notCallable => "This expression is not callable."
  | .unknownProperty name object =>
    "Property '" ++ name ++ "' does not exist on type '" ++ object.display ++ "'."
  | .assignmentToConstant name => "Cannot assign to '" ++ name ++ "' because it is a constant."
  | .assignmentToFunction name => "Cannot assign to '" ++ name ++ "' because it is a function."

end TypeProblem

/-- A problem at its place in the text. -/
structure TypeError where
  problem : TypeProblem
  span : Span

namespace TypeError

/-- Two errors tell the same if they have one number and one start. -/
def sameAs (a b : TypeError) : Bool :=
  a.problem.code == b.problem.code && a.span.start == b.span.start

/-- A type error as a finding in a file. -/
def toDiagnostic (file : String) (e : TypeError) : Diagnostic where
  file := file
  span := e.span
  message := e.problem.message
  category := .error
  source := none
  code := e.problem.code

end TypeError

end ScriptLint
