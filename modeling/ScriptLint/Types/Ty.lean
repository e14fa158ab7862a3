import ScriptLint.Types.Flags
import ScriptLint.Number.Shortest
/-!
# Types of a script

A type is a plain type with its flags and the text it is shown as, an array
of elements, or a union of members. `Ty.join` is the only way in which a
union comes about: members are flattened and listed once, `any` absorbs
everything, `never` disappears, and `true | false` is `boolean`. So the
members of a union are never unions.

Key definitions: `Ty`, `Ty.flags`, `Ty.display`, `Ty.members`, `Ty.join`,
`Ty.widened`, `Ty.nonNullable`.
-/

namespace ScriptLint

/-- A static type. -/
inductive Ty where
  | plain (flags : Flags) (display : String)
  | array (element : Ty)
  | union (members : List Ty)

namespace Ty

/-- The classification of a type. Arrays are objects. -/
def flags : Ty → Flags
  | .plain flags _ => flags
  | .array _ => Flags.object
  | .union _ => Flags.union

/-! ## Basic types -/

def any : Ty := .plain Flags.any "any"

def unknown : Ty := .plain Flags.unknown "unknown"

def boolean : Ty := .plain Flags.boolean "boolean"

def number : Ty := .plain Flags.number "number"

def string : Ty := .plain Flags.string "string"

def void : Ty := .plain Flags.void "void"

def never : Ty := .plain Flags.never "never"

def null : Ty := .plain Flags.null "null"

def undefined : Ty := .plain Flags.undefined "undefined"

/-- An object type that is known by its name. -/
def object (name : String) : Ty := .plain Flags.object name

/-- The type of one truth value. -/
def booleanLiteral (value : Bool) : Ty :=
  .plain Flags.booleanLiteral (if value then "true" else "false")

/-- The type of one number, shown as the number. -/
def numberLiteral (value : Binary64) : Ty :=
  .plain Flags.numberLiteral value.render

/-- The type of one string, shown between double quotes as it is. -/
def stringLiteral (value : String) : Ty :=
  .plain Flags.stringLiteral ("\"" ++ value ++ "\"")

/-! ## Views -/

/-- The type carries the flag of unions. -/
def isUnion (t : Ty) : Bool :=
  t.flags.contains Flags.union

/-- The type carries the flag of `any`. -/
def isAny (t : Ty) : Bool :=
  t.flags.intersects Flags.any

mutual

/-- How a type is shown: a union element of an array stands in parentheses. -/
def display : Ty → String
  | .plain _ text => text
  | .array element =>
    if element.isUnion then "(" ++ display element ++ ")[]" else display element ++ "[]"
  | .union members => " | ".intercalate (displays members)

/-- How the types of a list are shown. -/
def displays : List Ty → List String
  | [] => []
  | t :: ts => display t :: displays ts

end

mutual

/-- Types are compared by what they are made of. -/
def decEq : (s t : Ty) → Decidable (s = t)
  | .plain f d, .plain g e =>
    if h : f = g ∧ d = e then isTrue (by rw [h.1, h.2]) else isFalse (by simpa using h)
  | .array s, .array t =>
    match decEq s t with
    | isTrue h => isTrue (by rw [h])
    | isFalse h => isFalse (by simpa using h)
  | .union ss, .union ts =>
    match decEqList ss ts with
    | isTrue h => isTrue (by rw [h])
    | isFalse h => isFalse (by simpa using h)
  | .plain _ _, .array _ => isFalse (by simp)
  | .plain _ _, .union _ => isFalse (by simp)
  | .array _, .plain _ _ => isFalse (by simp)
  | .array _, .union _ => isFalse (by simp)
  | .union _, .plain _ _ => isFalse (by simp)
  | .union _, .array _ => isFalse (by simp)

/-- Lists of types are compared member by member. -/
def decEqList : (ss ts : List Ty) → Decidable (ss = ts)
  | [], [] => isTrue rfl
  | [], _ :: _ => isFalse (by simp)
  | _ :: _, [] => isFalse (by simp)
  | s :: ss, t :: ts =>
    match decEq s t, decEqList ss ts with
    | isTrue h, isTrue hs => isTrue (by rw [h, hs])
    | isFalse h, _ => isFalse (by simp [h])
    | _, isFalse hs => isFalse (by simp [hs])

end

instance : DecidableEq Ty := decEq

/-! ## Unions -/

/-- The members that a union holds. -/
def parts : Ty → List Ty
  | .union members => members
  | _ => []

/-- The members of a union, or the type itself. -/
def members (t : Ty) : List Ty :=
  if t.isUnion then t.parts else [t]

/-- The element type of an array. -/
def element? : Ty → Option Ty
  | .array element => some element
  | _ => none

/-- Each type of the list once, at its first place. -/
def distinct : List Ty → List Ty
  | [] => []
  | t :: ts => t :: (distinct ts).filter (· ≠ t)

/-- `boolean` stands for its literals: where it is a member, or both literals
are, the literals go and `boolean` is there once. -/
def collapseBooleans (ts : List Ty) : List Ty :=
  if boolean ∈ ts then ts.filter (!·.flags.contains Flags.booleanLiteral)
  else if booleanLiteral true ∈ ts ∧ booleanLiteral false ∈ ts then
    ts.filter (!·.flags.contains Flags.booleanLiteral) ++ [boolean]
  else ts

/-- The type of a list of different members: none is `never`, and one is itself. -/
def ofMembers : List Ty → Ty
  | [] => never
  | [t] => t
  | ts => .union ts

/-- The union of types. -/
def join (ts : List Ty) : Ty :=
  if ts.any isAny then any
  else
    let members := (ts.flatMap members).filter (!·.flags.contains Flags.never)
    ofMembers (collapseBooleans (distinct members))

/-- The primitive that a literal type belongs to; other types are their own base. -/
def base (t : Ty) : Ty :=
  if t.flags.contains Flags.booleanLiteral then boolean
  else if t.flags.contains Flags.numberLiteral then number
  else if t.flags.contains Flags.stringLiteral then string
  else t

/-- The type that a changeable variable takes from its first value: literals
give way to their primitives. -/
def widened (t : Ty) : Ty :=
  if t.isUnion then join (t.parts.map base) else base t

/-- The type without `null` and `undefined`. -/
def nonNullable (t : Ty) : Ty :=
  if t.flags.intersects Flags.nullable then never
  else if t.isUnion then join (t.parts.filter (!·.flags.intersects Flags.nullable))
  else t

end Ty

end ScriptLint
