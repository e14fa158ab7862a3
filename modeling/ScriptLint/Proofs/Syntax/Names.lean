import ScriptLint.Syntax.Basic
/-!
# Names declared and names read

Which names a statement declares, and where, can be told from the statement
alone: `let` and `const` declare in the scope that the statement stands in,
`var` declares in the scope of the function, and what a block or the header
of a `for` statement declares for itself is gone behind it. So can the names
be told that a statement reads from outside: those that it mentions before
anything inside of it has declared them. A function that writes no return
type is looked at twice, and the first time is before the variables beside
it are declared; at that time it reads past them.

Key definitions: `Footprint`, `Stmt.footprint`, `openFunctions`, `Stmt.free`.
-/

namespace ScriptLint

mutual

/-- The names that an expression mentions. The name of a property is none of them. -/
def Expr.names : Expr → List String
  | .number _ _ => []
  | .string _ _ => []
  | .boolean _ _ => []
  | .null _ => []
  | .identifier name => [name.name]
  | .binary _ left right _ => left.names ++ right.names
  | .unary _ operand _ => operand.names
  | .typeOf operand _ => operand.names
  | .assignment _ target value _ => target.names ++ value.names
  | .conditional condition whenTrue whenFalse _ =>
    condition.names ++ (whenTrue.names ++ whenFalse.names)
  | .call callee arguments _ => callee.names ++ Expr.namesAll arguments
  | .property object _ _ => object.names
  | .element object index _ => object.names ++ index.names
  | .parenthesized inner _ => inner.names
  | .array elements _ => Expr.namesAll elements

/-- The names that the expressions of a list mention. -/
def Expr.namesAll : List Expr → List String
  | [] => []
  | e :: es => e.names ++ Expr.namesAll es

end

/-! ### Names declared -/

/-- The names that a step of the checker declares: in the innermost scope, by `var` in the scope
of the function, and as functions of the innermost scope whatever stood there before. -/
structure Footprint where
  block : List String
  function : List String
  replaced : List String

namespace Footprint

/-- Nothing is declared. -/
def empty : Footprint :=
  ⟨[], [], []⟩

instance : Append Footprint :=
  ⟨fun f g => ⟨f.block ++ g.block, f.function ++ g.function, f.replaced ++ g.replaced⟩⟩

@[simp] theorem block_append (f g : Footprint) : (f ++ g).block = f.block ++ g.block := rfl

@[simp] theorem function_append (f g : Footprint) :
    (f ++ g).function = f.function ++ g.function := rfl

@[simp] theorem replaced_append (f g : Footprint) :
    (f ++ g).replaced = f.replaced ++ g.replaced := rfl

/-- What is left behind the scope in which it was made. -/
def outside (f : Footprint) : Footprint :=
  ⟨[], f.function, []⟩

/-- The variables that are declared. -/
def names (f : Footprint) : List String :=
  f.block ++ f.function

@[simp] theorem names_block (names : List String) : Footprint.names ⟨names, [], []⟩ = names :=
  List.append_nil names

end Footprint

/-- One variable. -/
def DeclKind.footprint (kind : DeclKind) (name : String) : Footprint :=
  if kind = .varKind then ⟨[], [name], []⟩ else ⟨[name], [], []⟩

/-- The variables of a declaration. -/
def DeclKind.footprints (kind : DeclKind) : List Declarator → Footprint
  | [] => .empty
  | d :: ds => kind.footprint d.name.name ++ kind.footprints ds

/-- The variables that the header of a `for` statement declares. -/
def ForStart.footprint : Option ForStart → Footprint
  | some (.declaration d) => d.kind.footprints d.declarators
  | some (.expression _) => .empty
  | none => .empty

mutual

/-- The variables that a statement declares for what comes behind it. -/
def Stmt.footprint : Stmt → Footprint
  | .variables d _ => d.kind.footprints d.declarators
  | .function _ _ _ _ => .empty
  | .block body _ => (Stmt.footprints body).outside
  | .ifThen _ thenBranch _ => thenBranch.footprint
  | .ifElse _ thenBranch elseBranch _ => thenBranch.footprint ++ elseBranch.footprint
  | .whileLoop _ body _ => body.footprint
  | .forLoop start _ _ body _ => (ForStart.footprint start ++ body.footprint).outside
  | .returns _ _ => .empty
  | .expression _ _ => .empty

/-- The variables that the statements of a list declare. -/
def Stmt.footprints : List Stmt → Footprint
  | [] => .empty
  | s :: ss => s.footprint ++ Stmt.footprints ss

end

theorem DeclKind.replaced_footprints (kind : DeclKind) (ds : List Declarator) :
    (kind.footprints ds).replaced = [] := by
  induction ds with
  | nil => rfl
  | cons d ds ih =>
    have hd : (kind.footprint d.name.name).replaced = [] := by
      unfold DeclKind.footprint
      split <;> rfl
    rw [DeclKind.footprints, Footprint.replaced_append, hd, ih]
    rfl

/-- A statement replaces no function of the list it stands in. -/
theorem Stmt.replaced_footprint : ∀ s : Stmt, s.footprint.replaced = []
  | .variables d _ => d.kind.replaced_footprints d.declarators
  | .function _ _ _ _ => rfl
  | .block _ _ => rfl
  | .ifThen _ thenBranch _ => thenBranch.replaced_footprint
  | .ifElse _ thenBranch elseBranch _ => by
    rw [Stmt.footprint, Footprint.replaced_append, thenBranch.replaced_footprint,
      elseBranch.replaced_footprint]
    rfl
  | .whileLoop _ body _ => body.replaced_footprint
  | .forLoop _ _ _ _ _ => rfl
  | .returns _ _ => rfl
  | .expression _ _ => rfl

theorem Stmt.replaced_footprints (ss : List Stmt) : (Stmt.footprints ss).replaced = [] := by
  induction ss with
  | nil => rfl
  | cons s ss ih =>
    rw [Stmt.footprints, Footprint.replaced_append, s.replaced_footprint, ih]
    rfl

/-- The name of a function. -/
def Stmt.functionName? : Stmt → Option String
  | .function signature _ _ _ => some signature.name.name
  | _ => none

/-- The functions of a list of statements. -/
def functionNames (stmts : List Stmt) : List String :=
  stmts.filterMap Stmt.functionName?

/-- A function that writes no return type, so that its body has to be tried out. -/
def Stmt.isOpen : Stmt → Bool
  | .function signature _ _ _ => signature.returnType.isNone
  | _ => false

/-- The functions of a list of statements that write no return type. -/
def openFunctions (stmts : List Stmt) : List String :=
  functionNames (stmts.filter Stmt.isOpen)

theorem openFunctions_append (ss ss' : List Stmt) :
    openFunctions (ss ++ ss') = openFunctions ss ++ openFunctions ss' := by
  simp [openFunctions, functionNames]

/-! ### Names read from outside -/

/-- The names that an expression mentions, but for those that are bound. -/
def Expr.free (bound : List String) (e : Expr) : List String :=
  e.names.filter (· ∉ bound)

/-- The same for an expression that may be missing. -/
def Expr.free? (bound : List String) : Option Expr → List String
  | some e => e.free bound
  | none => []

/-- The names that the first values of variables read. Each variable is bound behind its value. -/
def Declarator.free (bound : List String) : List Declarator → List String
  | [] => []
  | d :: ds => Expr.free? bound d.initializer ++ Declarator.free (d.name.name :: bound) ds

/-- The names that the first part of the header of a `for` statement reads. -/
def ForStart.free (bound : List String) : Option ForStart → List String
  | some (.declaration d) => Declarator.free bound d.declarators
  | some (.expression e) => e.free bound
  | none => []

/-- The names of the parameters of a function. -/
def Signature.parameterNames (signature : Signature) : List String :=
  signature.parameters.map (·.name.name)

mutual

/-- The names that a statement reads from outside, where `bound` are declared inside. -/
def Stmt.free (bound : List String) : Stmt → List String
  | .variables d _ => Declarator.free bound d.declarators
  | .function signature body _ _ =>
    let bound := functionNames body ++ (signature.parameterNames ++ bound)
    Stmt.freeOpen bound body ++ Stmt.freeAll bound body
  | .block body _ =>
    let bound := functionNames body ++ bound
    Stmt.freeOpen bound body ++ Stmt.freeAll bound body
  | .ifThen condition thenBranch _ => condition.free bound ++ thenBranch.free bound
  | .ifElse condition thenBranch elseBranch _ =>
    condition.free bound
      ++ (thenBranch.free bound ++ elseBranch.free (thenBranch.footprint.names ++ bound))
  | .whileLoop condition body _ => condition.free bound ++ body.free bound
  | .forLoop start condition update body _ =>
    let bound' := (ForStart.footprint start).names ++ bound
    ForStart.free bound start
      ++ (Expr.free? bound' condition ++ (Expr.free? bound' update ++ body.free bound'))
  | .returns value _ => Expr.free? bound value
  | .expression e _ => e.free bound

/-- The names that the statements of a list read, one after the other. -/
def Stmt.freeAll (bound : List String) : List Stmt → List String
  | [] => []
  | s :: ss => s.free bound ++ Stmt.freeAll (s.footprint.names ++ bound) ss

/-- The names that the functions of a list read which write no return type, when their bodies
are tried out. -/
def Stmt.freeOpen (bound : List String) : List Stmt → List String
  | [] => []
  | s :: ss => (if s.isOpen then s.free bound else []) ++ Stmt.freeOpen bound ss

end

end ScriptLint
