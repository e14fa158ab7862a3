import ScriptLint.Token.Basic
/-!
# Operators

The operators of expressions, the signs they are written with, and the table
of precedences. All binary operators of one precedence associate to the left.

Key definitions: `BinaryOp`, `BinaryOp.precedence`, `BinaryOp.ofToken?`,
`UnaryOp`, `AssignOp`.
-/

namespace ScriptLint

/-- The operators between two operands. -/
inductive BinaryOp where
  | logicalOr
  | coalesce
  | logicalAnd
  | bitwiseOr
  | bitwiseXor
  | bitwiseAnd
  | equal
  | notEqual
  | strictEqual
  | strictNotEqual
  | lessThan
  | lessThanOrEqual
  | greaterThan
  | greaterThanOrEqual
  | leftShift
  | rightShift
  | add
  | subtract
  | multiply
  | divide
  | modulo
  deriving DecidableEq, Repr

namespace BinaryOp

/-- All binary operators. -/
def all : List BinaryOp :=
  [.logicalOr, .coalesce, .logicalAnd, .bitwiseOr, .bitwiseXor, .bitwiseAnd, .equal, .notEqual,
    .strictEqual, .strictNotEqual, .lessThan, .lessThanOrEqual, .greaterThan, .greaterThanOrEqual,
    .leftShift, .rightShift, .add, .subtract, .multiply, .divide, .modulo]

/-- The sign of an operator. -/
def sign : BinaryOp → Punctuator
  | .logicalOr => .barBar
  | .coalesce => .questionQuestion
  | .logicalAnd => .ampersandAmpersand
  | .bitwiseOr => .bar
  | .bitwiseXor => .caret
  | .bitwiseAnd => .ampersand
  | .equal => .equalEqual
  | .notEqual => .notEqual
  | .strictEqual => .equalEqualEqual
  | .strictNotEqual => .notEqualEqual
  | .lessThan => .less
  | .lessThanOrEqual => .lessEqual
  | .greaterThan => .greater
  | .greaterThanOrEqual => .greaterEqual
  | .leftShift => .leftShift
  | .rightShift => .rightShift
  | .add => .plus
  | .subtract => .minus
  | .multiply => .star
  | .divide => .slash
  | .modulo => .percent

/-- Operators of a higher precedence bind tighter. -/
def precedence : BinaryOp → Nat
  | .logicalOr | .coalesce => 1
  | .logicalAnd => 2
  | .bitwiseOr => 3
  | .bitwiseXor => 4
  | .bitwiseAnd => 5
  | .equal | .notEqual | .strictEqual | .strictNotEqual => 6
  | .lessThan | .lessThanOrEqual | .greaterThan | .greaterThanOrEqual => 7
  | .leftShift | .rightShift => 8
  | .add | .subtract => 9
  | .multiply | .divide | .modulo => 10

/-- The binary operator that a token stands for. -/
def ofToken? : Token → Option BinaryOp
  | .punctuator sign => all.find? (·.sign == sign)
  | _ => none

/-- The operators whose result is a truth value whatever the operands are. -/
def isComparison : BinaryOp → Bool
  | .equal | .notEqual | .strictEqual | .strictNotEqual | .lessThan | .lessThanOrEqual
  | .greaterThan | .greaterThanOrEqual => true
  | _ => false

end BinaryOp

/-- The operators in front of one operand. -/
inductive UnaryOp where
  | positive
  | negative
  | not
  deriving DecidableEq, Repr

namespace UnaryOp

/-- The unary operator that a token stands for. -/
def ofToken? : Token → Option UnaryOp
  | .punctuator .plus => some .positive
  | .punctuator .minus => some .negative
  | .punctuator .bang => some .not
  | _ => none

end UnaryOp

/-- The operators that store a value. -/
inductive AssignOp where
  | simple
  | add
  | subtract
  deriving DecidableEq, Repr

namespace AssignOp

/-- The sign of an operator. -/
def sign : AssignOp → Punctuator
  | .simple => .equal
  | .add => .plusEqual
  | .subtract => .minusEqual

/-- The assignment operator that a token stands for. -/
def ofToken? : Token → Option AssignOp
  | .punctuator .equal => some .simple
  | .punctuator .plusEqual => some .add
  | .punctuator .minusEqual => some .subtract
  | _ => none

end AssignOp

end ScriptLint
