/-!
# Type flags

A type is classified by a set of flags, kept as the bits of a word of 32
bits. A mask asks either for all of its bits (`Flags.contains`) or for at
least one of them (`Flags.intersects`).

Key definitions: `Flags`, `Flags.contains`, `Flags.intersects`.
-/

namespace ScriptLint

/-- A set of flags, one for each bit. -/
structure Flags where
  bits : UInt32
  deriving DecidableEq, Repr

namespace Flags

instance : OrOp Flags where
  or a b := ⟨a.bits ||| b.bits⟩

instance : AndOp Flags where
  and a b := ⟨a.bits &&& b.bits⟩

/-- No flag. -/
def empty : Flags := ⟨0⟩

/-! ## One flag for each kind of type -/

def any : Flags := ⟨0x1⟩

def unknown : Flags := ⟨0x2⟩

def string : Flags := ⟨0x4⟩

def number : Flags := ⟨0x8⟩

def boolean : Flags := ⟨0x10⟩

def stringLiteral : Flags := ⟨0x80⟩

def numberLiteral : Flags := ⟨0x100⟩

def booleanLiteral : Flags := ⟨0x200⟩

def void : Flags := ⟨0x4000⟩

def undefined : Flags := ⟨0x8000⟩

def null : Flags := ⟨0x10000⟩

def never : Flags := ⟨0x20000⟩

def object : Flags := ⟨0x80000⟩

def union : Flags := ⟨0x100000⟩

/-! ## Masks -/

/-- `boolean` and its two literals. -/
def booleanLike : Flags := boolean ||| booleanLiteral

/-- `number` and its literals. -/
def numberLike : Flags := number ||| numberLiteral

/-- `string` and its literals. -/
def stringLike : Flags := string ||| stringLiteral

/-- `null` and `undefined`. -/
def nullable : Flags := null ||| undefined

/-- The literals of all three primitives. -/
def literal : Flags := booleanLiteral ||| numberLiteral ||| stringLiteral

/-! ## Questions -/

/-- Flags are empty unless given. -/
instance : Inhabited Flags := ⟨empty⟩

/-- All flags of the mask are set. -/
def contains (flags mask : Flags) : Bool :=
  flags &&& mask == mask

/-- At least one flag of the mask is set. -/
def intersects (flags mask : Flags) : Bool :=
  flags &&& mask != empty

end Flags

end ScriptLint
