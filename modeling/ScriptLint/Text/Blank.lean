/-!
# Blank characters

The 25 characters with the Unicode property `White_Space`. They separate
lexemes and mean nothing else.

Key definitions: `isBlank`.
-/

namespace ScriptLint

/-- Tabs, line breaks and spaces of every width. -/
def isBlank (c : Char) : Bool :=
  let code := c.toNat
  if code < 0x80 then code == 0x20 || (0x09 ≤ code && code ≤ 0x0D)
  else code == 0x85 || code == 0xA0 || code == 0x1680 || (0x2000 ≤ code && code ≤ 0x200A)
    || code == 0x2028 || code == 0x2029 || code == 0x202F || code == 0x205F || code == 0x3000

end ScriptLint
