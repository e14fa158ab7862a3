import ScriptLint.Text.Span
/-!
# Byte offsets into a text

Offsets count the bytes of a text's UTF-8 form, while the text itself is
read character by character. A cut at a byte offset therefore exists only
where a character begins or the text ends.

Key definitions: `byteLength`, `dropBytes?`, `takeBytes?`, `slice?`.
-/

namespace ScriptLint

/-- The number of bytes that the characters take in UTF-8. -/
def byteLength : List Char → Nat
  | [] => 0
  | c :: cs => c.utf8Size + byteLength cs

/-- What follows the first `count` bytes; there is no such text when the cut
falls inside a character or behind the end. -/
def dropBytes? : Nat → List Char → Option (List Char)
  | count, [] => if count = 0 then some [] else none
  | count, c :: cs =>
    if count = 0 then some (c :: cs)
    else if c.utf8Size ≤ count then dropBytes? (count - c.utf8Size) cs
    else none

/-- The first `count` bytes; there is no such text when the cut falls inside
a character or behind the end. -/
def takeBytes? : Nat → List Char → Option (List Char)
  | count, [] => if count = 0 then some [] else none
  | count, c :: cs =>
    if count = 0 then some []
    else if c.utf8Size ≤ count then (takeBytes? (count - c.utf8Size) cs).map (c :: ·)
    else none

/-- The characters of a span, if both of its ends are cuts of the text. -/
def slice? (span : Span) (cs : List Char) : Option (List Char) :=
  (dropBytes? span.start cs).bind (takeBytes? span.length)

@[simp] theorem byteLength_nil : byteLength [] = 0 := rfl

@[simp] theorem byteLength_cons (c : Char) (cs : List Char) :
    byteLength (c :: cs) = c.utf8Size + byteLength cs := rfl

@[simp] theorem byteLength_append : ∀ xs ys : List Char,
    byteLength (xs ++ ys) = byteLength xs + byteLength ys
  | [], ys => by simp
  | x :: xs, ys => by simp [byteLength_append xs ys, Nat.add_assoc]

/-- The size of a text is that of its characters. -/
theorem utf8ByteSize_eq_byteLength (text : String) :
    text.utf8ByteSize = byteLength text.toList := by
  have h : ∀ cs : List Char, (String.ofList cs).utf8ByteSize = byteLength cs := by
    intro cs
    induction cs with
    | nil => rfl
    | cons c cs ih =>
      rw [String.ofList_cons]
      simp [ih]
  rw [← h, String.ofList_toList]

/-- Nothing is lost at a cut. -/
theorem dropBytes?_byteLength : ∀ xs ys : List Char,
    dropBytes? (byteLength xs) (xs ++ ys) = some ys
  | [], [] => rfl
  | [], _ :: _ => rfl
  | x :: xs, ys => by
    have h0 : x.utf8Size ≠ 0 := Nat.ne_of_gt x.utf8Size_pos
    simp [dropBytes?, h0, dropBytes?_byteLength xs ys]

theorem takeBytes?_byteLength : ∀ xs ys : List Char,
    takeBytes? (byteLength xs) (xs ++ ys) = some xs
  | [], [] => rfl
  | [], _ :: _ => rfl
  | x :: xs, ys => by
    have h0 : x.utf8Size ≠ 0 := Nat.ne_of_gt x.utf8Size_pos
    simp [takeBytes?, h0, takeBytes?_byteLength xs ys]

/-- The slice at the span of a part is that part. -/
theorem slice?_append (before part after : List Char) :
    slice? ⟨byteLength before, byteLength part⟩ (before ++ (part ++ after)) = some part := by
  simp [slice?, dropBytes?_byteLength, takeBytes?_byteLength]

end ScriptLint
