import Mathlib.Data.List.Basic
import ScriptLint.Token.Munch
/-!
# Signs

The reader of signs looks at one character after the other and takes what
continues the sign. The same can be said by the table of all signs alone:
the first entry that begins the text is taken, where longer entries stand
before shorter ones. So the sign that is read is the longest one there is.

Key definitions: `Punctuator.longest?`.
Key theorems: `Punctuator.munch?_eq_longest?`, `Punctuator.longest?_of_prefix`.
-/

namespace ScriptLint

/-- What follows the given beginning, if the text has it. -/
def afterPrefix? : List Char → List Char → Option (List Char)
  | [], cs => some cs
  | p :: ps, cs => (eat? p cs).bind (afterPrefix? ps)

theorem afterPrefix?_append : ∀ ps cs : List Char, afterPrefix? ps (ps ++ cs) = some cs
  | [], _ => rfl
  | p :: ps, cs => by simp [afterPrefix?, eat?, afterPrefix?_append ps cs]

namespace Punctuator

/-- The first punctuator of the table with which the text begins, and what follows it. -/
def longest? (cs : List Char) : Option (Punctuator × List Char) :=
  all.findSome? fun sign => (afterPrefix? sign.spelling.toList cs).map fun rest => (sign, rest)

theorem mem_all (sign : Punctuator) : sign ∈ all := by
  cases sign <;> decide

/-- Longer signs stand first. -/
theorem all_pairwise_length : all.Pairwise fun sign sign' =>
    sign'.spelling.toList.length ≤ sign.spelling.toList.length := by
  decide

/-- **Where a sign begins the text, the longest one is found.** -/
theorem longest?_of_prefix {sign : Punctuator} {cs : List Char} (h : sign.spelling.toList <+: cs) :
    ∃ found rest, longest? cs = some (found, rest) ∧
      sign.spelling.toList.length ≤ found.spelling.toList.length := by
  obtain ⟨rest, rfl⟩ := h
  cases hfound : longest? (sign.spelling.toList ++ rest) with
  | none =>
    have hnone := List.findSome?_eq_none_iff.mp hfound sign sign.mem_all
    simp [afterPrefix?_append] at hnone
  | some result =>
    obtain ⟨found, left⟩ := result
    refine ⟨found, left, rfl, ?_⟩
    obtain ⟨before, sign', after, hall, hsome, hbefore⟩ := List.findSome?_eq_some_iff.mp hfound
    obtain ⟨_, -, heq⟩ := Option.map_eq_some_iff.mp hsome
    obtain rfl : sign' = found := (Prod.mk.inj heq).1
    have hmem := sign.mem_all
    rw [hall, List.mem_append, List.mem_cons] at hmem
    rcases hmem with hmem | rfl | hmem
    · have hnone := hbefore sign hmem
      simp [afterPrefix?_append] at hnone
    · exact Nat.le_refl _
    · have hpairwise := all_pairwise_length
      rw [hall] at hpairwise
      exact List.rel_of_pairwise_cons (List.pairwise_append.mp hpairwise).2.1 hmem

/-! ### The reader and the table -/

/-- The first entry whose spelling is continued by the text, and what follows it. -/
def firstContinued (entries : List (Punctuator × List Char)) (cs : List Char) :
    Option (Punctuator × List Char) :=
  entries.findSome? fun entry => (afterPrefix? entry.2 cs).map fun rest => (entry.1, rest)

/-- The entries of the table that begin with the given character, with the rest of their
spelling. -/
def startingWith (c : Char) : List (Punctuator × List Char) :=
  all.filterMap fun sign => (eat? c sign.spelling.toList).map fun more => (sign, more)

theorem afterPrefix?_spelling (sign : Punctuator) (c : Char) (cs : List Char) :
    afterPrefix? sign.spelling.toList (c :: cs) =
      (eat? c sign.spelling.toList).bind fun more => afterPrefix? more cs := by
  cases hspelling : sign.spelling.toList with
  | nil => exact absurd hspelling (spelling_ne_nil sign)
  | cons d more =>
    by_cases h : d = c
    · simp [afterPrefix?, eat?, h]
    · simp [afterPrefix?, eat?, h, Ne.symm h]

/-- Only the entries with the right first character matter. -/
theorem longest?_cons (c : Char) (cs : List Char) :
    longest? (c :: cs) = firstContinued (startingWith c) cs := by
  rw [longest?, firstContinued, startingWith, ← List.head?_filterMap, ← List.head?_filterMap,
    List.filterMap_filterMap]
  refine congrArg List.head? (List.filterMap_congr fun sign _ => ?_)
  rw [afterPrefix?_spelling]
  cases eat? c sign.spelling.toList <;> rfl

theorem startingWith_eq_nil {c : Char}
    (h : ∀ sign : Punctuator, sign.spelling.toList.head? ≠ some c) : startingWith c = [] := by
  rw [startingWith, List.filterMap_eq_nil_iff]
  intro sign _
  have hhead := h sign
  cases hspelling : sign.spelling.toList with
  | nil => rfl
  | cons d more =>
    have hd : d ≠ c := by simpa [hspelling] using hhead
    simp [eat?, hd]

section Continued

variable {c d : Char} {one two three : Punctuator} {cs : List Char}

theorem firstContinued_orLonger :
    firstContinued [(two, [c]), (one, [])] cs = some (orLonger one c two cs) := by
  simp only [firstContinued, List.findSome?, afterPrefix?, orLonger]
  cases eat? c cs <;> rfl

/-- A sign that goes on with the same character up to twice. -/
theorem firstContinued_twice : firstContinued [(three, [c, c]), (two, [c]), (one, [])] cs =
    match eat? c cs with
    | some rest => some (orLonger two c three rest)
    | none => some (one, cs) := by
  simp only [firstContinued, List.findSome?, afterPrefix?, orLonger]
  cases eat? c cs with
  | none => rfl
  | some rest =>
    simp only [Option.bind_some]
    cases eat? c rest <;> rfl

/-- A sign that goes on with one character or another one. -/
theorem firstContinued_either : firstContinued [(two, [c]), (three, [d]), (one, [])] cs =
    match eat? c cs with
    | some rest => some (two, rest)
    | none => some (orLonger one d three cs) := by
  simp only [firstContinued, List.findSome?, afterPrefix?, orLonger]
  cases eat? c cs with
  | none => cases eat? d cs <;> rfl
  | some rest => rfl

end Continued

/-- **What is read character by character is the first entry of the table that fits.** -/
theorem munch?_eq_longest? (c : Char) (cs : List Char) : munch? c cs = longest? (c :: cs) := by
  rw [longest?_cons]
  unfold munch?
  -- for a given first character the entries that begin with it are known
  split
  · rfl
  · rfl
  · rfl
  · rfl
  · rfl
  · rfl
  · rfl
  · rfl
  · rfl
  · rfl
  · rfl
  · rfl
  · rfl
  · rfl
  · exact firstContinued_orLonger.symm
  · exact firstContinued_orLonger.symm
  · exact firstContinued_twice.symm
  · exact firstContinued_twice.symm
  · exact firstContinued_either.symm
  · exact firstContinued_either.symm
  · exact firstContinued_orLonger.symm
  · exact firstContinued_orLonger.symm
  · exact firstContinued_orLonger.symm
  · rw [startingWith_eq_nil]
    · rfl
    · intro sign hhead
      cases sign <;> (simp [spelling] at hhead; exact absurd hhead.symm (by assumption))

end Punctuator

end ScriptLint
