import ScriptLint.Number.Shortest
import ScriptLint.Syntax.Error
/-!
# Texts of one line

A text that is printed as a line must not break the line: it must have no
newline. This holds of a text if it holds of its parts, and of every number as
it is written. Lines that each end with a newline can be told apart in the
text that they make, so it is known of a text which lines it consists of
(`inLines_inj`).

Key definitions: `OneLine`, `inLines`.
Key theorems: `oneLine_append`, `Binary64.oneLine_render`, `inLines_inj`,
`count_inLines_eq_iff`.
-/

namespace ScriptLint

/-- The text has no newline. -/
def OneLine (text : String) : Prop :=
  '\n' ∉ text.toList

instance (text : String) : Decidable (OneLine text) :=
  inferInstanceAs (Decidable (¬_))

@[simp] theorem oneLine_append {a b : String} : OneLine (a ++ b) ↔ OneLine a ∧ OneLine b := by
  simp [OneLine, not_or]

@[simp] theorem oneLine_ofList {cs : List Char} : OneLine (String.ofList cs) ↔ '\n' ∉ cs := by
  rw [OneLine, String.toList_ofList]

theorem oneLine_of_forall {cs : List Char} {p : Char → Bool} (h : ∀ c ∈ cs, p c = true)
    (hp : p '\n' = false) : OneLine (String.ofList cs) := by
  rw [oneLine_ofList]
  intro hmem
  rw [h _ hmem] at hp
  cases hp

/-- Texts of one line with such a text between them. -/
theorem oneLine_intercalate {sep : String} (hsep : OneLine sep) {texts : List String}
    (h : ∀ text ∈ texts, OneLine text) : OneLine (sep.intercalate texts) := by
  induction texts with
  | nil => simp [OneLine]
  | cons text texts ih =>
    have hrest := ih fun other hother => h other (List.mem_cons_of_mem text hother)
    have htext := h text List.mem_cons_self
    cases texts with
    | nil => simpa using htext
    | cons next texts =>
      rw [String.intercalate_cons_cons, oneLine_append, oneLine_append]
      exact ⟨⟨htext, hsep⟩, hrest⟩

/-! ### Numbers -/

theorem newline_notMem_toDigits (n : Nat) : '\n' ∉ Nat.toDigits 10 n := by
  intro hmem
  have hdigit : '\n'.isDigit = true := Nat.isDigit_of_mem_toDigits (by decide) (by decide) hmem
  exact absurd hdigit (by decide)

theorem oneLine_toString (n : Nat) : OneLine (toString n) := by
  have h : toString n = String.ofList (Nat.toDigits 10 n) := rfl
  rw [h, oneLine_ofList]
  exact newline_notMem_toDigits n

theorem Decimal.oneLine_positional (d : Decimal) : OneLine d.positional := by
  have hdigits := newline_notMem_toDigits d.coefficient
  have hzeros : ∀ n : Nat, '\n' ∉ List.replicate n '0' := fun n hmem =>
    absurd (List.eq_of_mem_replicate hmem) (by decide)
  unfold positional
  generalize Nat.toDigits 10 d.coefficient = digits at hdigits ⊢
  dsimp only
  split
  · rw [oneLine_ofList, List.mem_append, not_or]
    exact ⟨hdigits, hzeros _⟩
  · split
    · rw [oneLine_ofList, List.mem_append, List.mem_cons, not_or, not_or]
      exact ⟨fun hmem => hdigits (List.mem_of_mem_take hmem), by decide,
        fun hmem => hdigits (List.mem_of_mem_drop hmem)⟩
    · rw [oneLine_ofList, List.mem_cons, List.mem_cons, List.mem_append]
      simp [hdigits, hzeros]

/-- **A number is written in one line.** -/
theorem Binary64.oneLine_render (x : Binary64) : OneLine x.render := by
  cases x with
  | nan => decide
  | infinite negative => cases negative <;> decide
  | finite negative mantissa exponent =>
    have hmagnitude : OneLine
        (if mantissa = 0 then "0" else (shortest mantissa exponent).positional) := by
      split
      · decide
      · exact Decimal.oneLine_positional _
    unfold render
    dsimp only
    split
    · rw [oneLine_append]
      exact ⟨by decide, hmagnitude⟩
    · exact hmagnitude

/-! ### Lines -/

/-- Lines that each end with a newline. -/
def inLines (lines : List String) : String :=
  String.join (lines.map (· ++ "\n"))

@[simp] theorem inLines_nil : inLines [] = "" := rfl

theorem inLines_cons (line : String) (lines : List String) :
    inLines (line :: lines) = line ++ "\n" ++ inLines lines := by
  simp [inLines, String.join_cons]

theorem inLines_append (lines lines' : List String) :
    inLines (lines ++ lines') = inLines lines ++ inLines lines' := by
  simp [inLines, String.join_append]

/-- What stands before the first newline of two texts is the same in both. -/
theorem line_inj {a b xs ys : List Char} (ha : '\n' ∉ a) (hb : '\n' ∉ b)
    (h : a ++ '\n' :: xs = b ++ '\n' :: ys) : a = b ∧ xs = ys := by
  induction a generalizing b with
  | nil =>
    cases b with
    | nil => exact ⟨rfl, (List.cons.inj h).2⟩
    | cons c b => exact absurd ((List.cons.inj h).1 ▸ List.mem_cons_self) hb
  | cons c a ih =>
    cases b with
    | nil => exact absurd ((List.cons.inj h).1 ▸ List.mem_cons_self) ha
    | cons c' b =>
      obtain ⟨rfl, htail⟩ := List.cons.inj h
      obtain ⟨rfl, hrest⟩ := ih (fun hmem => ha (List.mem_cons_of_mem c hmem))
        (fun hmem => hb (List.mem_cons_of_mem c hmem)) htail
      exact ⟨rfl, hrest⟩

/-- **A text tells the lines that it consists of.** -/
theorem inLines_inj {lines lines' : List String} (h : ∀ line ∈ lines, OneLine line)
    (h' : ∀ line ∈ lines', OneLine line) (heq : inLines lines = inLines lines') :
    lines = lines' := by
  induction lines generalizing lines' with
  | nil =>
    cases lines' with
    | nil => rfl
    | cons line lines' =>
      rw [inLines_cons] at heq
      have := congrArg (fun text => text.toList.length) heq
      simp at this
  | cons line lines ih =>
    cases lines' with
    | nil =>
      rw [inLines_cons] at heq
      have := congrArg (fun text => text.toList.length) heq
      simp at this
    | cons line' lines' =>
      have hlists : line.toList ++ '\n' :: (inLines lines).toList =
          line'.toList ++ '\n' :: (inLines lines').toList := by
        simpa [inLines_cons] using congrArg String.toList heq
      obtain ⟨hline, hrest⟩ := line_inj (h _ List.mem_cons_self) (h' _ List.mem_cons_self) hlists
      rw [String.toList_inj.mp hline, ih (fun l hl => h l (List.mem_cons_of_mem _ hl))
        (fun l hl => h' l (List.mem_cons_of_mem _ hl)) (String.toList_inj.mp hrest)]

theorem count_inLines_cons (line : String) (lines : List String) :
    (inLines (line :: lines)).toList.count '\n' =
      line.toList.count '\n' + (inLines lines).toList.count '\n' + 1 := by
  simp [inLines_cons, Nat.add_assoc]

theorem length_le_count_inLines (lines : List String) :
    lines.length ≤ (inLines lines).toList.count '\n' := by
  induction lines with
  | nil => exact Nat.zero_le _
  | cons line lines ih =>
    rw [count_inLines_cons, List.length_cons]
    omega

/-- **There are as many newlines as lines just if no line is broken.** -/
theorem count_inLines_eq_iff {lines : List String} :
    (inLines lines).toList.count '\n' = lines.length ↔ ∀ line ∈ lines, OneLine line := by
  induction lines with
  | nil => simp
  | cons line lines ih =>
    have hrest := length_le_count_inLines lines
    have hline : line.toList.count '\n' = 0 ↔ OneLine line := List.count_eq_zero
    rw [count_inLines_cons, List.length_cons, List.forall_mem_cons, ← hline, ← ih]
    omega

end ScriptLint
