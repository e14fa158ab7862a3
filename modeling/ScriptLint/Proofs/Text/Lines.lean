import Mathlib.Data.List.Count
import ScriptLint.Proofs.Text.Partial
/-!
# Lines and newlines

The lines of a text begin behind its newlines. A newline is one byte, and no
other character has this byte in its UTF-8 form, so the newlines can be looked
for among the bytes of the text (`newlineEnds_eq`). The line of an offset is
then the number of newline bytes below it, and the number of newlines before
it where a character begins at the offset.

A search among the starts of the lines that keeps to its contract ends at this
line, whether it hits a start or stops in a gap between two.

Key definitions: `bytesOf`, `Located`, `lastLine`.
Key theorems: `LineIndex.lineOf_ofText`, `LineIndex.lineStart?_ofText_iff`, `Located.line_eq`,
`LineIndex.lineOf_byteLength`, `LineIndex.lineStart?_byteLength`.
-/

namespace ScriptLint

/-! ### Bytes -/

/-- The bytes of characters in UTF-8. -/
def bytesOf (cs : List Char) : List UInt8 :=
  cs.flatMap String.utf8EncodeChar

@[simp] theorem bytesOf_nil : bytesOf [] = [] := rfl

@[simp] theorem bytesOf_cons (c : Char) (cs : List Char) :
    bytesOf (c :: cs) = String.utf8EncodeChar c ++ bytesOf cs := rfl

/-- The bytes of a text are those of its characters. -/
theorem bytesOf_toList (text : String) : bytesOf text.toList = text.toUTF8.data.toList := by
  have h : text.toList.utf8Encode = text.toUTF8 := String.utf8Encode_toList
  rw [← h, List.utf8Encode, List.data_toByteArray, bytesOf]

theorem length_bytesOf (cs : List Char) : (bytesOf cs).length = byteLength cs := by
  induction cs with
  | nil => rfl
  | cons c cs ih =>
    rw [bytesOf_cons, List.length_append, String.length_utf8EncodeChar, ih, byteLength_cons]

/-- No other character has the byte of a newline. -/
theorem newline_mem_utf8EncodeChar {c : Char} : 10 ∈ String.utf8EncodeChar c ↔ c = '\n' := by
  constructor
  · intro h
    apply Char.ext
    apply UInt32.toNat_inj.mp
    show c.val.toNat = 10
    unfold String.utf8EncodeChar at h
    dsimp only at h
    generalize c.val.toNat = v at h ⊢
    -- all bytes of a form of more than one byte are at least 128
    repeat' split at h
    all_goals
      simp only [List.mem_cons, List.not_mem_nil, or_false, ← UInt8.toNat_inj,
        UInt8.toNat_ofNat', UInt8.toNat_ofNat] at h
      omega
  · rintro rfl
    decide

/-! ### Places in a list -/

section Places

variable {α : Type} [DecidableEq α]

theorem countP_idxsOf_lt (a : α) (l : List α) (s n : Nat) :
    (l.idxsOf a s).countP (· < s + n) = (l.take n).count a := by
  induction l generalizing s n with
  | nil => simp
  | cons x l ih =>
    cases n with
    | zero =>
      have hnone : ((x :: l).idxsOf a s).countP (· < s) = 0 := by
        refine List.countP_eq_zero.mpr fun i hi => ?_
        have := List.ge_of_mem_findIdxs i hi
        simpa using this
      simpa using hnone
    | succ n =>
      have hnext := ih (s + 1) n
      rw [show s + 1 + n = s + (n + 1) by omega] at hnext
      rw [List.idxsOf_cons, List.take_succ_cons, List.count_cons]
      split
      · rw [List.countP_cons_of_pos (by simp), hnext]
      · rw [hnext, Nat.add_zero]

/-- The element at a place is the one that is looked for, and so many of them stand before. -/
theorem getElem?_idxsOf_iff (a : α) (l : List α) (s k i : Nat) :
    (l.idxsOf a s)[k]? = some i ↔
      ∃ n, i = s + n ∧ l[n]? = some a ∧ (l.take n).count a = k := by
  induction l generalizing s k with
  | nil => simp
  | cons x l ih =>
    rw [List.idxsOf_cons]
    by_cases hx : x = a
    · subst hx
      rw [if_pos (beq_self_eq_true x)]
      cases k with
      | zero =>
        rw [List.getElem?_cons_zero, Option.some_inj]
        constructor
        · rintro rfl
          exact ⟨0, rfl, rfl, rfl⟩
        · rintro ⟨_ | n, hi, -, hk⟩
          · omega
          · simp at hk
      | succ k =>
        rw [List.getElem?_cons_succ, ih]
        constructor
        · rintro ⟨n, rfl, hn, rfl⟩
          exact ⟨n + 1, by omega, by simpa using hn, by simp⟩
        · rintro ⟨_ | n, rfl, hn, hk⟩
          · simp at hk
          · exact ⟨n, by omega, by simpa using hn, by simpa using hk⟩
    · rw [if_neg (by simpa using hx), ih]
      constructor
      · rintro ⟨n, rfl, hn, rfl⟩
        exact ⟨n + 1, by omega, by simpa using hn, by simp [hx]⟩
      · rintro ⟨_ | n, rfl, hn, hk⟩
        · simp [hx] at hn
        · exact ⟨n, by omega, by simpa using hn, by simpa [hx] using hk⟩

end Places

/-! ### Newlines -/

/-- **The lines start one behind the newlines,** which can be looked for among the bytes. -/
theorem newlineEnds_eq (offset : Nat) (cs : List Char) :
    newlineEnds offset cs = ((bytesOf cs).idxsOf 10 offset).map (· + 1) := by
  induction cs generalizing offset with
  | nil => rfl
  | cons c cs ih =>
    rw [newlineEnds, bytesOf_cons, List.idxsOf, List.findIdxs_append, String.length_utf8EncodeChar]
    split
    · rename_i hc
      subst hc
      rw [ih]
      rfl
    · rename_i hc
      have hnone : (String.utf8EncodeChar c).findIdxs (· == 10) offset = [] := by
        refine List.findIdxs_eq_nil_iff.mpr fun b hb => beq_eq_false_iff_ne.mpr ?_
        rintro rfl
        exact hc (newline_mem_utf8EncodeChar.mp hb)
      rw [hnone, ih]
      rfl

theorem newlineEnds_append (offset : Nat) (xs ys : List Char) :
    newlineEnds offset (xs ++ ys) =
      newlineEnds offset xs ++ newlineEnds (offset + byteLength xs) ys := by
  rw [newlineEnds_eq, newlineEnds_eq, newlineEnds_eq, bytesOf, List.flatMap_append, List.idxsOf,
    List.findIdxs_append, List.map_append]
  show _ ++ List.map _ (List.findIdxs _ _ (offset + (bytesOf xs).length)) = _
  rw [length_bytesOf]
  rfl

theorem length_newlineEnds (offset : Nat) (cs : List Char) :
    (newlineEnds offset cs).length = cs.count '\n' := by
  induction cs generalizing offset with
  | nil => rfl
  | cons c cs ih =>
    rw [newlineEnds, List.count_cons]
    by_cases hc : c = '\n'
    · rw [if_pos hc, List.length_cons, ih, if_pos (beq_iff_eq.mpr hc)]
    · rw [if_neg hc, ih, if_neg (by simpa using hc), Nat.add_zero]

/-! ### Searching for a line -/

/-- What a search for an offset among starts may end with: the line that starts there, or the
place where the offset would have to be put in. -/
inductive Located (starts : List Nat) (offset : Nat) : Except Nat Nat → Prop
  | hit {line : Nat} (h : starts[line]? = some offset) : Located starts offset (.ok line)
  | gap {next : Nat} (le : next ≤ starts.length)
      (before : ∀ start ∈ starts.take next, start < offset)
      (behind : ∀ start ∈ starts.drop next, offset < start) :
      Located starts offset (.error next)

/-- The line that a search has ended at: the one it has hit, or the one before the gap. -/
def lineFound? : Except Nat Nat → Option Nat
  | .ok line => some line
  | .error next => minus? next 1

/-- A gap has so many starts before it as are not behind the offset. -/
theorem countP_eq_of_gap {starts : List Nat} {offset next : Nat} (hnext : next ≤ starts.length)
    (before : ∀ start ∈ starts.take next, start < offset)
    (behind : ∀ start ∈ starts.drop next, offset < start) :
    starts.countP (· ≤ offset) = next := by
  have hbefore : (starts.take next).countP (· ≤ offset) = (starts.take next).length :=
    List.countP_eq_length.mpr fun start hstart => by
      have := before start hstart
      simp only [decide_eq_true_eq]
      omega
  have hbehind : (starts.drop next).countP (· ≤ offset) = 0 :=
    List.countP_eq_zero.mpr fun start hstart => by
      have := behind start hstart
      simp only [decide_eq_true_eq]
      omega
  calc starts.countP (· ≤ offset)
      = (starts.take next ++ starts.drop next).countP (· ≤ offset) := by
        rw [List.take_append_drop]
    _ = next := by
        rw [List.countP_append, hbefore, hbehind, List.length_take]
        omega

/-- **A search that keeps to its contract ends at the line of the offset.** -/
theorem Located.line_eq {index : LineIndex} (h : index.Ordered) {offset : Nat}
    {found : Except Nat Nat} (hfound : Located index.starts offset found) :
    lineFound? found = some (index.lineOf offset) := by
  have hcount := index.countP_starts offset
  cases hfound with
  | hit hline =>
    have := countP_le_of_getElem? h hline
    rw [lineFound?, Option.some_inj]
    omega
  | gap hle before behind =>
    rw [countP_eq_of_gap hle before behind] at hcount
    rw [lineFound?, hcount, minus?_add_one]

namespace LineIndex

/-- **The line of an offset is the number of newline bytes below it.** -/
theorem lineOf_ofText (text : String) (offset : Nat) :
    (ofText text).lineOf offset = (text.toUTF8.data.toList.take offset).count 10 := by
  have hpred : (fun start => decide (start ≤ offset)) ∘ (· + 1) = (fun i => decide (i < 0 + offset)) := by
    funext i
    simp only [Function.comp_apply, decide_eq_decide]
    omega
  rw [lineOf, ofText, newlineEnds_eq, List.countP_map, hpred, countP_idxsOf_lt, bytesOf_toList]

/-- There is one line more than there are newlines. -/
theorem count_ofText (text : String) :
    (ofText text).count = text.toUTF8.data.toList.count 10 + 1 := by
  rw [count, starts, ofText, newlineEnds_eq, List.length_cons, List.length_map, bytesOf_toList,
    List.idxsOf, List.length_findIdxs, List.count]

/-- **A later line starts one behind the newline that ends the line before it.** -/
theorem lineStart?_ofText_iff (text : String) (line start : Nat) :
    (ofText text).lineStart? (line + 1) = some start ↔
      ∃ place, start = place + 1 ∧ text.toUTF8.data.toList[place]? = some 10 ∧
        (text.toUTF8.data.toList.take place).count 10 = line := by
  have hplaces := getElem?_idxsOf_iff (10 : UInt8) (bytesOf text.toList) 0 line
  rw [lineStart?, starts, ofText, List.getElem?_cons_succ, newlineEnds_eq, List.getElem?_map,
    Option.map_eq_some_iff]
  rw [bytesOf_toList] at hplaces ⊢
  constructor
  · rintro ⟨i, hi, rfl⟩
    obtain ⟨place, rfl, hbyte, hbefore⟩ := (hplaces i).mp hi
    exact ⟨place, by omega, hbyte, hbefore⟩
  · rintro ⟨place, rfl, hbyte, hbefore⟩
    exact ⟨place, (hplaces place).mpr ⟨place, by omega, hbyte, hbefore⟩, rfl⟩

end LineIndex

/-! ### Lines between characters -/

/-- The characters since the last newline. -/
def lastLine (cs : List Char) : List Char :=
  (cs.reverse.takeWhile fun c => c != '\n').reverse

/-- The characters up to the last newline, which is one of them. -/
def wholeLines (cs : List Char) : List Char :=
  (cs.reverse.dropWhile fun c => c != '\n').reverse

/-- The characters form whole lines. -/
def Whole (cs : List Char) : Prop :=
  cs = [] ∨ ∃ line, cs = line ++ ['\n']

theorem wholeLines_append_lastLine (cs : List Char) : wholeLines cs ++ lastLine cs = cs := by
  rw [wholeLines, lastLine, ← List.reverse_append, List.takeWhile_append_dropWhile,
    List.reverse_reverse]

theorem newline_notMem_lastLine (cs : List Char) : '\n' ∉ lastLine cs := by
  intro h
  have := List.all_eq_true.mp List.all_takeWhile _ (List.mem_reverse.mp h)
  simp at this

theorem whole_wholeLines (cs : List Char) : Whole (wholeLines cs) := by
  unfold Whole wholeLines
  cases hrest : cs.reverse.dropWhile fun c => c != '\n' with
  | nil => exact .inl rfl
  | cons c rest =>
    have hc : (c != '\n') = false := by
      have := List.head_dropWhile_not (fun c => c != '\n') (by rw [hrest]; simp)
      simpa [hrest] using this
    refine .inr ⟨rest.reverse, ?_⟩
    rw [List.reverse_cons, bne_eq_false_iff_eq.mp hc]

/-- A line goes on up to the next newline. -/
theorem lastLine_append (xs : List Char) {ys : List Char} (h : '\n' ∉ ys) :
    lastLine (xs ++ ys) = lastLine xs ++ ys := by
  have hys : ∀ c ∈ ys.reverse, (c != '\n') = true := fun c hc =>
    bne_iff_ne.mpr fun heq => h (heq ▸ List.mem_reverse.mp hc)
  rw [lastLine, lastLine, List.reverse_append, List.takeWhile_append_of_pos hys,
    List.reverse_append, List.reverse_reverse]

theorem count_wholeLines (cs : List Char) : (wholeLines cs).count '\n' = cs.count '\n' := by
  have hlast : (lastLine cs).count '\n' = 0 := List.count_eq_zero.mpr (newline_notMem_lastLine cs)
  conv_rhs => rw [← wholeLines_append_lastLine cs, List.count_append, hlast, Nat.add_zero]

namespace LineIndex

variable {text : String} {before after : List Char}

/-- **Between two characters so many newlines have been read as the line says.** -/
theorem lineOf_byteLength (h : text.toList = before ++ after) :
    (ofText text).lineOf (byteLength before) = before.count '\n' := by
  rw [lineOf, ofText, h, newlineEnds_append, List.countP_append, Nat.zero_add]
  have hbefore : (newlineEnds 0 before).countP (· ≤ byteLength before) = before.count '\n' := by
    rw [← length_newlineEnds 0 before]
    refine List.countP_eq_length.mpr fun start hstart => ?_
    simpa using ((newlineEnds_ordered 0 before).2 start hstart).2
  have hafter : (newlineEnds (byteLength before) after).countP (· ≤ byteLength before) = 0 := by
    refine List.countP_eq_zero.mpr fun start hstart => ?_
    simpa using ((newlineEnds_ordered (byteLength before) after).2 start hstart).1
  rw [hbefore, hafter, Nat.add_zero]

/-- A line starts where whole lines end. -/
theorem lineStart?_byteLength (h : text.toList = before ++ after) (hwhole : Whole before) :
    (ofText text).lineStart? (before.count '\n') = some (byteLength before) := by
  rcases hwhole with rfl | ⟨line, rfl⟩
  · rfl
  · have hcount : (line ++ ['\n']).count '\n' = line.count '\n' + 1 := by simp
    have hstart : newlineEnds (byteLength line) ['\n'] = [byteLength (line ++ ['\n'])] := by
      rw [byteLength_append]
      rfl
    rw [lineStart?, starts, ofText, h, hcount, List.getElem?_cons_succ, newlineEnds_append,
      newlineEnds_append, Nat.zero_add, hstart, ← length_newlineEnds 0 line]
    simp

/-- Behind the last newline no line starts. -/
theorem lineStart?_none (h : text.toList = before ++ after) (hlast : '\n' ∉ after) :
    (ofText text).lineStart? (before.count '\n' + 1) = none := by
  have hafter : after.count '\n' = 0 := List.count_eq_zero.mpr hlast
  rw [lineStart?, starts, ofText, List.getElem?_cons_succ, List.getElem?_eq_none_iff,
    length_newlineEnds, h, List.count_append, hafter]
  exact Nat.le_of_eq (Nat.add_zero _)

end LineIndex

end ScriptLint
