import ScriptLint.Proofs.Diagnostic.Positions
/-!
# The underline sits under the text

A diagnostic is printed with the line of the source in which it starts and with
an underline below. Line and underline are put behind a gutter of the same
width. The underline is moved on by as many characters as stand in the line
before the diagnostic, and it has as many tildes as characters are covered
before the end of the line. So each tilde stands below the character that it
is for, whatever the characters are: the part of the line that is covered has
no break and is therefore not cut off with the breaks at the end of the line.

Key definitions: `isBreak`, `unbroken`.
Key theorems: `coveredWidth_eq`, `trimLine_append`, `Printer.lineText_eq`,
`Printer.underline_below_text`.
-/

namespace ScriptLint

/-- The characters that end a line. -/
def isBreak (c : Char) : Bool :=
  c == '\n' || c == '\r'

/-- What stands before the first break. -/
def unbroken (cs : List Char) : List Char :=
  cs.takeWhile fun c => !isBreak c

theorem isBreak_of_mem_unbroken {cs : List Char} {c : Char} (h : c ∈ unbroken cs) :
    isBreak c = false := by
  simpa using List.all_eq_true.mp List.all_takeWhile c h

theorem unbroken_cons {c : Char} (hc : isBreak c = false) (cs : List Char) :
    unbroken (c :: cs) = c :: unbroken cs := by
  rw [unbroken, List.takeWhile_cons_of_pos (by simp [hc]), unbroken]

/-! ### The width -/

/-- **The width counts the characters before the first break that begin within the length.** -/
theorem coveredWidth_eq (length : Nat) (cs : List Char) : coveredWidth length cs =
    (List.range (unbroken cs).length).countP
      fun i => byteLength ((unbroken cs).take i) < length := by
  induction cs generalizing length with
  | nil => rfl
  | cons c cs ih =>
    rw [coveredWidth]
    by_cases hbreak : isBreak c = true
    · have hnone : unbroken (c :: cs) = [] := by simp [unbroken, hbreak]
      have hstops : length = 0 ∨ c = '\n' ∨ c = '\r' := .inr (by simpa [isBreak] using hbreak)
      rw [hnone, if_pos hstops]
      rfl
    · rw [Bool.not_eq_true] at hbreak
      rw [unbroken_cons hbreak, List.length_cons, List.range_succ_eq_map, List.countP_cons,
        List.countP_map]
      by_cases hzero : length = 0
      · subst hzero
        simp
      · have hpos : 0 < length := Nat.pos_of_ne_zero hzero
        have hstep : ((fun i => decide (byteLength ((c :: unbroken cs).take i) < length)) ∘ Nat.succ)
            = fun i => decide (byteLength ((unbroken cs).take i) < length - c.utf8Size) := by
          funext i
          show decide (c.utf8Size + byteLength ((unbroken cs).take i) < length) = _
          exact decide_eq_decide.mpr (by omega)
        have hgoes : ¬(length = 0 ∨ c = '\n' ∨ c = '\r') := by
          simpa [isBreak, hzero] using hbreak
        rw [if_neg hgoes, ih, hstep]
        simp [hpos]

theorem coveredWidth_le (length : Nat) (cs : List Char) :
    coveredWidth length cs ≤ (unbroken cs).length := by
  rw [coveredWidth_eq]
  exact List.countP_le_length.trans_eq List.length_range

/-! ### The line -/

theorem trimLine_eq (cs : List Char) : trimLine cs = (cs.reverse.dropWhile isBreak).reverse := rfl

/-- What is cut off is cut off behind the last character that is no break. -/
theorem trimLine_append {xs : List Char} (h : ∃ init c, xs = init ++ [c] ∧ isBreak c = false)
    (ys : List Char) : trimLine (xs ++ ys) = xs ++ trimLine ys := by
  obtain ⟨init, c, rfl, hc⟩ := h
  rw [trimLine_eq, trimLine_eq, List.reverse_append, List.dropWhile_append]
  split
  · rename_i hempty
    rw [List.isEmpty_iff.mp hempty, List.reverse_concat, List.dropWhile_cons_of_neg (by simp [hc]),
      List.reverse_cons, List.reverse_reverse, List.reverse_nil, List.append_nil]
  · rw [List.reverse_append, List.reverse_reverse]

/-- A newline at the end makes no difference. -/
theorem trimLine_newline (cs : List Char) : trimLine (cs ++ ['\n']) = trimLine cs := by
  rw [trimLine_eq, List.reverse_concat, List.dropWhile_cons_of_pos rfl, trimLine_eq]

/-- Only breaks are cut off, and all of them. -/
theorem exists_breaks (cs : List Char) : ∃ breaks, cs = trimLine cs ++ breaks ∧
    (∀ b ∈ breaks, isBreak b = true) ∧ ∀ b ∈ (trimLine cs).getLast?, isBreak b = false := by
  refine ⟨(cs.reverse.takeWhile isBreak).reverse, ?_, fun b hb => ?_, fun b hb => ?_⟩
  · rw [trimLine_eq, ← List.reverse_append, List.takeWhile_append_dropWhile, List.reverse_reverse]
  · exact List.all_eq_true.mp List.all_takeWhile b (List.mem_reverse.mp hb)
  · rw [trimLine_eq, List.getLast?_reverse, Option.mem_def] at hb
    have := List.head?_dropWhile_not isBreak cs.reverse
    rw [hb] at this
    simpa using this

namespace Printer

variable (file : String) {text : String} (colours : Option Painter) {before after : List Char}

/-- **The line that is shown reaches from the last newline to the next one,** without the breaks at
its end. -/
theorem lineText_eq (h : text.toList = before ++ after) :
    (new file text colours).lineText (before.count '\n') =
      trimLine (lastLine before ++ after.takeWhile fun c => c != '\n') := by
  have hline : '\n' ∉ after.takeWhile fun c => c != '\n' := fun hmem => by
    simpa using List.all_eq_true.mp List.all_takeWhile _ hmem
  have hsplit : after = (after.takeWhile fun c => c != '\n') ++
      after.dropWhile fun c => c != '\n' := (List.takeWhile_append_dropWhile).symm
  generalize (after.takeWhile fun c => c != '\n') = line at hline hsplit ⊢
  have hstart : (new file text colours).lineStart (before.count '\n') =
      byteLength (wholeLines before) := lineStart_byteLength h
  unfold lineText
  rw [hstart]
  cases hrest : after.dropWhile fun c => c != '\n' with
  | nil =>
    -- the last line ends with the text
    obtain rfl : after = line := by rw [hsplit, hrest, List.append_nil]
    have hnext : (new file text colours).lines.lineStart? (before.count '\n' + 1) = none :=
      LineIndex.lineStart?_none h hline
    have hread : text.toList = before ++ (after ++ []) := by rw [List.append_nil, h]
    have hslice := slice?_line hread
    rw [hnext, Option.getD_none]
    show trimLine ((slice? (Span.upTo _ (byteLength text.toList)) text.toList).getD []) = _
    rw [h] at hslice ⊢
    rw [hslice, Option.getD_some]
  | cons c rest =>
    obtain rfl : c = '\n' := by
      have := List.head_dropWhile_not (fun c => c != '\n') (by rw [hrest]; simp)
      simpa [hrest] using this
    have hread : text.toList = before ++ ((line ++ ['\n']) ++ rest) := by
      rw [h, hsplit, hrest, List.append_assoc, List.singleton_append]
    have hcount : (before ++ (line ++ ['\n'])).count '\n' = before.count '\n' + 1 := by
      simp [List.count_eq_zero.mpr hline]
    have hnext : (new file text colours).lines.lineStart? (before.count '\n' + 1) =
        some (byteLength (before ++ (line ++ ['\n']))) := by
      have := LineIndex.lineStart?_byteLength (hread.trans (List.append_assoc _ _ _).symm)
        (.inr ⟨before ++ line, (List.append_assoc _ _ _).symm⟩)
      rwa [hcount] at this
    rw [hnext, Option.getD_some]
    show trimLine ((slice? _ text.toList).getD []) = _
    rw [slice?_line hread, Option.getD_some, ← List.append_assoc, trimLine_newline]

/-- The covered part of a line is not cut off. -/
theorem trimLine_line {c : Char} (hc : isBreak c = false) (lead rest : List Char) :
    ∃ more, trimLine (lead ++ (c :: rest).takeWhile fun c => c != '\n') =
      lead ++ (unbroken (c :: rest) ++ more) := by
  have hpart : ∀ x ∈ unbroken (c :: rest), (x != '\n') = true := fun x hx => by
    have := isBreak_of_mem_unbroken hx
    simp_all [isBreak]
  have hsplit : (c :: rest).takeWhile (fun c => c != '\n') = unbroken (c :: rest) ++
      ((c :: rest).dropWhile fun c => !isBreak c).takeWhile fun c => c != '\n' := by
    conv_lhs => rw [← List.takeWhile_append_dropWhile (p := fun c => !isBreak c) (l := c :: rest)]
    exact List.takeWhile_append_of_pos hpart
  have hlast : ∃ init x, lead ++ unbroken (c :: rest) = init ++ [x] ∧ isBreak x = false := by
    have hne : unbroken (c :: rest) ≠ [] := by simp [unbroken_cons hc]
    refine ⟨lead ++ (unbroken (c :: rest)).dropLast, (unbroken (c :: rest)).getLast hne, ?_,
      isBreak_of_mem_unbroken (List.getLast_mem hne)⟩
    rw [List.append_assoc, List.dropLast_append_getLast hne]
  rw [hsplit, ← List.append_assoc, trimLine_append hlast, List.append_assoc]
  exact ⟨_, rfl⟩

/-! ### The lines that are printed -/

theorem render_append (p : Printer) (ds ds' : List Diagnostic) :
    p.render (ds ++ ds') = p.render ds ++ p.render ds' := by
  simp [render, String.join_append]

theorem render_cons (p : Printer) (d : Diagnostic) (ds : List Diagnostic) :
    p.render (d :: ds) = p.renderOne d ++ p.render ds := by
  simp [render, String.join_cons]

theorem toList_sourceLine (h : text.toList = before ++ after) :
    ((new file text colours).sourceLine (before.count '\n' + 1)).toList =
      (toString (before.count '\n' + 1)).toList ++
        ' ' :: trimLine (lastLine before ++ after.takeWhile fun c => c != '\n') := by
  rw [sourceLine, Nat.add_sub_cancel, lineText_eq file colours h]
  simp

theorem toList_underline (text : String) (d : Diagnostic) (line column : Nat) :
    ((new file text none).underline d line (column + 1)).toList =
      List.replicate ((toString line).toList.length + 1 + column) ' ' ++
        List.replicate ((new file text none).underlineWidth d.span) '~' := by
  rw [String.length_toList]
  generalize hgutter : toString line = gutter
  simp [underline, row, paint, new, hgutter, List.replicate_add]

/-- The characters behind a gutter and the beginning of a line. -/
theorem getElem?_behind (gutter lead part more : List Char) {j : Nat} (hj : j < part.length) :
    (gutter ++ ' ' :: (lead ++ (part ++ more)))[gutter.length + 1 + lead.length + j]? =
      some part[j] := by
  have hsplit : gutter ++ ' ' :: (lead ++ (part ++ more)) =
      (gutter ++ ' ' :: lead) ++ (part ++ more) := by
    rw [List.append_assoc, List.cons_append]
  have hlength : gutter.length + 1 + lead.length + j = (gutter ++ ' ' :: lead).length + j := by
    rw [List.length_append, List.length_cons]
    omega
  rw [hsplit, hlength, List.getElem?_append_right (Nat.le_add_right _ _), Nat.add_sub_cancel_left,
    List.getElem?_append_left hj, List.getElem?_eq_getElem hj]

/-- **The underline sits under the text.** A diagnostic that starts at a character which is no
break is printed in four lines between those of the others. The second shows the line of the
source in which it starts, without the breaks at its end. The third has its tildes below the
characters of the text from the start of the diagnostic on: as many as there are before the
first break that begin within its length, and at least one. So it does not run past the line. -/
theorem underline_below_text (file text : String) (before after : List Char) (c : Char)
    (d : Diagnostic) (h : text.toList = before ++ c :: after) (hc : c ≠ '\n' ∧ c ≠ '\r')
    (hstart : d.span.start = byteLength before) (earlier later : List Diagnostic) :
    ∃ (source underline shown breaks : List Char) (indent width : Nat),
      (new file text none).render (earlier ++ d :: later) =
        (new file text none).render earlier ++
          ((new file text none).header d (before.count '\n' + 1) ((lastLine before).length + 1)
            ++ "\n" ++ String.ofList source ++ "\n" ++ String.ofList underline ++ "\n" ++ "\n") ++
          (new file text none).render later ∧
      source = (toString (before.count '\n' + 1)).toList ++ ' ' :: shown ∧
      lastLine before ++ (c :: after).takeWhile (· != '\n') = shown ++ breaks ∧
      (∀ b ∈ breaks, b = '\n' ∨ b = '\r') ∧ (∀ b ∈ shown.getLast?, b ≠ '\n' ∧ b ≠ '\r') ∧
      underline = List.replicate indent ' ' ++ List.replicate width '~' ∧
      (∀ j < width, ∃ x, source[indent + j]? = some x ∧ (c :: after)[j]? = some x) ∧
      width = max 1 ((List.range (unbroken (c :: after)).length).countP
        fun i => byteLength ((unbroken (c :: after)).take i) < d.span.length) ∧
      indent + width ≤ source.length := by
  have hunbroken : isBreak c = false := by
    simpa [isBreak] using hc
  obtain ⟨more, hmore⟩ := trimLine_line hunbroken (lastLine before) after
  obtain ⟨breaks, hbreaks, hall, hlast⟩ :=
    exists_breaks (lastLine before ++ (c :: after).takeWhile fun c => c != '\n')
  have hsource := toList_sourceLine file none h
  have hunderline := toList_underline file text d (before.count '\n' + 1)
    (lastLine before).length
  have hposition : (new file text none).position d.span.start =
      (before.count '\n' + 1, (lastLine before).length + 1) := by
    rw [hstart, position_byteLength h]
  have hwidth : (new file text none).underlineWidth d.span =
      max 1 (coveredWidth d.span.length (c :: after)) := by
    show max 1 (coveredWidth d.span.length ((dropBytes? d.span.start text.toList).getD [])) = _
    rw [hstart, h, dropBytes?_byteLength, Option.getD_some]
  -- at least the first character is covered, and not more than stand before the break
  have hle : max 1 (coveredWidth d.span.length (c :: after)) ≤ (unbroken (c :: after)).length := by
    have hcovered := coveredWidth_le d.span.length (c :: after)
    have hfirst : 1 ≤ (unbroken (c :: after)).length := by simp [unbroken_cons hunbroken]
    omega
  rw [hmore] at hbreaks hlast hsource
  rw [hwidth] at hunderline
  refine ⟨_, _, _, breaks, _, _, ?_, hsource, hbreaks, fun b hb => ?_, fun b hb => ?_, hunderline,
    fun j hj => ?_, congrArg (max 1) (coveredWidth_eq _ _), ?_⟩
  · rw [render_append, render_cons, renderOne, hposition, String.ofList_toList,
      String.ofList_toList, ← String.append_assoc]
  · simpa [isBreak] using hall b hb
  · simpa [isBreak] using hlast b hb
  · have hpart : j < (unbroken (c :: after)).length := Nat.lt_of_lt_of_le hj hle
    refine ⟨(unbroken (c :: after))[j], ?_, ?_⟩
    · rw [hsource]
      exact getElem?_behind _ _ _ _ hpart
    · obtain ⟨rest, hrest⟩ : unbroken (c :: after) <+: c :: after := List.takeWhile_prefix _
      calc (c :: after)[j]?
          = (unbroken (c :: after) ++ rest)[j]? := by rw [hrest]
        _ = some (unbroken (c :: after))[j] := by
          rw [List.getElem?_append_left hpart, List.getElem?_eq_getElem hpart]
  · rw [hsource]
    simp only [List.length_append, List.length_cons]
    omega

/-- The theorem at a letter of two bytes, in a line that ends in `\r\n`. -/
theorem underline_below_text_behind_umlaut :
    let d : Diagnostic := ⟨"a.ts", ⟨5, 9⟩, "", .error, none, 1⟩
    "é = üx\r\n".toList = ['é', ' ', '=', ' '] ++ 'ü' :: ['x', '\r', '\n'] ∧
    ('ü' ≠ '\n' ∧ 'ü' ≠ '\r') ∧ d.span.start = byteLength ['é', ' ', '=', ' '] ∧
    ∃ (source : List Char) (indent : Nat), source[indent + 0]? = some 'ü' ∧
      source[indent + 1]? = some 'x' ∧
      (new "a.ts" "é = üx\r\n" none).render [d, d] = (new "a.ts" "é = üx\r\n" none).render [d] ++
        ((new "a.ts" "é = üx\r\n" none).header d 1 5 ++ "\n" ++ String.ofList source ++ "\n"
          ++ String.ofList (List.replicate indent ' ' ++ List.replicate 2 '~') ++ "\n" ++ "\n")
          ++ "" := by
  intro d
  obtain ⟨source, underline, shown, breaks, indent, width, hrender, -, -, -, -, hunderline, hsame,
    hwidth, -⟩ := underline_below_text "a.ts" "é = üx\r\n" ['é', ' ', '=', ' '] ['x', '\r', '\n']
      'ü' d rfl (by decide) rfl [d] []
  obtain rfl : width = 2 := hwidth.trans (by decide)
  obtain ⟨x, hx, hfirst⟩ := hsame 0 (by omega)
  obtain ⟨y, hy, hsecond⟩ := hsame 1 (by omega)
  obtain rfl : 'ü' = x := Option.some_inj.mp hfirst
  obtain rfl : 'x' = y := Option.some_inj.mp hsecond
  subst hunderline
  exact ⟨rfl, by decide, rfl, source, indent, hx, hy, hrender⟩

end Printer

end ScriptLint
