import Mathlib.Data.List.Induction
import ScriptLint.Service.Workspace
/-!
# A workspace and its history

What a workspace holds can be told from the requests made so far, without
looking at how it keeps its files. A file has the text of the last request
that gave it one, unless it was removed since; it stands in the order of the
request that added it; and every answer about it is that of reading and
checking its text alone. So a workspace is a map from names to texts that
remembers the order of insertion, and requests about one file never show in
the answers about another.

The step lemma `Follows.step` says what one request does to that picture,
and the theorem follows by induction along the history.

Key definitions: `Edit`, `Workspace.run`, `textAfter`, `addedAt`, `Refines`.
Key theorems: `Follows.step`, `refines_run`.
-/

namespace ScriptLint

/-- A request that may change a workspace. -/
inductive Edit where
  | add (name text : String)
  | update (name text : String)
  | remove (name : String)
  | resolve
  deriving DecidableEq, Repr

/-- The two ways to begin. -/
inductive Start where
  | new
  | unresolved
  deriving DecidableEq, Repr

/-- A workspace without files. -/
def Start.workspace : Start → Workspace
  | .new => .new
  | .unresolved => .unresolved

namespace Workspace

/-- The outcome of a request, and the workspace behind it. -/
def request (w : Workspace) : Edit → Except Failure Unit × Workspace
  | .add name text => (.ok (), (w.add name text).value)
  | .update name text => (w.update name text).value
  | .remove name => (w.remove name).value
  | .resolve => (.ok (), w.resolve)

/-- The workspace after a request. -/
def edit (w : Workspace) (e : Edit) : Workspace :=
  (w.request e).2

/-- The workspace after a row of requests. -/
def run (w : Workspace) (edits : List Edit) : Workspace :=
  edits.foldl edit w

end Workspace

/-! ### The history of a name -/

/-- What a request makes of the text of a file. -/
def Edit.nextText (name : String) (current : Option String) : Edit → Option String
  | .add n text => if n = name then some text else current
  | .update n text => if n = name then current.map fun _ => text else current
  | .remove n => if n = name then none else current
  | .resolve => current

/-- The text of the last request that gave the file one; none if the file is not there. -/
def textAfter (edits : List Edit) (name : String) : Option String :=
  edits.foldl (Edit.nextText name) none

/-- What the request with number `i` makes of the place of a file. -/
def Edit.nextPlace (name : String) (current : Option Nat) : Edit × Nat → Option Nat
  | (.add n _, i) => if n = name then current.or (some i) else current
  | (.remove n, _) => if n = name then none else current
  | _ => current

/-- The number of the first request that added the file since it was removed last. -/
def addedAt (edits : List Edit) (name : String) : Option Nat :=
  edits.zipIdx.foldl (Edit.nextPlace name) none

/-- The requests about a file. -/
def Edit.concerns (name : String) : Edit → Bool
  | .add n _ => n = name
  | .update n _ => n = name
  | .remove n => n = name
  | .resolve => false

section History

variable (edits : List Edit) (e : Edit) (name : String)

@[simp] theorem textAfter_nil : textAfter [] name = none := rfl

@[simp] theorem addedAt_nil : addedAt [] name = none := rfl

@[simp] theorem textAfter_concat :
    textAfter (edits ++ [e]) name = e.nextText name (textAfter edits name) := by
  simp [textAfter]

@[simp] theorem addedAt_concat :
    addedAt (edits ++ [e]) name = Edit.nextPlace name (addedAt edits name) (e, edits.length) := by
  simp [addedAt, List.zipIdx_append]

/-- A file has a text just while it has a place. -/
theorem isSome_addedAt : (addedAt edits name).isSome = (textAfter edits name).isSome := by
  induction edits using List.reverseRecOn with
  | nil => rfl
  | append_singleton edits e ih =>
    rw [addedAt_concat, textAfter_concat]
    cases e with
    | add n text => by_cases h : n = name <;> simp [Edit.nextPlace, Edit.nextText, h, ih]
    | update n text => by_cases h : n = name <;> simp [Edit.nextPlace, Edit.nextText, h, ih]
    | remove n => by_cases h : n = name <;> simp [Edit.nextPlace, Edit.nextText, h, ih]
    | resolve => simp [Edit.nextPlace, Edit.nextText, ih]

/-- A place is the number of a request made. -/
theorem addedAt_lt {i : Nat} (h : addedAt edits name = some i) : i < edits.length := by
  induction edits using List.reverseRecOn with
  | nil => simp at h
  | append_singleton edits e ih =>
    rw [addedAt_concat] at h
    rw [List.length_append, List.length_singleton]
    have hlater : addedAt edits name = some i → i < edits.length + 1 := fun h' =>
      Nat.lt_succ_of_lt (ih h')
    cases e with
    | add n text =>
      by_cases hn : n = name
      · rw [Edit.nextPlace, if_pos hn] at h
        cases hadded : addedAt edits name with
        | none =>
          rw [hadded] at h
          simp only [Option.none_or, Option.some.injEq] at h
          omega
        | some j =>
          rw [hadded] at h
          exact hlater (hadded.trans h)
      · rw [Edit.nextPlace, if_neg hn] at h
        exact hlater h
    | update n text => exact hlater h
    | remove n =>
      by_cases hn : n = name
      · simp [Edit.nextPlace, hn] at h
      · rw [Edit.nextPlace, if_neg hn] at h
        exact hlater h
    | resolve => exact hlater h

/-- Only the requests about a file count for its text. -/
theorem textAfter_filter : textAfter (edits.filter (Edit.concerns name)) name = textAfter edits name := by
  induction edits using List.reverseRecOn with
  | nil => rfl
  | append_singleton edits e ih =>
    rw [List.filter_append, textAfter_concat, ← ih]
    by_cases h : e.concerns name = true
    · rw [List.filter_cons_of_pos h, List.filter_nil, textAfter_concat]
    · rw [List.filter_cons_of_neg h, List.filter_nil, List.append_nil]
      cases e <;> simp_all [Edit.concerns, Edit.nextText]

end History

/-! ### The files of a workspace -/

namespace Workspace

variable {w : Workspace} {file : WorkspaceFile} {name : String} {i : Nat}

/-- The workspace has a file of the given name. -/
def has (w : Workspace) (name : String) : Bool :=
  (w.position? name).isSome

theorem has_iff : w.has name = true ↔ name ∈ w.files.map WorkspaceFile.name := by
  simp [has, position?]

theorem has_eq_isSome (w : Workspace) (name : String) : w.has name = (w.file? name).isSome := by
  rw [has, position?, file?, List.findIdx?_isSome]
  exact List.isSome_find?.symm

theorem name_of_file? (h : w.file? name = some file) : file.name = name := by
  simpa using List.find?_some h

theorem mem_of_file? (h : w.file? name = some file) : file ∈ w.files :=
  List.mem_of_find?_eq_some h

/-- What stands before the place of a name, at it and behind it. -/
theorem split_of_position? (h : w.position? name = some i) : ∃ before f after,
    w.files = before ++ f :: after ∧ before.length = i ∧ f.name = name ∧
      ∀ g ∈ before, g.name ≠ name := by
  unfold position? at h
  generalize w.files = files at h ⊢
  induction files generalizing i with
  | nil => cases h
  | cons f files ih =>
    rw [List.findIdx?_cons] at h
    split at h
    next hf =>
      cases h
      exact ⟨[], f, files, rfl, rfl, by simpa using hf, nofun⟩
    next hf =>
      obtain ⟨j, hj, rfl⟩ := Option.map_eq_some_iff.mp h
      obtain ⟨before, g, after, rfl, hlength, hg, hbefore⟩ := ih hj
      refine ⟨f :: before, g, after, rfl, congrArg (· + 1) hlength, hg, fun x hx => ?_⟩
      rcases List.mem_cons.mp hx with rfl | hx
      · simpa using hf
      · exact hbefore x hx

/-- The workspace with a file in the place of the one with its name, or at the end. -/
def insert (w : Workspace) (file : WorkspaceFile) : Workspace :=
  w.put file (w.position? file.name)

/-- The workspace without a file. -/
def drop (w : Workspace) (name : String) : Workspace :=
  match w.position? name with
  | some i => { w with files := w.files.eraseIdx i }
  | none => w

/-- A file that is put in stands where its older self stood, or comes last. -/
theorem insert_cases (w : Workspace) (file : WorkspaceFile) :
    (∃ before f after, w.has file.name = true ∧ w.files = before ++ f :: after ∧
      f.name = file.name ∧ (∀ g ∈ before, g.name ≠ file.name) ∧
      w.insert file = { w with files := before ++ file :: after }) ∨
    (w.has file.name = false ∧ w.insert file = { w with files := w.files ++ [file] }) := by
  cases hposition : w.position? file.name with
  | none =>
    exact .inr ⟨by rw [has, hposition]; rfl, by rw [insert, hposition, put]⟩
  | some i =>
    obtain ⟨before, f, after, hfiles, rfl, hf, hbefore⟩ := split_of_position? hposition
    refine .inl ⟨before, f, after, by rw [has, hposition]; rfl, hfiles, hf, hbefore, ?_⟩
    rw [insert, hposition, put, hfiles, List.set_append_right _ _ (Nat.le_refl _), Nat.sub_self,
      List.set_cons_zero]

/-- A file that is put in is found under its name, and no other file changes. -/
theorem file?_insert (w : Workspace) (file : WorkspaceFile) (name : String) :
    (w.insert file).file? name = if file.name = name then some file else w.file? name := by
  rcases w.insert_cases file with ⟨before, f, after, -, hfiles, hf, hbefore, hinsert⟩ | ⟨hnew, hinsert⟩
  · rw [hinsert, file?, file?, hfiles, List.find?_append, List.find?_append, List.find?_cons,
      List.find?_cons, hf]
    by_cases hn : file.name = name
    · have hnone : before.find? (·.name == name) = none := by
        simpa [hn] using hbefore
      simp [hnone, hn]
    · have hne : (file.name == name) = false := by simpa using hn
      rw [if_neg hn, hne]
  · rw [hinsert, file?, file?, List.find?_append]
    by_cases hn : file.name = name
    · have hnone : w.files.find? (·.name == name) = none := by
        rw [← Bool.not_eq_true, has_iff, hn] at hnew
        simpa using hnew
      simp [hnone, hn]
    · simp [hn]

/-- A name that is new comes last; the others keep their places. -/
theorem names_insert (w : Workspace) (file : WorkspaceFile) :
    (w.insert file).files.map WorkspaceFile.name =
      if w.has file.name then w.files.map WorkspaceFile.name
      else w.files.map WorkspaceFile.name ++ [file.name] := by
  rcases w.insert_cases file with ⟨before, f, after, hhas, hfiles, hf, -, hinsert⟩ | ⟨hnew, hinsert⟩
  · rw [hinsert, hfiles, if_pos hhas]
    simp [hf]
  · rw [hinsert, hnew]
    simp

theorem mem_insert {f : WorkspaceFile} (h : f ∈ (w.insert file).files) : f = file ∨ f ∈ w.files := by
  rcases w.insert_cases file with ⟨before, g, after, -, hfiles, -, -, hinsert⟩ | ⟨-, hinsert⟩
  · rw [hinsert] at h
    rw [hfiles]
    simp only [List.mem_append, List.mem_cons] at h ⊢
    rcases h with h | h | h
    · exact .inr (.inl h)
    · exact .inl h
    · exact .inr (.inr (.inr h))
  · rw [hinsert] at h
    simpa [or_comm] using h

theorem resolved_insert (w : Workspace) (file : WorkspaceFile) :
    (w.insert file).resolved = w.resolved := by
  unfold insert put
  split <;> rfl

theorem drop_sublist (w : Workspace) (name : String) : (w.drop name).files.Sublist w.files := by
  unfold drop
  split
  · exact List.eraseIdx_sublist _ _
  · exact .refl _

theorem resolved_drop (w : Workspace) (name : String) : (w.drop name).resolved = w.resolved := by
  unfold drop
  split <;> rfl

/-- A file that is taken out is gone, if it was there once, and no other file changes. -/
theorem file?_drop (hdistinct : (w.files.map WorkspaceFile.name).Nodup) (removed name : String) :
    (w.drop removed).file? name = if removed = name then none else w.file? name := by
  unfold drop
  cases hposition : w.position? removed with
  | none =>
    have hnone : ∀ f ∈ w.files, f.name ≠ removed := by
      simpa [position?] using hposition
    by_cases hn : removed = name
    · rw [if_pos hn, file?, List.find?_eq_none]
      exact fun f hf => by simpa [← hn] using hnone f hf
    · rw [if_neg hn]
  | some i =>
    obtain ⟨before, f, after, hfiles, rfl, rfl, hbefore⟩ := split_of_position? hposition
    rw [hfiles, List.map_append, List.map_cons, List.nodup_append] at hdistinct
    have hafter : ∀ g ∈ after, g.name ≠ f.name := fun g hg heq =>
      (List.nodup_cons.mp hdistinct.2.1).1 (heq ▸ List.mem_map_of_mem hg)
    simp only [file?, hfiles, List.eraseIdx_append_of_length_le (Nat.le_refl _), Nat.sub_self,
      List.eraseIdx_zero, List.tail_cons, List.find?_append]
    by_cases hn : f.name = name
    · have hfront : before.find? (·.name == name) = none := by
        simpa [hn] using hbefore
      have hback : after.find? (·.name == name) = none := by
        simpa [hn] using hafter
      simp [hfront, hback, hn]
    · simp [hn]

/-! ### Outcomes -/

/-- An update has its outcome by the place of the name. -/
theorem request_update (w : Workspace) (name text : String) :
    w.request (.update name text) =
      if w.has name then (.ok (), w.insert (WorkspaceFile.load name text).value)
      else (.error (.unknownFile name), w) := by
  have hname : (WorkspaceFile.load name text).value.name = name := rfl
  show (w.update name text).value = _
  unfold update has insert
  rw [hname]
  cases w.position? name <;> rfl

theorem request_remove (w : Workspace) (name : String) :
    w.request (.remove name) =
      if w.has name then (.ok (), w.drop name) else (.error (.unknownFile name), w) := by
  show (w.remove name).value = _
  unfold remove has drop
  cases w.position? name <;> rfl

/-- **A request that fails leaves the workspace as it was.** -/
theorem unchanged_of_error {e : Edit} {failure : Failure} (h : (w.request e).1 = .error failure) :
    (w.request e).2 = w := by
  cases e with
  | add name text => cases h
  | update name text =>
    rw [request_update] at h ⊢
    split at h
    · cases h
    next hhas => rw [if_neg hhas]
  | remove name =>
    rw [request_remove] at h ⊢
    split at h
    · cases h
    next hhas => rw [if_neg hhas]
  | resolve => cases h

theorem update_fails_iff {text : String} {failure : Failure} :
    (w.request (.update name text)).1 = .error failure ↔
      w.has name = false ∧ failure = .unknownFile name := by
  rw [request_update]
  cases w.has name <;> simp [eq_comm]

theorem remove_fails_iff {failure : Failure} :
    (w.request (.remove name)).1 = .error failure ↔
      w.has name = false ∧ failure = .unknownFile name := by
  rw [request_remove]
  cases w.has name <;> simp [eq_comm]

end Workspace

/-! ### One request after the other -/

/-- The one file was added before the other, and both are still there. -/
def AddedBefore (edits : List Edit) (a b : String) : Prop :=
  ∃ i j, addedAt edits a = some i ∧ addedAt edits b = some j ∧ i < j

/-- A workspace holds what the requests made so far ask for. -/
structure Follows (start : Start) (edits : List Edit) (w : Workspace) : Prop where
  loaded : ∀ file ∈ w.files, file = (WorkspaceFile.load file.name file.script.text).value
  ordered : (w.files.map WorkspaceFile.name).Pairwise (AddedBefore edits)
  text : ∀ name, (w.file? name).map (·.script.text) = textAfter edits name
  resolved : w.resolved = true ↔ start = .new ∨ .resolve ∈ edits

namespace Follows

variable {start : Start} {edits : List Edit} {w : Workspace} {name text : String}

theorem nodup (h : Follows start edits w) : (w.files.map WorkspaceFile.name).Nodup := by
  refine h.ordered.imp fun {a b} hab => ?_
  rintro rfl
  obtain ⟨i, j, hi, hj, hlt⟩ := hab
  rw [hi, Option.some.injEq] at hj
  omega

theorem has_iff (h : Follows start edits w) : w.has name = true ↔ (textAfter edits name).isSome := by
  rw [← h.text, Option.isSome_map, Workspace.has_eq_isSome]

theorem mem_names (h : Follows start edits w) :
    name ∈ w.files.map WorkspaceFile.name ↔ (textAfter edits name).isSome :=
  Workspace.has_iff.symm.trans h.has_iff

/-- A file that is there was read from its text. -/
theorem file?_eq (h : Follows start edits w) (htext : textAfter edits name = some text) :
    w.file? name = some (WorkspaceFile.load name text).value := by
  have hfound := h.text name
  rw [htext] at hfound
  obtain ⟨file, hfile, rfl⟩ := Option.map_eq_some_iff.mp hfound
  rw [hfile, ← Workspace.name_of_file? hfile]
  exact congrArg some (h.loaded file (Workspace.mem_of_file? hfile))

/-- Where a name has no part in a request, the order of the others stays. -/
theorem ordered_of_places {e : Edit} {names : List String}
    (hordered : names.Pairwise (AddedBefore edits))
    (hplaces : ∀ a ∈ names, addedAt (edits ++ [e]) a = addedAt edits a) :
    names.Pairwise (AddedBefore (edits ++ [e])) := by
  refine hordered.imp_of_mem fun {a b} ha hb hab => ?_
  rw [AddedBefore, hplaces a ha, hplaces b hb]
  exact hab

/-- A file that is put in has the new text, and all else is as it was. -/
theorem put (h : Follows start edits w) {e : Edit}
    (htext : ∀ n, textAfter (edits ++ [e]) n = if name = n then some text else textAfter edits n)
    (hplaces : ∀ n, addedAt (edits ++ [e]) n =
      if name = n then (addedAt edits n).or (some edits.length) else addedAt edits n)
    (hresolve : e ≠ .resolve) :
    Follows start (edits ++ [e]) (w.insert (WorkspaceFile.load name text).value) := by
  have hkept : ∀ a ∈ w.files.map WorkspaceFile.name, addedAt (edits ++ [e]) a = addedAt edits a := by
    intro a ha
    have hsome : (addedAt edits a).isSome := by
      rw [isSome_addedAt]
      exact h.mem_names.mp ha
    obtain ⟨i, hi⟩ := Option.isSome_iff_exists.mp hsome
    rw [hplaces, hi, Option.some_or]
    split <;> rfl
  refine ⟨fun file hfile => ?_, ?_, fun n => ?_, ?_⟩
  · rcases Workspace.mem_insert hfile with rfl | hfile
    · rfl
    · exact h.loaded file hfile
  · have hnames := Workspace.names_insert w (WorkspaceFile.load name text).value
    rw [show (WorkspaceFile.load name text).value.name = name from rfl] at hnames
    rw [hnames]
    by_cases hhas : w.has name = true
    · rw [if_pos hhas]
      exact ordered_of_places h.ordered hkept
    · -- a new name is added now, and all others were added earlier
      have hnew : addedAt (edits ++ [e]) name = some edits.length := by
        have hnone : addedAt edits name = none := by
          rw [← Option.not_isSome_iff_eq_none, isSome_addedAt]
          exact mt h.has_iff.mpr hhas
        rw [hplaces, if_pos rfl, hnone, Option.none_or]
      rw [if_neg hhas, List.pairwise_append]
      refine ⟨ordered_of_places h.ordered hkept, List.pairwise_singleton _ _, fun a ha b hb => ?_⟩
      obtain rfl : b = name := List.mem_singleton.mp hb
      have hsome : (addedAt edits a).isSome := by
        rw [isSome_addedAt]
        exact h.mem_names.mp ha
      obtain ⟨i, hi⟩ := Option.isSome_iff_exists.mp hsome
      exact ⟨i, edits.length, (hkept a ha).trans hi, hnew, addedAt_lt edits a hi⟩
  · rw [Workspace.file?_insert, htext]
    show Option.map _ (if name = n then _ else _) = _
    split
    · rfl
    · exact h.text n
  · rw [Workspace.resolved_insert, List.mem_append, List.mem_singleton,
      or_iff_left hresolve.symm]
    exact h.resolved

/-- A request that changes nothing in a workspace. -/
theorem unchanged (h : Follows start edits w) {e : Edit}
    (htext : ∀ n, textAfter (edits ++ [e]) n = textAfter edits n)
    (hplaces : ∀ n ∈ w.files.map WorkspaceFile.name, addedAt (edits ++ [e]) n = addedAt edits n)
    (hresolve : e ≠ .resolve) : Follows start (edits ++ [e]) w := by
  refine ⟨h.loaded, ordered_of_places h.ordered hplaces, fun n => ?_, ?_⟩
  · rw [htext]
    exact h.text n
  · rw [List.mem_append, List.mem_singleton, or_iff_left hresolve.symm]
    exact h.resolved

theorem add (h : Follows start edits w) (name text : String) :
    Follows start (edits ++ [.add name text]) (w.edit (.add name text)) := by
  refine h.put (fun n => ?_) (fun n => ?_) (by simp)
  · rw [textAfter_concat, Edit.nextText]
  · rw [addedAt_concat, Edit.nextPlace]

theorem update (h : Follows start edits w) (name text : String) :
    Follows start (edits ++ [.update name text]) (w.edit (.update name text)) := by
  have hplaces : ∀ n, addedAt (edits ++ [.update name text]) n = addedAt edits n :=
    fun n => addedAt_concat edits _ n
  by_cases hhas : w.has name = true
  · have hedit : w.edit (.update name text) = w.insert (WorkspaceFile.load name text).value :=
      congrArg Prod.snd ((w.request_update name text).trans (if_pos hhas))
    obtain ⟨old, hold⟩ := Option.isSome_iff_exists.mp (h.has_iff.mp hhas)
    rw [hedit]
    refine h.put (fun n => ?_) (fun n => ?_) (by simp)
    · rw [textAfter_concat, Edit.nextText]
      split
      next heq => rw [← heq, hold, Option.map_some]
      next => rfl
    · rw [hplaces]
      split
      next heq =>
        obtain ⟨i, hi⟩ : ∃ i, addedAt edits n = some i := by
          rw [← Option.isSome_iff_exists, isSome_addedAt, ← heq, hold]
          rfl
        rw [hi, Option.some_or]
      next => rfl
  · have hedit : w.edit (.update name text) = w :=
      congrArg Prod.snd ((w.request_update name text).trans (if_neg hhas))
    have hnone : textAfter edits name = none :=
      Option.not_isSome_iff_eq_none.mp (mt h.has_iff.mpr hhas)
    rw [hedit]
    refine h.unchanged (fun n => ?_) (fun n _ => hplaces n) (by simp)
    rw [textAfter_concat, Edit.nextText]
    split
    next heq => rw [← heq, hnone, Option.map_none]
    next => rfl

theorem remove (h : Follows start edits w) (name : String) :
    Follows start (edits ++ [.remove name]) (w.edit (.remove name)) := by
  have hplaces : ∀ n, name ≠ n → addedAt (edits ++ [.remove name]) n = addedAt edits n := by
    intro n hn
    rw [addedAt_concat, Edit.nextPlace, if_neg hn]
  by_cases hhas : w.has name = true
  · have hedit : w.edit (.remove name) = w.drop name :=
      congrArg Prod.snd ((w.request_remove name).trans (if_pos hhas))
    have hsub : (w.drop name).files.Sublist w.files := w.drop_sublist name
    rw [hedit]
    refine ⟨fun file hfile => h.loaded file (hsub.subset hfile), ?_, fun n => ?_, ?_⟩
    · refine ordered_of_places (h.ordered.sublist (hsub.map _)) fun a ha => hplaces a ?_
      rintro rfl
      have hgone := Workspace.file?_drop h.nodup name name
      rw [if_pos rfl] at hgone
      have hthere := Workspace.has_iff.mpr ha
      rw [Workspace.has_eq_isSome, hgone] at hthere
      cases hthere
    · rw [Workspace.file?_drop h.nodup, textAfter_concat, Edit.nextText]
      split
      · rfl
      · exact h.text n
    · rw [Workspace.resolved_drop, List.mem_append, List.mem_singleton,
        or_iff_left (show Edit.resolve ≠ .remove name by simp)]
      exact h.resolved
  · have hedit : w.edit (.remove name) = w :=
      congrArg Prod.snd ((w.request_remove name).trans (if_neg hhas))
    have hnone : textAfter edits name = none :=
      Option.not_isSome_iff_eq_none.mp (mt h.has_iff.mpr hhas)
    rw [hedit]
    refine h.unchanged (fun n => ?_) (fun n hn => hplaces n ?_) (by simp)
    · rw [textAfter_concat, Edit.nextText]
      split
      next heq => rw [← heq, hnone]
      next => rfl
    · rintro rfl
      exact hhas (Workspace.has_iff.mpr hn)

theorem resolve (h : Follows start edits w) :
    Follows start (edits ++ [.resolve]) (w.edit .resolve) := by
  refine ⟨h.loaded, ?_, fun n => ?_, ?_⟩
  · exact ordered_of_places h.ordered fun a _ => addedAt_concat edits _ a
  · rw [textAfter_concat, Edit.nextText]
    exact h.text n
  · simp [Workspace.edit, Workspace.request, Workspace.resolve]

/-- **What one request does.** -/
theorem step (h : Follows start edits w) : ∀ e : Edit, Follows start (edits ++ [e]) (w.edit e)
  | .add name text => h.add name text
  | .update name text => h.update name text
  | .remove name => h.remove name
  | .resolve => h.resolve

end Follows

/-- **What a row of requests does.** -/
theorem follows_run (start : Start) (edits : List Edit) :
    Follows start edits (start.workspace.run edits) := by
  induction edits using List.reverseRecOn with
  | nil =>
    refine ⟨fun file hfile => ?_, ?_, fun name => ?_, ?_⟩
    · cases start <;> simp [Workspace.run, Start.workspace, Workspace.new, Workspace.unresolved] at hfile
    · cases start <;> exact .nil
    · cases start <;> rfl
    · cases start <;> simp [Workspace.run, Start.workspace, Workspace.new, Workspace.unresolved]
  | append_singleton edits e ih =>
    rw [Workspace.run, List.foldl_append]
    exact ih.step e

/-! ### The answers of a workspace -/

/-- A workspace answers as a map from names to texts does that remembers the order in which the
names were added: it is asked after the given requests. -/
structure Refines (start : Start) (edits : List Edit) (w : Workspace) : Prop where
  /-- No name is there twice. -/
  distinct : w.program.fileNames.Nodup
  /-- The names that are there, and no others, -/
  present : ∀ name, name ∈ w.program.fileNames ↔ (textAfter edits name).isSome
  /-- in the order of the requests that added them. -/
  ordered : w.program.fileNames.Pairwise (AddedBefore edits)
  /-- A file that is there is the tree of its text; -/
  script : ∀ name text, textAfter edits name = some text →
    w.program.script? name = some (Script.recover name text).1 ∧
      (Script.recover name text).1.text = text
  /-- its diagnostics and the types of its variables are those of its text alone. -/
  syntactic : ∀ name text, textAfter edits name = some text →
    (w.service.syntactic name).value =
      (Script.recover name text).2.map (SyntaxError.toDiagnostic name)
  semantic : ∀ name text, textAfter edits name = some text →
    (w.service.semantic name).value = (Script.recover name text).1.check.diagnostics
  types : ∀ name text, textAfter edits name = some text → ∀ script d, script.name = name →
    w.program.types script d = (Script.recover name text).1.check.typeAt? d.name.span.start
  /-- Requests about other files do not count for its text. -/
  apart : ∀ name, textAfter (edits.filter (Edit.concerns name)) name = textAfter edits name
  /-- A file that is not there has no tree, no diagnostics and no types. -/
  absent : ∀ name, textAfter edits name = none →
    w.program.script? name = none ∧ (w.service.syntactic name).value = [] ∧
      (w.service.semantic name).value = [] ∧
      ∀ script d, script.name = name → w.program.types script d = none
  /-- A file can be updated and removed just if it is there; otherwise nothing changes. -/
  update_fails : ∀ name text failure, (w.request (.update name text)).1 = .error failure ↔
    textAfter edits name = none ∧ failure = .unknownFile name
  remove_fails : ∀ name failure, (w.request (.remove name)).1 = .error failure ↔
    textAfter edits name = none ∧ failure = .unknownFile name
  unchanged : ∀ e failure, (w.request e).1 = .error failure → (w.request e).2 = w
  /-- There is a program just if the workspace began with one or was resolved. -/
  program : w.service.program? =
    if start = .new ∨ .resolve ∈ edits then some w.program else none

namespace Workspace

theorem script?_program (w : Workspace) (name : String) :
    w.program.script? name = (w.file? name).map (·.script) := rfl

theorem types_program (w : Workspace) (script : Script) (d : Declarator) :
    w.program.types script d = (w.file? script.name).bind (·.checked.typeOf? script d) := rfl

theorem value_ask (w : Workspace) (name : String) (f : WorkspaceFile → List Diagnostic) :
    (w.ask name f).value = ((w.file? name).map f).getD [] := by
  unfold ask
  cases w.file? name <;> rfl

end Workspace

/-- **A workspace is a map from names to texts that remembers the order of insertion,** whatever
requests were made, in whatever order. -/
theorem refines_run (start : Start) (edits : List Edit) :
    Refines start edits (start.workspace.run edits) := by
  have h := follows_run start edits
  generalize start.workspace.run edits = w at h
  have habsent : ∀ name, w.has name = false ↔ textAfter edits name = none := by
    intro name
    rw [← Bool.not_eq_true, h.has_iff, Option.not_isSome_iff_eq_none]
  refine ⟨h.nodup, fun name => h.mem_names, h.ordered, fun name text htext => ?_,
    fun name text htext => ?_, fun name text htext => ?_, fun name text htext script d hname => ?_,
    textAfter_filter edits, fun name hnone => ?_, fun name text failure => ?_,
    fun name failure => ?_, fun e failure => Workspace.unchanged_of_error, ?_⟩
  · rw [Workspace.script?_program, h.file?_eq htext]
    exact ⟨rfl, rfl⟩
  · rw [Workspace.service, Workspace.value_ask, h.file?_eq htext]
    rfl
  · rw [Workspace.service, Workspace.value_ask, h.file?_eq htext]
    rfl
  · rw [Workspace.types_program, hname, h.file?_eq htext]
    exact if_pos hname
  · have hfile : w.file? name = none := by
      have := h.text name
      rwa [hnone, Option.map_eq_none_iff] at this
    refine ⟨?_, ?_, ?_, fun script d hname => ?_⟩
    · rw [Workspace.script?_program, hfile, Option.map_none]
    · rw [Workspace.service, Workspace.value_ask, hfile, Option.map_none, Option.getD_none]
    · rw [Workspace.service, Workspace.value_ask, hfile, Option.map_none, Option.getD_none]
    · rw [Workspace.types_program, hname, hfile, Option.bind_none]
  · rw [Workspace.update_fails_iff, habsent]
  · rw [Workspace.remove_fails_iff, habsent]
  · have hresolved := h.resolved
    by_cases hr : w.resolved = true
    · rw [if_pos (hresolved.mp hr), Workspace.service, if_pos hr]
    · rw [if_neg (mt hresolved.mpr hr), Workspace.service, if_neg hr]

/-- A file that is removed and added again comes last; one that is only given a new text stays. -/
example : (Start.unresolved.workspace.run [.add "a.ts" "1", .add "b.ts" "2", .remove "a.ts",
    .add "c.ts" "3", .add "b.ts" "4", .add "a.ts" "5"]).program.fileNames = ["b.ts", "c.ts", "a.ts"] := by
  decide +kernel

end ScriptLint
