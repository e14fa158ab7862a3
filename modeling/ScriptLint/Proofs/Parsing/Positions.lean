import ScriptLint.Proofs.Parsing.Depth
import ScriptLint.Proofs.Parsing.SoundStatement
import ScriptLint.Proofs.Syntax.Sites
/-!
# Where the parts of a script stand

The sites of a script that was read stand in its text one behind the other,
even if errors were met. So no two of the names that are mentioned in it start
at one place, and no two of its variables do. An expression reaches over all
names that are used in it.

Key theorems: `Script.sites_within`, `Script.nodup_mentions`, `Script.nodup_declarations`,
`Expr.Spells.covers_identifiers`.
-/

namespace ScriptLint

/-! ### Spans of rows -/

section Rows

variable {ws : List Lexeme}

theorem stop_le_endOf {u w : Lexeme} (h : (u :: ws).Pairwise fun v w => v.span.stop ≤ w.span.start)
    (hw : w ∈ u :: ws) : w.span.stop ≤ endOf u.span.stop ws := by
  induction ws generalizing u w with
  | nil =>
    rw [List.mem_singleton.mp hw]
    exact Nat.le_refl _
  | cons v vs ih =>
    rw [endOf_cons]
    obtain ⟨hfirst, hrest⟩ := List.pairwise_cons.mp h
    rcases List.mem_cons.mp hw with rfl | hw
    · calc w.span.stop ≤ v.span.start := hfirst v List.mem_cons_self
        _ ≤ v.span.stop := v.span.start_le_stop
        _ ≤ endOf v.span.stop vs := ih hrest List.mem_cons_self
    · exact ih hrest hw

/-- A row reaches over each of its lexemes. -/
theorem contains_extent (h : ws.Pairwise fun v w => v.span.stop ≤ w.span.start) :
    ∀ w ∈ ws, (extent ws).contains w.span = true := by
  intro w hw
  cases ws with
  | nil => cases hw
  | cons u us =>
    have hstop := stop_le_endOf h hw
    have hstart : u.span.start ≤ w.span.start := by
      rcases List.mem_cons.mp hw with rfl | hw
      · exact Nat.le_refl _
      · exact Nat.le_trans u.span.start_le_stop ((List.pairwise_cons.mp h).1 w hw)
    rw [Span.contains, decide_eq_true_eq, extent, Span.start_upTo, Span.stop_upTo]
    exact ⟨hstart, Nat.le_trans hstop (Nat.le_max_right _ _)⟩

theorem contains_self (s : Span) : s.contains s = true := by
  simp [Span.contains]

/-- What covers the two ends of a row covers the row. -/
theorem contains_cover {s t : Span} {vs us : List Lexeme}
    (h : (ws ++ (vs ++ us)).Pairwise fun v w => v.span.stop ≤ w.span.start)
    (hws : ws ≠ []) (hus : us ≠ []) (hs : ∀ w ∈ ws, s.contains w.span = true)
    (ht : ∀ w ∈ us, t.contains w.span = true) :
    ∀ w ∈ ws ++ (vs ++ us), (s.cover t).contains w.span = true := by
  simp only [Span.contains, decide_eq_true_eq] at hs ht ⊢
  simp only [Span.cover, Span.start_upTo, Span.stop_upTo]
  intro w hw
  rcases List.mem_append.mp hw with hw | hw
  · have := hs w hw
    omega
  · rcases List.mem_append.mp hw with hmiddle | hw
    · -- between the ends, both of them are in view
      obtain ⟨v, hv⟩ := List.exists_mem_of_ne_nil ws hws
      obtain ⟨u, hu⟩ := List.exists_mem_of_ne_nil us hus
      obtain ⟨-, hrest, hbefore⟩ := List.pairwise_append.mp h
      have hleft := hbefore v hv w hw
      have hright := (List.pairwise_append.mp hrest).2.2 w hmiddle u hu
      have hvs := hs v hv
      have hut := ht u hu
      have hv := v.span.start_le_stop
      have hu := u.span.start_le_stop
      omega
    · have := ht w hw
      omega

end Rows

/-- The lists of arguments nest in the derivation, so the induction is on the number of lexemes. -/
theorem Expr.contains_of_spells (n : Nat) : ∀ (e : Expr) (ws : List Lexeme), ws.length ≤ n →
    e.Spells ws → (ws.Pairwise fun v w => v.span.stop ≤ w.span.start) →
    ∀ w ∈ ws, e.span.contains w.span = true := by
  induction n with
  | zero =>
    intro e ws hn h
    exact absurd (List.length_eq_zero_iff.mp (Nat.le_zero.mp hn)) h.ne_nil
  | succ n ih =>
    intro e ws hn h hordered
    cases h with
    | number _ | string _ | booleanTrue _ | booleanFalse _ | null _ =>
      intro w hw
      rw [List.mem_singleton.mp hw]
      exact contains_self _
    | identifier hname =>
      intro w hw
      rw [List.mem_singleton.mp hw, Expr.span, hname.2]
      exact contains_self _
    | @binary _ e f ws us w he _ hf | @assignment _ e f ws us w he _ hf =>
      have hlength : (ws ++ w :: us).length = ws.length + (us.length + 1) := by simp
      obtain ⟨hws, hus, -⟩ := List.pairwise_append.mp hordered
      rw [← List.singleton_append] at hordered ⊢
      exact contains_cover hordered he.ne_nil hf.ne_nil (ih e ws (by omega) he hws)
        (ih f us (by omega) hf hus.of_cons)
    | @conditional c e f ws us vs q r hc _ _ _ hf =>
      have hrow : ws ++ q :: (us ++ r :: vs) = ws ++ ((q :: (us ++ [r])) ++ vs) := by simp
      have hlength : (ws ++ q :: (us ++ r :: vs)).length
          = ws.length + (us.length + (vs.length + 1) + 1) := by simp
      obtain ⟨hws, hrest, -⟩ := List.pairwise_append.mp hordered
      have hvs := (List.pairwise_append.mp hrest.of_cons).2.1.of_cons
      rw [hrow] at hordered ⊢
      exact contains_cover hordered hc.ne_nil hf.ne_nil (ih c ws (by omega) hc hws)
        (ih f vs (by omega) hf hvs)
    | unary _ _ | typeOf _ _ | call _ _ _ _ | property _ _ _ | element _ _ _ _
    | parenthesized _ _ _ | array _ _ _ => exact contains_extent hordered

/-- **An expression reaches over the lexemes that spell it.** -/
theorem Expr.Spells.contains {e : Expr} {ws : List Lexeme} (h : e.Spells ws)
    (hordered : ws.Pairwise fun v w => v.span.stop ≤ w.span.start) :
    ∀ w ∈ ws, e.span.contains w.span = true :=
  Expr.contains_of_spells ws.length e ws (Nat.le_refl _) h hordered

/-- So it reaches over the names that are used in it. -/
theorem Expr.Spells.contains_identifier {e : Expr} {ws : List Lexeme} (h : e.Spells ws)
    (hordered : ws.Pairwise fun v w => v.span.stop ≤ w.span.start) {v : Ident}
    (hv : v ∈ e.identifiers) : e.span.contains v.span = true := by
  obtain ⟨w, hw, -, hspan⟩ := h.identifiers_within.spelled v hv
  rw [hspan]
  exact h.contains hordered w hw

/-- Names that stand among lexemes in order start at different places. -/
theorem NamesWithin.nodup_starts {names : List Ident} {ws : List Lexeme} (h : NamesWithin names ws)
    (hstarts : ws.Pairwise fun v w => v.span.start < w.span.start) :
    (names.map fun v => v.span.start).Nodup := by
  have hws : ((ws.map Lexeme.span).map Span.start).Nodup := by
    rw [List.map_map]
    exact List.pairwise_map.mpr (hstarts.imp Nat.ne_of_lt)
  have hsub := (h.spans.map Span.start).nodup hws
  rwa [List.map_map] at hsub

namespace Script

/-- **The sites of a script that was read stand in its text in their order.** -/
theorem sites_within (name text : String) :
    SitesWithin (recover name text).1.sites (Parse.lexemesOf (scan text)) :=
  (derives_readBody text).2.1.1.sites_within

theorem starts_lexemesOf (text : String) :
    (Parse.lexemesOf (scan text)).Pairwise fun v w => v.span.start < w.span.start := by
  have h := (Parse.State.InOrder.ofText text).starts
  rwa [Parse.State.lexemes_ofText] at h

/-- **No two names that are mentioned in a script start at one place.** -/
theorem nodup_mentions (name text : String) :
    (((recover name text).1.sites.flatMap Site.mentions).map fun v => v.span.start).Nodup :=
  ((sites_within name text).names_within fun _ _ h => h.mentions_within).nodup_starts
    (starts_lexemesOf text)

/-- **No two variables of a script start at one place.** -/
theorem nodup_declarations (name text : String) :
    ((recover name text).1.declarations.map fun x => x.2.name.span.start).Nodup := by
  have hnames := ((derives_readBody text).2.1.1.names_within).nodup_starts (starts_lexemesOf text)
  rw [← Stmt.declaratorsAt_sitesAll, declaratorsAt, List.map_map, List.map_map] at hnames
  exact hnames

/-- A name in the first value of a variable starts inside that value. -/
theorem start_mem_initializer {name text : String} {kind : DeclKind} {d : Declarator} {e : Expr}
    (hd : .declarator kind d ∈ (recover name text).1.sites) (he : d.initializer = some e)
    {v : Ident} (hv : v ∈ e.identifiers) :
    e.span.start ≤ v.span.start ∧ v.span.start < e.span.stop := by
  obtain ⟨us, hspells, hsub⟩ := (sites_within name text).spells _ hd
  cases hspells with
  | declarator hspells =>
    cases hspells with
    | @mk x type value w ts es _ _ hvalue =>
      obtain rfl : value = some e := he
      cases hvalue with
      | @some _ es w' _ hspells =>
        have hes : es.Sublist (Parse.lexemesOf (scan text)) :=
          ((List.sublist_cons_self w' es).trans
            ((List.sublist_append_right ts _).trans (List.sublist_cons_self w _))).trans hsub
        have hordered := (Parse.ordered_lexemesOf text).sublist hes
        have hin := hspells.contains_identifier hordered hv
        obtain ⟨u, hu, -, hspan⟩ := hspells.identifiers_within.spelled v hv
        have hpos := (Parse.placed_of_mem_lexemesOf (hes.subset hu)).length_pos
        rw [Span.contains, decide_eq_true_eq] at hin
        rw [hspan] at hin ⊢
        have hstop : u.span.stop = u.span.start + u.span.length := rfl
        omega

end Script

end ScriptLint
