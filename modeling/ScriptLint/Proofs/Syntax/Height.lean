import ScriptLint.Proofs.Syntax.Depth
/-!
# The height of a tree

An outline fits a height if no way down it meets more nodes than that, nodes
of every kind counted. A node adds one to its highest child, and nothing else
is needed to bound the height of what a reader makes: a part that is read one
level deeper, and what is put around it, link by link, each for one of the
levels that are left. With a room of `r` this comes to `reach r`, which grows
as the square of the room.

Whoever walks an outline goes no deeper than its height: the nodes in
pre-order have depths below it, and so do the parts at the ends of its ways.

Key definitions: `Outline.Fits`, `Outline.at?`, `reach`, `Outline.Grown`.
Key theorems: `Outline.Fits.node`, `Outline.Fits.depth_lt`, `Outline.Grown.around`.
-/

namespace ScriptLint

namespace Outline

/-- No way down the outline meets more than `most` nodes. -/
def Fits (most : Nat) (o : Outline) : Prop :=
  ∀ way, (o.along way).length ≤ most

/-- The part of an outline at the end of a way. -/
def at? : Outline → List Nat → Option Outline
  | o, [] => some o
  | .node _ children, i :: is =>
    match children[i]? with
    | some child => child.at? is
    | none => none

namespace Fits

variable {m n : Nat} {root : Node} {children : List Outline} {o part : Outline}

theorem mono (h : o.Fits m) (hle : m ≤ n) : o.Fits n :=
  fun way => Nat.le_trans (h way) hle

/-- A node is one more on every way than its children are. -/
theorem node (h : ∀ child ∈ children, child.Fits n) : (Outline.node root children).Fits (n + 1) := by
  intro way
  cases way with
  | nil => exact Nat.le_add_left 1 n
  | cons i is =>
    rw [along]
    cases hchild : children[i]? with
    | none => exact Nat.le_add_left 1 n
    | some child => exact Nat.succ_le_succ (h child (List.mem_of_getElem? hchild) is)

theorem leaf {form : Form} {span : Span} (h : 0 < n) : (Outline.leaf form span).Fits n :=
  (node (n := 0) (by simp)).mono h

theorem pos (h : o.Fits n) : 0 < n := by
  obtain ⟨root, children⟩ := o
  exact h []

theorem child (h : (Outline.node root children).Fits n) (hmem : part ∈ children) :
    part.Fits (n - 1) := by
  obtain ⟨i, hi⟩ := List.getElem?_of_mem hmem
  intro way
  have hway := h (i :: way)
  rw [along, hi] at hway
  exact Nat.le_sub_one_of_lt hway

/-- What stands at the end of a way is lower by the nodes on the way to it. -/
theorem at? {way : List Nat} (h : o.Fits n) (hpart : o.at? way = some part) :
    part.Fits (n - way.length) := by
  induction way generalizing o n with
  | nil =>
    obtain ⟨root, children⟩ := o
    cases hpart
    exact h
  | cons i is ih =>
    obtain ⟨root, children⟩ := o
    rw [Outline.at?] at hpart
    cases hchild : children[i]? with
    | none => simp [hchild] at hpart
    | some child =>
      rw [hchild] at hpart
      refine (ih (h.child (List.mem_of_getElem? hchild)) hpart).mono ?_
      simp only [List.length_cons]
      omega

end Fits

mutual

/-- **A walk goes no deeper than the height.** -/
theorem Fits.depth_lt {n depth d : Nat} {node : Node} : ∀ {o : Outline}, o.Fits n →
    (d, node) ∈ o.preorder depth → d < depth + n
  | .node root children, h, hmem => by
    have hpos := h.pos
    rw [preorder] at hmem
    rcases List.mem_cons.mp hmem with heq | hmem
    · cases heq
      omega
    · have hlt := Fits.depth_lt_all (fun child hchild => h.child hchild) hmem
      omega

/-- The same for outlines side by side. -/
theorem Fits.depth_lt_all {n depth d : Nat} {node : Node} : ∀ {os : List Outline},
    (∀ o ∈ os, o.Fits n) → (d, node) ∈ preorderAll depth os → d < depth + n
  | [], _, hmem => by simp [preorderAll] at hmem
  | o :: os, h, hmem => by
    rw [preorderAll] at hmem
    rcases List.mem_append.mp hmem with hmem | hmem
    · exact Fits.depth_lt (h o (by simp)) hmem
    · exact Fits.depth_lt_all (fun o' ho' => h o' (by simp [ho'])) hmem

end

end Outline

/-! ### What is read with a room -/

/-- The height of what is read one level deeper, with a room of `room` around it. -/
def reach (room : Nat) : Nat :=
  triangle room + 3 * room

theorem reach_mono {m n : Nat} (h : m ≤ n) : reach m ≤ reach n := by
  have := triangle_mono h
  simp only [reach]
  omega

theorem reach_succ (room : Nat) : reach (room + 1) = reach room + room + 4 := by
  simp only [reach, triangle]
  omega

namespace Outline

/-- The outline is read with the room `room`, of which `left` levels are left to what is put around
it. -/
structure Grown (room left : Nat) (o : Outline) : Prop where
  left_le : left ≤ room
  fits : o.Fits (reach room + 2 + (room - left))

namespace Grown

variable {room left : Nat} {root : Node} {o : Outline}

theorem start (h : o.Fits (reach room + 2)) : o.Grown room room :=
  ⟨Nat.le_refl _, h.mono (Nat.le_add_right _ _)⟩

/-- **A link is one node more for one level less.** -/
theorem around {first : Outline} {beside : List Outline} (hfirst : first.Grown room (left + 1))
    (hbeside : ∀ part ∈ beside, part.Fits (reach room + 1)) :
    (Outline.node root (first :: beside)).Grown room left := by
  have hleft := hfirst.left_le
  refine ⟨by omega, ?_⟩
  have hchildren : ∀ child ∈ first :: beside,
      child.Fits (reach room + 2 + (room - (left + 1))) := by
    intro child hchild
    rcases List.mem_cons.mp hchild with rfl | hchild
    · exact hfirst.fits
    · exact (hbeside child hchild).mono (by omega)
  exact (Fits.node hchildren).mono (by omega)

theorem whole (h : o.Grown room left) : o.Fits (reach room + room + 2) :=
  h.fits.mono (by omega)

end Grown

end Outline

end ScriptLint
