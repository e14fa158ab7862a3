import ScriptLint.Syntax.Outline
/-!
# Levels on the ways through a tree

A way down a tree is told by the number of the child that it takes at each
node. Some of the nodes that it meets count as levels. A reader that counts
levels while it reads does not count all of them: when a part has been read,
the levels entered inside of it are given back, and a link (an operator, a
call, a property, an element, a pair of brackets) is put around a part that
has been read already. In `((a)).b` the two pairs of parentheses have been
left when the property takes its level, so that one level is enough for it
and for the outer pair. In `a.b.c` the level of `.b` is still held when `.c`
takes another one.

`heldOn` counts the levels of a way that are still held behind it, and
`freeOn` counts its nodes that need no level of their own: a link whose front
part has levels that are not held any more, and a function, which shares a
level with its body. A tree that is read with a given room then has no more
levels on a way than the room and the free ones together (`Within`). How many
levels that may be is bounded too, because a link takes a level from what is
left to it: by a triangular number.

Key definitions: `Form.isLevel`, `Outline.along`, `Outline.levelsOn`, `Outline.freeOn`,
`Outline.Within`, `Outline.Chain`.
Key theorems: `Outline.exists_leadsToLeaf`, `Outline.Within.node`, `Outline.Within.function`,
`Outline.Chain.around`, `Outline.Chain.bracket`.
-/

namespace ScriptLint

/-- The nodes that count as a level: statements, expressions around an operand, array types. -/
def Form.isLevel : Form → Bool
  | .variableStatement | .functionDeclaration | .block | .ifStatement | .whileStatement
  | .forStatement | .returnStatement | .expressionStatement => true
  | .parenthesized | .unary _ | .typeOf | .binary _ | .call | .propertyAccess
  | .elementAccess => true
  | .arrayType => true
  | _ => false

/-- The levels that are put around a part that has been read, which is their first child. -/
def Form.isLink : Form → Bool
  | .binary _ | .call | .propertyAccess | .elementAccess | .arrayType => true
  | _ => false

/-- The node is a function. -/
def Form.isFunction : Form → Bool
  | .functionDeclaration => true
  | _ => false

/-- The node is a block. -/
def Form.isBlock : Form → Bool
  | .block => true
  | _ => false

/-- The node is the type of an array. -/
def Form.isArrayType : Form → Bool
  | .arrayType => true
  | _ => false

theorem Form.isFunction_iff {f : Form} : f.isFunction = true ↔ f = .functionDeclaration := by
  cases f <;> simp [isFunction]

theorem Form.isBlock_iff {f : Form} : f.isBlock = true ↔ f = .block := by
  cases f <;> simp [isBlock]

theorem Form.isArrayType_iff {f : Form} : f.isArrayType = true ↔ f = .arrayType := by
  cases f <;> simp [isArrayType]

instance (f : Form) : Decidable (f = .functionDeclaration) :=
  decidable_of_iff _ Form.isFunction_iff

instance (f : Form) : Decidable (f = .block) :=
  decidable_of_iff _ Form.isBlock_iff

instance (f : Form) : Decidable (f = .arrayType) :=
  decidable_of_iff _ Form.isArrayType_iff

/-- How many levels a node is by itself. -/
def Node.level (node : Node) : Nat :=
  if node.form.isLevel then 1 else 0

theorem Node.level_le_one (node : Node) : node.level ≤ 1 := by
  unfold level
  split <;> decide

namespace Outline

/-! ### Ways -/

/-- The node that holds all others. -/
def root : Outline → Node
  | .node root _ => root

/-- The nodes on a way down an outline, told by the number of the child that it takes at each node.
The way ends where there is no such child. -/
def along : Outline → List Nat → List Node
  | .node root _, [] => [root]
  | .node root children, i :: is =>
    match children[i]? with
    | some child => root :: child.along is
    | none => [root]

/-- The way ends at a node without children. -/
def LeadsToLeaf : Outline → List Nat → Prop
  | .node _ children, [] => children = []
  | .node _ children, i :: is => ∃ child, children[i]? = some child ∧ child.LeadsToLeaf is

/-- The number of levels on a way. -/
def levelsOn (o : Outline) (way : List Nat) : Nat :=
  (o.along way).countP (·.form.isLevel)

/-- The part in front of a link, if its levels are held when the link is put around it. A type in
parentheses gave its levels back; it left no trace but that it starts behind the array type around
it. -/
def front? (root : Node) (children : List Outline) : Option Outline :=
  if root.form.isLink then
    children.head?.filter fun part =>
      root.form ≠ .arrayType ∨ part.root.span.start = root.span.start
  else none

/-- The number of levels on a way that are held when the outline has been read: the links on it, as
far as each is the front part of the one before. -/
def heldOn : Outline → List Nat → Nat
  | .node root _, [] => if root.form.isLink then 1 else 0
  | .node root children, i :: is =>
    match i, front? root children with
    | 0, some part => part.heldOn is + 1
    | _, _ => if root.form.isLink then 1 else 0

/-- The number of nodes on a way that need no level of their own: the links around a part that has
given levels back, and the functions, which share a level with their body. -/
def freeOn : Outline → List Nat → Nat
  | _, [] => 0
  | .node root children, i :: is =>
    match children[i]? with
    | some child =>
      let o := node root children
      (if root.form.isLink ∧ i = 0 ∧ o.heldOn (i :: is) < o.levelsOn (i :: is)
          ∨ root.form = .functionDeclaration ∧ child.root.form = .block then 1 else 0)
        + child.freeOn is
    | none => 0

section Ways

variable {root : Node} {children : List Outline} {child : Outline} {i : Nat} {is : List Nat}

theorem levelsOn_down (h : children[i]? = some child) :
    (node root children).levelsOn (i :: is) = root.level + child.levelsOn is := by
  rw [levelsOn, along, h, List.countP_cons, Node.level, levelsOn, Nat.add_comm]

theorem freeOn_le_down (root : Node) (is : List Nat) (h : children[i]? = some child) :
    child.freeOn is ≤ (node root children).freeOn (i :: is) := by
  rw [freeOn, h]
  exact Nat.le_add_left _ _

/-- A link around a part that has given levels back is free. -/
theorem freeOn_of_buries (hroot : root.form.isLink = true) (h : children[0]? = some child)
    (hheld : (node root children).heldOn (0 :: is) < (node root children).levelsOn (0 :: is)) :
    (node root children).freeOn (0 :: is) = 1 + child.freeOn is := by
  rw [freeOn, h]
  exact congrArg (· + child.freeOn is) (if_pos (.inl ⟨hroot, rfl, hheld⟩))

/-- A function is free if its body has a level. -/
theorem freeOn_of_shares (hroot : root.form = .functionDeclaration) (h : children[i]? = some child)
    (hchild : child.root.form = .block) :
    (node root children).freeOn (i :: is) = 1 + child.freeOn is := by
  rw [freeOn, h]
  exact congrArg (· + child.freeOn is) (if_pos (.inr ⟨hroot, hchild⟩))

/-- A way stops at the root or goes on in a child. -/
theorem stop_or_down (root : Node) (children : List Outline) (way : List Nat) :
    (node root children).levelsOn way = root.level ∨
      ∃ i is child, way = i :: is ∧ children[i]? = some child := by
  cases way with
  | nil => exact .inl (by simp [levelsOn, along, Node.level, List.countP_cons])
  | cons i is =>
    cases h : children[i]? with
    | none => exact .inl (by simp [levelsOn, along, h, Node.level, List.countP_cons])
    | some child => exact .inr ⟨i, is, child, rfl, h⟩

theorem heldOn_of_not_isLink {o : Outline} (h : o.root.form.isLink = false) (way : List Nat) :
    o.heldOn way = 0 := by
  obtain ⟨root, children⟩ := o
  have hroot : root.form.isLink = false := h
  cases way with
  | nil => simp [heldOn, hroot]
  | cons i is => cases i <;> simp [heldOn, front?, hroot]

/-- Beyond its own level, a link holds only what its front part holds. -/
theorem heldOn_le_one_or (root : Node) (children : List Outline) (way : List Nat) :
    (node root children).heldOn way ≤ 1 ∨ ∃ is part, way = 0 :: is ∧
      front? root children = some part ∧ (node root children).heldOn way = part.heldOn is + 1 := by
  have hone : (if root.form.isLink then 1 else 0) ≤ 1 := by split <;> decide
  cases way with
  | nil => exact .inl hone
  | cons i is =>
    cases i with
    | succ i => exact .inl hone
    | zero =>
      cases h : front? root children with
      | none => exact .inl (by simpa only [heldOn, h] using hone)
      | some part => exact .inr ⟨is, part, rfl, rfl, by simp only [heldOn, h]⟩

theorem front?_cons_eq_some {first part : Outline} {beside : List Outline}
    (h : front? root (first :: beside) = some part) :
    part = first ∧ (root.form ≠ .arrayType ∨ first.root.span.start = root.span.start) := by
  unfold front? at h
  split at h
  · rw [List.head?_cons, Option.filter_eq_some_iff] at h
    obtain ⟨hpart, hfront⟩ := h
    cases hpart
    exact ⟨rfl, by simpa using hfront⟩
  · cases h

end Ways

mutual

/-- The most levels on a way down an outline. -/
def levels : Outline → Nat
  | .node root children => root.level + levelsAll children

/-- The most levels on a way down one of the outlines of a list. -/
def levelsAll : List Outline → Nat
  | [] => 0
  | o :: os => max (levels o) (levelsAll os)

end

@[simp] theorem levels_node (root : Node) (children : List Outline) :
    (node root children).levels = root.level + levelsAll children := by
  rw [levels]

@[simp] theorem levelsAll_nil : levelsAll [] = 0 := by
  rw [levelsAll]

@[simp] theorem levelsAll_cons (o : Outline) (os : List Outline) :
    levelsAll (o :: os) = max o.levels (levelsAll os) := by
  rw [levelsAll]

theorem levelsAll_le {os : List Outline} {n : Nat} :
    levelsAll os ≤ n ↔ ∀ o ∈ os, o.levels ≤ n := by
  induction os with
  | nil => simp
  | cons o os ih => rw [levelsAll_cons, Nat.max_le, ih, List.forall_mem_cons]

/-- No way has more levels than the most. -/
theorem levelsOn_le_levels (o : Outline) (way : List Nat) : o.levelsOn way ≤ o.levels := by
  induction way generalizing o with
  | nil =>
    cases o with
    | node root children =>
      rcases stop_or_down root children [] with h | ⟨i, is, child, h, _⟩
      · simp [h]
      · cases h
  | cons i is ih =>
    cases o with
    | node root children =>
      rcases stop_or_down root children (i :: is) with h | ⟨_, _, child, hway, hchild⟩
      · simp [h]
      · cases hway
        have hle : child.levels ≤ levelsAll children :=
          levelsAll_le.mp (Nat.le_refl _) child (List.mem_of_getElem? hchild)
        have hrest := ih child
        rw [levelsOn_down hchild, levels_node]
        omega

mutual

/-- Some way to a leaf has as many levels as the most. -/
theorem exists_leadsToLeaf : ∀ o : Outline, ∃ way, o.LeadsToLeaf way ∧ o.levelsOn way = o.levels
  | .node root children => by
    rcases exists_leadsToLeaf_mem children with rfl | ⟨i, child, is, hchild, hleaf, hlevels⟩
    · exact ⟨[], rfl, by simp [levelsOn, along, Node.level, List.countP_cons]⟩
    · exact ⟨i :: is, ⟨child, hchild, hleaf⟩, by rw [levelsOn_down hchild, hlevels, levels_node]⟩

/-- Among outlines side by side, some way to a leaf of one of them has as many levels as the
most. -/
theorem exists_leadsToLeaf_mem : ∀ os : List Outline, os = [] ∨ ∃ (i : Nat) (o : Outline) (is : _),
    os[i]? = some o ∧ o.LeadsToLeaf is ∧ o.levelsOn is = levelsAll os
  | [] => .inl rfl
  | o :: os => by
    obtain ⟨is, hleaf, hlevels⟩ := exists_leadsToLeaf o
    refine .inr ?_
    rw [levelsAll_cons]
    by_cases h : levelsAll os ≤ o.levels
    · exact ⟨0, o, is, rfl, hleaf, by rw [hlevels, Nat.max_eq_left h]⟩
    · rcases exists_leadsToLeaf_mem os with rfl | ⟨i, o', is', hmem, hleaf', hlevels'⟩
      · exact absurd (by simp) h
      · exact ⟨i + 1, o', is', hmem, hleaf', by rw [hlevels', Nat.max_eq_right (by omega)]⟩

end

/-! ### Trees within a room -/

/-- The outline has at most `most` levels on a way, and no more than the room and the free levels of
the way together. -/
structure Within (most room : Nat) (o : Outline) : Prop where
  levels_le : o.levels ≤ most
  levelsOn_le : ∀ way, o.levelsOn way ≤ room + o.freeOn way

section Within

variable {most room : Nat} {root : Node} {children : List Outline} {o : Outline}

theorem Within.mono {most' room' : Nat} (h : o.Within most room) (hmost : most ≤ most')
    (hroom : room ≤ room') : o.Within most' room' :=
  ⟨Nat.le_trans h.levels_le hmost,
    fun way => Nat.le_trans (h.levelsOn_le way) (Nat.add_le_add_right hroom _)⟩

/-- What has no levels at all needs no room. -/
theorem Within.of_levels_eq_zero (h : o.levels = 0) : o.Within most room where
  levels_le := by omega
  levelsOn_le way := by
    have hle := o.levelsOn_le_levels way
    omega

/-- A node adds its own level to those of its children. -/
theorem Within.node (root : Node) (h : ∀ child ∈ children, child.Within most room) :
    (Outline.node root children).Within (root.level + most) (root.level + room) where
  levels_le := by
    have hall : levelsAll children ≤ most := levelsAll_le.mpr fun child hc => (h child hc).levels_le
    rw [levels_node]
    omega
  levelsOn_le way := by
    rcases stop_or_down root children way with hstop | ⟨i, is, child, rfl, hchild⟩
    · omega
    · have hrest := (h child (List.mem_of_getElem? hchild)).levelsOn_le is
      have hfree := freeOn_le_down root is hchild
      rw [levelsOn_down hchild]
      omega

/-- A node that is no level adds none. -/
theorem Within.plain (hroot : root.form.isLevel = false)
    (h : ∀ child ∈ children, child.Within most room) :
    (Outline.node root children).Within most room := by
  have hlevel : root.level = 0 := by simp [Node.level, hroot]
  simpa [hlevel] using Within.node root h

/-- A node is at most one level. -/
theorem Within.succ (h : ∀ child ∈ children, child.Within most room) :
    (Outline.node root children).Within (most + 1) (room + 1) := by
  have hlevel := root.level_le_one
  exact (Within.node root h).mono (by omega) (by omega)

/-- A function and its body share a level: one of them is free on every way that meets both. -/
theorem Within.function {signature body : List Outline} {block : Node}
    (hroot : root.form = .functionDeclaration) (hblock : block.form = .block)
    (hsignature : ∀ part ∈ signature, part.Within (most + 1) room)
    (hbody : ∀ stmt ∈ body, stmt.Within most room) :
    (Outline.node root (signature ++ [.node block body])).Within (most + 2) (room + 1) where
  levels_le := by
    have hall : levelsAll (signature ++ [.node block body]) ≤ most + 1 := by
      refine levelsAll_le.mpr fun part hpart => ?_
      rcases List.mem_append.mp hpart with hpart | hpart
      · exact (hsignature part hpart).levels_le
      · cases List.mem_singleton.mp hpart
        have hle := (Within.node block hbody).levels_le
        have hone := block.level_le_one
        omega
    have hone := root.level_le_one
    rw [levels_node]
    omega
  levelsOn_le way := by
    have hone := root.level_le_one
    rcases stop_or_down root (signature ++ [.node block body]) way with
      hstop | ⟨i, is, child, rfl, hchild⟩
    · omega
    · rw [levelsOn_down hchild]
      rcases List.mem_append.mp (List.mem_of_getElem? hchild) with hpart | hpart
      · have hrest := (hsignature child hpart).levelsOn_le is
        have hfree := freeOn_le_down root is hchild
        omega
      · cases List.mem_singleton.mp hpart
        have hrest := (Within.node block hbody).levelsOn_le is
        have hbody := block.level_le_one
        rw [freeOn_of_shares hroot hchild hblock]
        omega

end Within

/-! ### Chains -/

end Outline

/-- The sum of the numbers up to `n`. -/
def triangle : Nat → Nat
  | 0 => 0
  | n + 1 => triangle n + (n + 1)

theorem triangle_mono {m n : Nat} (h : m ≤ n) : triangle m ≤ triangle n := by
  induction h with
  | refl => exact Nat.le_refl _
  | step _ ih => exact Nat.le_trans ih (Nat.le_add_right _ _)

theorem triangle_pred {n : Nat} (h : n ≠ 0) : triangle n = triangle (n - 1) + n := by
  cases n with
  | zero => exact absurd rfl h
  | succ n => rfl

namespace Outline

/-- The outline is read with the room `room`, and `left` of it is left to what is put around it. -/
structure Chain (room left : Nat) (o : Outline) : Prop where
  levels_le : o.levels + left ≤ triangle room + room
  levelsOn_le : ∀ way, o.levelsOn way ≤ room + o.freeOn way
  heldOn_le : ∀ way, o.heldOn way + left ≤ room

/-- The outline is read one level deeper, where there is a room of `room` around it. -/
structure Nested (room : Nat) (o : Outline) : Prop where
  room_ne_zero : room ≠ 0
  within : o.Within (triangle room - 1) (room - 1)

namespace Nested

variable {room : Nat} {root : Node} {o : Outline}

theorem of_within (hroom : room ≠ 0)
    (h : o.Within (triangle (room - 1) + (room - 1)) (room - 1)) : o.Nested room := by
  have htriangle := triangle_pred hroom
  exact ⟨hroom, h.mono (by omega) (Nat.le_refl _)⟩

/-- What stands beside other parts has the room around it, too. -/
theorem beside (h : o.Nested room) : o.Within (triangle room) room :=
  h.within.mono (Nat.sub_le _ _) (Nat.sub_le _ _)

/-- What is read with a part of the room stays within the whole of it. -/
theorem below {whole : Nat} (h : o.Nested room) (hle : room ≤ whole) :
    o.Within (triangle whole + whole) whole :=
  h.beside.mono (Nat.le_trans (triangle_mono hle) (Nat.le_add_right _ _)) hle

/-- A node around a nested part takes the level that was entered for the part. -/
theorem wrap (h : o.Nested room) : (Outline.node root [o]).Within (triangle room) room := by
  have hroom := h.room_ne_zero
  have htriangle := triangle_pred hroom
  have hnode : (Outline.node root [o]).Within (triangle room - 1 + 1) (room - 1 + 1) :=
    .succ (by simpa using h.within)
  exact hnode.mono (by omega) (by omega)

end Nested

namespace Chain

variable {room left : Nat} {root : Node} {o : Outline}

theorem left_le (h : o.Chain room left) : left ≤ room :=
  Nat.le_trans (Nat.le_add_left _ _) (h.heldOn_le [])

theorem within (h : o.Chain room left) : o.Within (triangle room + room) room :=
  ⟨Nat.le_trans (Nat.le_add_right _ _) h.levels_le, h.levelsOn_le⟩

/-- What is no link holds nothing. -/
theorem of_within (hroot : o.root.form.isLink = false) (h : o.Within (triangle room) room) :
    o.Chain room room where
  levels_le := Nat.add_le_add_right h.levels_le room
  levelsOn_le := h.levelsOn_le
  heldOn_le way := Nat.le_of_eq (by rw [heldOn_of_not_isLink hroot, Nat.zero_add])

theorem leaf (hroot : o.root.form.isLink = false) (h : o.levels = 0) : o.Chain room room :=
  .of_within hroot (.of_levels_eq_zero h)

/-- **What is put around a part takes a level from those that are left.** The parts beside it are
read with the levels that are left then. -/
theorem around {first : Outline} {beside : List Outline} (hroot : root.form.isLink = true)
    (hfirst : first.Chain room (left + 1))
    (hbeside : ∀ part ∈ beside, part.Within (triangle left) left) :
    (node root (first :: beside)).Chain room left := by
  have hlevel := root.level_le_one
  have hleft := hfirst.left_le
  have hheld : ∀ way, (node root (first :: beside)).heldOn way + left ≤ room := by
    intro way
    rcases heldOn_le_one_or root (first :: beside) way with hone | ⟨is, part, rfl, hpart, heq⟩
    · omega
    · obtain ⟨rfl, _⟩ := front?_cons_eq_some hpart
      have hrest := hfirst.heldOn_le is
      omega
  refine ⟨?_, fun way => ?_, hheld⟩
  · have hparts : levelsAll beside ≤ triangle left :=
      levelsAll_le.mpr fun part hpart => (hbeside part hpart).levels_le
    have hfront := hfirst.levels_le
    have htriangle : triangle left + (left + 1) ≤ triangle room := triangle_mono hleft
    rw [levels_node, levelsAll_cons]
    omega
  · rcases stop_or_down root (first :: beside) way with hstop | ⟨i, is, child, rfl, hchild⟩
    · omega
    · cases i with
      | zero =>
        cases hchild
        by_cases hburies : (node root (first :: beside)).heldOn (0 :: is) <
            (node root (first :: beside)).levelsOn (0 :: is)
        · have hrest := hfirst.levelsOn_le is
          rw [freeOn_of_buries hroot rfl hburies, levelsOn_down rfl]
          omega
        · -- every level on the way is held, so the room has a place for each of them
          have hway := hheld (0 :: is)
          omega
      | succ i =>
        have hrest := (hbeside child (List.mem_of_getElem? hchild)).levelsOn_le is
        rw [levelsOn_down hchild]
        have hfree := freeOn_le_down root is hchild
        omega

/-- Brackets behind a type in parentheses hold one level. -/
theorem bracket {element : Outline} (hroot : root.form = .arrayType) (helement : element.Nested room)
    (hstart : element.root.span.start ≠ root.span.start) :
    (node root [element]).Chain room (room - 1) := by
  have hnode : (node root [element]).Within (triangle room) room := helement.wrap
  have hroom := helement.room_ne_zero
  refine ⟨?_, hnode.levelsOn_le, fun way => ?_⟩
  · have hle := hnode.levels_le
    omega
  · rcases heldOn_le_one_or root [element] way with hone | ⟨is, part, rfl, hpart, heq⟩
    · omega
    · exact absurd ((front?_cons_eq_some hpart).2.resolve_left (· hroot)) hstart

end Chain

end Outline

end ScriptLint
