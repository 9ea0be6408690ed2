import Formulary.Proofs.Tree
import Mathlib.Logic.Relation

/-!
# Arenas in post-order

In an arena in post-order (`Arena.IsPostOrder`) the nodes below each node are a block of the table
that ends at the node, and the blocks of its operands fill the rest of the block from left to right
(`Arena.Tiles`). The root is the last node, so its block is the whole table: every node is used, and
except for the root exactly once.

The arena that lists a tree is in post-order (`Tree.WellFormed.isPostOrder_arena`). Every index of
its table ends the listing of one subtree (`Tree.exists_standsAt`), and what is claimed of a node is
read off the subtree that ends there.
-/

set_option autoImplicit false
set_option relaxedAutoImplicit false

namespace Formulary

/-- The operands of a node, by their indices. -/
def Node.children : Node → List Nat
  | .operation _ children => children
  | _ => []

namespace Arena

/-- Whether one node is an operand of another. -/
def HasChild (arena : Arena) (index child : Nat) : Prop :=
  ∃ node, arena.node? index = some node ∧ child ∈ node.children

/-- Whether a node is used, directly or not, in the value of another. Each node is below itself. -/
def Below (arena : Arena) : Nat → Nat → Prop := Relation.ReflTransGen arena.HasChild

/-- The index where the block of a node begins: the first operand of its first operand, and so on
down to a node without operands. -/
def first (arena : Arena) (index : Nat) : Nat :=
  match (arena.node? index).map Node.children with
  | some (child :: _) => if child < index then arena.first child else index
  | _ => index
  termination_by index

/-- Whether the blocks of the given nodes lie side by side, from the index `start` up to the one
before `stop`. -/
def Tiles (arena : Arena) : Nat → List Nat → Nat → Prop
  | start, [], stop => start = stop
  | start, child :: children, stop =>
    arena.first child = start ∧ start ≤ child ∧ Tiles arena (child + 1) children stop

/-- An arena that lists one tree in post-order. -/
structure IsPostOrder (arena : Arena) : Prop where
  /-- The root is the last node. -/
  root_last : arena.root + 1 = arena.nodes.size
  /-- An operation has as many operands as it takes. -/
  arity : ∀ index applied children, arena.node? index = some (.operation applied children) →
    children.length = applied.arity
  /-- Operands stand before the node that uses them. -/
  child_lt : ∀ index child, arena.HasChild index child → child < index
  /-- The operands of a node stand in increasing order. -/
  increasing : ∀ index node, arena.node? index = some node → node.children.Pairwise (· < ·)
  /-- Among all operands of all nodes, each index but the root occurs exactly once, and the root
  does not occur. -/
  used_once : (arena.nodes.toList.flatMap Node.children).Perm (List.range arena.root)
  /-- The nodes below a node are a block of indices that ends at the node. -/
  block : ∀ index < arena.nodes.size, ∀ other,
    arena.Below index other ↔ arena.first index ≤ other ∧ other ≤ index
  /-- The blocks of the operands of a node lie side by side, in their order, and fill the block of
  the node up to the node itself. -/
  adjacent : ∀ index node, arena.node? index = some node →
    arena.Tiles (arena.first index) node.children index
  /-- Every node is below the root. -/
  reachable : ∀ index < arena.nodes.size, arena.Below arena.root index

/-! ### Blocks side by side -/

section Tiles

variable {arena : Arena} {start stop : Nat} {children : List Nat}

theorem Tiles.le (h : arena.Tiles start children stop) : start ≤ stop := by
  induction children generalizing start with
  | nil => exact Nat.le_of_eq h
  | cons child children ih =>
    have hothers := ih h.2.2
    have hchild := h.2.1
    omega

/-- The blocks of nodes side by side lie in the range that they fill. -/
theorem Tiles.bounds (h : arena.Tiles start children stop) {child : Nat}
    (hchild : child ∈ children) :
    start ≤ arena.first child ∧ arena.first child ≤ child ∧ child < stop := by
  induction children generalizing start with
  | nil => cases hchild
  | cons other children ih =>
    obtain ⟨hfirst, hle, hothers⟩ := h
    rcases List.mem_cons.mp hchild with rfl | hchild
    · have hstop := hothers.le
      omega
    · obtain ⟨hlower, hmiddle, hupper⟩ := ih hothers hchild
      exact ⟨by omega, hmiddle, hupper⟩

theorem Tiles.pairwise (h : arena.Tiles start children stop) : children.Pairwise (· < ·) := by
  induction children generalizing start with
  | nil => exact List.Pairwise.nil
  | cons child children ih =>
    refine List.Pairwise.cons ?_ (ih h.2.2)
    intro other hother
    obtain ⟨hlower, hmiddle, -⟩ := h.2.2.bounds hother
    omega

/-- Every index of the range that nodes side by side fill lies in the block of one of them. -/
theorem Tiles.exists_mem (h : arena.Tiles start children stop) {index : Nat}
    (hstart : start ≤ index) (hstop : index < stop) :
    ∃ child ∈ children, arena.first child ≤ index ∧ index ≤ child := by
  induction children generalizing start with
  | nil =>
    have hempty : start = stop := h
    omega
  | cons child children ih =>
    by_cases hindex : index ≤ child
    · exact ⟨child, List.mem_cons_self, h.1 ▸ hstart, hindex⟩
    · obtain ⟨other, hother, hbounds⟩ := ih h.2.2 (by omega)
      exact ⟨other, List.mem_cons_of_mem child hother, hbounds⟩

end Tiles

/-! ### What is below a node -/

section Below

variable {arena : Arena}

/-- Assumes: the blocks of the operands fill the block of every node. What is below a node lies in
its block. -/
theorem Below.bounds (htiles : ∀ index node, arena.node? index = some node →
      arena.Tiles (arena.first index) node.children index)
    (hfirst : ∀ index < arena.nodes.size, arena.first index ≤ index) {index other : Nat}
    (hindex : index < arena.nodes.size) (h : arena.Below index other) :
    arena.first index ≤ arena.first other ∧ arena.first other ≤ other ∧ other ≤ index := by
  induction h with
  | refl => exact ⟨Nat.le_refl _, hfirst index hindex, Nat.le_refl _⟩
  | tail _ hchild ih =>
    obtain ⟨node, hnode, hmem⟩ := hchild
    obtain ⟨hlower, hmiddle, hupper⟩ := (htiles _ node hnode).bounds hmem
    omega

/-- Assumes: the blocks of the operands fill the block of every node. Everything in the block of a
node is below the node. -/
theorem below_of_bounds (htiles : ∀ index node, arena.node? index = some node →
      arena.Tiles (arena.first index) node.children index) {index other : Nat}
    (hindex : index < arena.nodes.size) (hlower : arena.first index ≤ other)
    (hupper : other ≤ index) : arena.Below index other := by
  induction index using Nat.strongRecOn with
  | ind index ih =>
    by_cases heq : other = index
    · rw [heq]
      exact Relation.ReflTransGen.refl
    · have hnode : arena.node? index = some arena.nodes[index] := Array.getElem?_eq_getElem hindex
      obtain ⟨child, hchild, hfirst, hle⟩ :=
        (htiles index _ hnode).exists_mem hlower (by omega)
      have hlt := ((htiles index _ hnode).bounds hchild).2.2
      have hbelow := ih child hlt (by omega) hfirst hle
      exact Relation.ReflTransGen.head ⟨_, hnode, hchild⟩ hbelow

end Below

end Arena

/-! ### The subtrees of a listed tree -/

namespace Tree

/-- The node at the root of a tree whose first node has the index `offset`. -/
def rootNode (offset : Nat) : Tree → Node
  | .literal value => .literal value
  | .reference name => .reference name
  | .operation applied operands => .operation applied (roots offset operands)

/-- Whether the nodes of the tree stand in a table, the first of them at `offset`. -/
def StandsAt (tree : Tree) (nodes : List Node) (offset : Nat) : Prop :=
  ∃ before after, nodes = before ++ tree.listing offset ++ after ∧ before.length = offset

theorem listing_eq_append_rootNode (tree : Tree) (offset : Nat) :
    ∃ operands, tree.listing offset = operands ++ [tree.rootNode offset] := by
  cases tree with
  | literal value => exact ⟨[], rfl⟩
  | reference name => exact ⟨[], rfl⟩
  | operation applied operands => exact ⟨listingAll offset operands, rfl⟩

/-- A tree that stands in a table has its root at its end. -/
theorem StandsAt.getElem?_root {tree : Tree} {nodes : List Node} {offset : Nat}
    (h : tree.StandsAt nodes offset) :
    nodes[offset + tree.size - 1]? = some (tree.rootNode offset) := by
  obtain ⟨before, after, hnodes, hlength⟩ := h
  obtain ⟨operands, hlisting⟩ := tree.listing_eq_append_rootNode offset
  have hsize := congrArg List.length hlisting
  simp only [length_listing, List.length_append, List.length_singleton] at hsize
  have hindex : (before ++ operands).length = offset + tree.size - 1 := by
    rw [List.length_append]
    omega
  have hsplit : nodes = (before ++ operands) ++ tree.rootNode offset :: after := by
    simp only [hnodes, hlisting, List.append_assoc, List.singleton_append]
  rw [hsplit, ← hindex, List.getElem?_append_right (Nat.le_refl _), Nat.sub_self]
  rfl

/-- Where a tree stands, its operands stand one after the other. -/
theorem StandsAt.operand {applied : Operation} {before after : List Tree} {tree : Tree}
    {nodes : List Node} {offset : Nat}
    (h : (operation applied (before ++ tree :: after)).StandsAt nodes offset) :
    tree.StandsAt nodes (offset + sizeAll before) := by
  obtain ⟨earlier, later, hnodes, hlength⟩ := h
  simp only [listing, listingAll_append, listingAll] at hnodes
  refine ⟨earlier ++ listingAll offset before,
    listingAll (offset + sizeAll before + tree.size) after ++
      .operation applied (roots offset (before ++ tree :: after)) :: later, ?_, ?_⟩
  · simp only [hnodes, List.append_assoc, List.singleton_append]
  · rw [List.length_append, length_listingAll, hlength]

/-- Every index of the range that listed trees fill lies in the block of one of them. -/
theorem exists_split_of_lt_sizeAll {trees : List Tree} {offset index : Nat}
    (hlower : offset ≤ index) (hupper : index < offset + sizeAll trees) :
    ∃ before tree after, trees = before ++ tree :: after ∧
      offset + sizeAll before ≤ index ∧ index < offset + sizeAll before + tree.size := by
  induction trees generalizing offset with
  | nil =>
    simp only [sizeAll] at hupper
    omega
  | cons tree trees ih =>
    simp only [sizeAll] at hupper
    by_cases hindex : index < offset + tree.size
    · exact ⟨[], tree, trees, rfl, hlower, hindex⟩
    · have hnext : offset + tree.size ≤ index := by omega
      obtain ⟨before, other, after, rfl, hfrom, hto⟩ := ih hnext (by omega)
      refine ⟨tree :: before, other, after, rfl, ?_, ?_⟩ <;> simp only [sizeAll] <;> omega

/-- Assumes: a well-formed tree stands in a table. Every index of its block ends the block of a
well-formed tree that stands in the table. -/
theorem exists_standsAt {tree : Tree} (hwf : tree.WellFormed) {nodes : List Node}
    {offset index : Nat} (h : tree.StandsAt nodes offset) (hlower : offset ≤ index)
    (hupper : index < offset + tree.size) : ∃ (subtree : Tree) (start : Nat),
      subtree.WellFormed ∧ subtree.StandsAt nodes start ∧ start + subtree.size = index + 1 := by
  induction hwf generalizing offset with
  | literal value => exact ⟨_, offset, .literal value, h, by simp only [size] at *; omega⟩
  | reference name => exact ⟨_, offset, .reference name, h, by simp only [size] at *; omega⟩
  | @operation applied operands hlength hoperands ih =>
    by_cases hroot : index = offset + sizeAll operands
    · exact ⟨_, offset, .operation hlength hoperands, h, by simp only [size]; omega⟩
    · have hinside : index < offset + sizeAll operands := by
        simp only [size] at hupper
        omega
      obtain ⟨before, operand, after, rfl, hfrom, hto⟩ :=
        exists_split_of_lt_sizeAll hlower hinside
      exact ih operand (by simp) h.operand hfrom hto

/-! ### The arena of a tree -/

section Arena

variable {arena : Arena}

theorem StandsAt.node?_root {tree : Tree} {offset : Nat}
    (h : tree.StandsAt arena.nodes.toList offset) :
    arena.node? (offset + tree.size - 1) = some (tree.rootNode offset) := by
  rw [Arena.node?, ← Array.getElem?_toList]
  exact h.getElem?_root

/-- The block of a listed tree begins where the tree begins. -/
theorem StandsAt.first_eq {tree : Tree} {offset : Nat}
    (h : tree.StandsAt arena.nodes.toList offset) :
    arena.first (offset + tree.size - 1) = offset := by
  have hnode := h.node?_root
  induction tree generalizing offset with
  | literal value =>
    rw [Arena.first, hnode]
    simp [rootNode, Node.children, size]
  | reference name =>
    rw [Arena.first, hnode]
    simp [rootNode, Node.children, size]
  | operation applied operands ih =>
    rw [Arena.first, hnode]
    cases operands with
    | nil => simp [rootNode, Node.children, roots, size, sizeAll]
    | cons operand operands =>
      have hoperand : operand.StandsAt arena.nodes.toList offset :=
        @StandsAt.operand applied [] operands operand arena.nodes.toList offset h
      have hlt : offset + operand.size - 1 <
          offset + (operation applied (operand :: operands)).size - 1 := by
        have hpos := operand.size_pos
        simp only [size, sizeAll]
        omega
      simp only [rootNode, Node.children, roots, Option.map_some, if_pos hlt]
      exact ih operand List.mem_cons_self hoperand hoperand.node?_root

/-- The blocks of listed trees lie side by side. -/
theorem tiles_roots {trees : List Tree} {offset : Nat}
    (h : ∀ before tree after, trees = before ++ tree :: after →
      tree.StandsAt arena.nodes.toList (offset + sizeAll before)) :
    arena.Tiles offset (roots offset trees) (offset + sizeAll trees) := by
  induction trees generalizing offset with
  | nil => rfl
  | cons tree trees ih =>
    have hpos := tree.size_pos
    have hfirst : tree.StandsAt arena.nodes.toList offset := h [] tree trees rfl
    have hothers : arena.Tiles (offset + tree.size) (roots (offset + tree.size) trees)
        (offset + tree.size + sizeAll trees) := by
      refine ih fun before other after hsplit ↦ ?_
      have hother := h (tree :: before) other after (congrArg (tree :: ·) hsplit)
      rwa [sizeAll, ← Nat.add_assoc] at hother
    have hnext : offset + tree.size - 1 + 1 = offset + tree.size := by omega
    refine ⟨hfirst.first_eq, by omega, ?_⟩
    rw [hnext, sizeAll, ← Nat.add_assoc]
    exact hothers

/-- The blocks of the operands of a listed tree fill its block up to the root. -/
theorem StandsAt.tiles {tree : Tree} {offset : Nat}
    (h : tree.StandsAt arena.nodes.toList offset) :
    arena.Tiles offset (tree.rootNode offset).children (offset + tree.size - 1) := by
  cases tree with
  | literal value => exact rfl
  | reference name => exact rfl
  | operation applied operands =>
    refine tiles_roots fun before operand after hsplit ↦ ?_
    rw [hsplit] at h
    exact h.operand

end Arena

/-! ### Every node but the root is an operand once -/

theorem children_listingAll_perm {trees : List Tree}
    (h : ∀ tree ∈ trees, ∀ offset, ((tree.listing offset).flatMap Node.children ++
      [offset + tree.size - 1]).Perm (List.range' offset tree.size)) (offset : Nat) :
    ((listingAll offset trees).flatMap Node.children ++ roots offset trees).Perm
      (List.range' offset (sizeAll trees)) := by
  induction trees generalizing offset with
  | nil => exact List.Perm.refl _
  | cons tree trees ih =>
    have hfirst := h tree List.mem_cons_self offset
    have hothers := ih (fun other hother ↦ h other (List.mem_cons_of_mem tree hother))
      (offset + tree.size)
    rw [sizeAll, ← List.range'_append_1]
    refine List.Perm.trans ?_ (hfirst.append hothers)
    simp only [listingAll, roots, List.flatMap_append, List.append_assoc, List.singleton_append]
    exact List.Perm.append_left _ List.perm_middle

/-- In the listing of a tree, the operands of all nodes and the root are the indices of the listing,
each once. -/
theorem children_listing_perm (tree : Tree) (offset : Nat) :
    ((tree.listing offset).flatMap Node.children ++ [offset + tree.size - 1]).Perm
      (List.range' offset tree.size) := by
  induction tree generalizing offset with
  | literal value => simp [listing, Node.children, size]
  | reference name => simp [listing, Node.children, size]
  | operation applied operands ih =>
    have hoperands := children_listingAll_perm ih offset
    simp only [listing, size, List.flatMap_append, List.flatMap_singleton, Node.children,
      List.range'_1_concat]
    exact hoperands.append_right _

theorem children_arena_perm (tree : Tree) :
    (tree.arena.nodes.toList.flatMap Node.children).Perm (List.range tree.arena.root) := by
  have hpred : (tree.size - 1).succ = tree.size := Nat.sub_add_cancel tree.size_pos
  have hrange : List.range' 0 tree.size = List.range (tree.size - 1) ++ [tree.size - 1] := by
    rw [← List.range_succ, hpred, List.range_eq_range']
  have hperm := tree.children_listing_perm 0
  rw [hrange, Nat.zero_add, List.perm_append_right_iff] at hperm
  exact hperm

/-! ### The arena of a tree is in post-order -/

@[simp] theorem size_nodes_arena (tree : Tree) : tree.arena.nodes.size = tree.size := by
  simp only [arena, List.size_toArray, length_listing]

theorem root_arena_add_one (tree : Tree) : tree.arena.root + 1 = tree.size :=
  Nat.sub_add_cancel tree.size_pos

theorem standsAt_arena (tree : Tree) : tree.StandsAt tree.arena.nodes.toList 0 :=
  ⟨[], [], by simp [arena], rfl⟩

section WellFormed

variable {tree : Tree}

/-- Every node of the arena of a tree is the root of a subtree. -/
theorem WellFormed.exists_subtree (hwf : tree.WellFormed) {index : Nat} {node : Node}
    (h : tree.arena.node? index = some node) : ∃ (subtree : Tree) (start : Nat),
      subtree.WellFormed ∧ subtree.StandsAt tree.arena.nodes.toList start ∧
      index = start + subtree.size - 1 ∧ node = subtree.rootNode start := by
  have hlt : index < 0 + tree.size := by
    rw [Nat.zero_add, ← size_nodes_arena]
    exact (Array.getElem?_eq_some_iff.mp h).1
  obtain ⟨subtree, start, hsubtree, hthere, hend⟩ :=
    exists_standsAt hwf tree.standsAt_arena (Nat.zero_le index) hlt
  have hindex : index = start + subtree.size - 1 := by omega
  refine ⟨subtree, start, hsubtree, hthere, hindex, ?_⟩
  have hroot := hthere.getElem?_root
  rw [← hindex, Array.getElem?_toList] at hroot
  exact Option.some.inj (h.symm.trans hroot)

theorem WellFormed.length_children (hwf : tree.WellFormed) {index : Nat} {applied : Operation}
    {children : List Nat} (h : tree.arena.node? index = some (.operation applied children)) :
    children.length = applied.arity := by
  obtain ⟨subtree, start, hsubtree, -, -, hsame⟩ := hwf.exists_subtree h
  cases hsubtree with
  | literal value => cases hsame
  | reference name => cases hsame
  | operation hlength _ =>
    obtain ⟨rfl, rfl⟩ := Node.operation.inj hsame
    rw [length_roots, hlength]

theorem WellFormed.tiles_arena (hwf : tree.WellFormed) (index : Nat) (node : Node)
    (h : tree.arena.node? index = some node) :
    tree.arena.Tiles (tree.arena.first index) node.children index := by
  obtain ⟨subtree, start, -, hthere, rfl, rfl⟩ := hwf.exists_subtree h
  rw [hthere.first_eq]
  exact hthere.tiles

theorem WellFormed.below_arena_iff (hwf : tree.WellFormed) {index : Nat}
    (hindex : index < tree.arena.nodes.size) (other : Nat) : tree.arena.Below index other ↔
      tree.arena.first index ≤ other ∧ other ≤ index := by
  have hfirst : ∀ index < tree.arena.nodes.size, tree.arena.first index ≤ index := fun index hlt ↦
    (hwf.tiles_arena index _ (Array.getElem?_eq_getElem hlt)).le
  constructor
  · intro hbelow
    obtain ⟨hlower, hmiddle, hupper⟩ := hbelow.bounds hwf.tiles_arena hfirst hindex
    exact ⟨Nat.le_trans hlower hmiddle, hupper⟩
  · rintro ⟨hlower, hupper⟩
    exact Arena.below_of_bounds hwf.tiles_arena hindex hlower hupper

/-- The arena of a well-formed tree is in post-order. -/
theorem WellFormed.isPostOrder_arena (hwf : tree.WellFormed) : tree.arena.IsPostOrder where
  root_last := by rw [root_arena_add_one, size_nodes_arena]
  arity := fun _ _ _ h ↦ hwf.length_children h
  child_lt := by
    rintro index child ⟨node, h, hchild⟩
    exact ((hwf.tiles_arena index node h).bounds hchild).2.2
  increasing := fun index node h ↦ (hwf.tiles_arena index node h).pairwise
  used_once := tree.children_arena_perm
  block := fun _ hindex ↦ hwf.below_arena_iff hindex
  adjacent := hwf.tiles_arena
  reachable := by
    intro index hindex
    have hroot : tree.arena.first tree.arena.root = 0 := by
      have h := tree.standsAt_arena.first_eq
      rwa [Nat.zero_add] at h
    have hlast := tree.root_arena_add_one
    rw [size_nodes_arena] at hindex
    refine (hwf.below_arena_iff ?_ index).mpr ⟨by omega, by omega⟩
    rw [size_nodes_arena]
    omega

end WellFormed

end Tree

end Formulary
