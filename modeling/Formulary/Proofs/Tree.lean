import Formulary.Arena.Assembly

/-!
# Trees and their listing in post-order

A formula is a tree, and the table of its arena lists the nodes of the tree in post-order: the
operands of an operation one after the other, and then the operation (`Tree.listing`). The nodes of
a tree are a block of the table that ends at the root, so an operand is named by the place where the
block of that operand ends (`Tree.roots`).

A forest under assembly is the listing of the trees that it holds (`Forest.ofTrees`). Planting a
node adds a tree, and applying an operation turns the last trees into one
(`Forest.apply_ofTrees`), so the tables need not be looked at any more when an assembly is followed.
-/

set_option autoImplicit false
set_option relaxedAutoImplicit false

namespace Formulary

/-- A formula as a tree: a number, a name, or an operation on trees. -/
inductive Tree
  | literal (value : Float)
  | reference (name : String)
  | operation (applied : Operation) (operands : List Tree)

namespace Tree

/-- Induction over trees, with the hypothesis for every operand of an operation. -/
@[elab_as_elim, induction_eliminator]
theorem induction {motive : Tree → Prop} (literal : ∀ value, motive (.literal value))
    (reference : ∀ name, motive (.reference name))
    (operation : ∀ applied operands, (∀ tree ∈ operands, motive tree) →
      motive (.operation applied operands)) : ∀ tree, motive tree
  | .literal value => literal value
  | .reference name => reference name
  | .operation applied operands =>
    operation applied operands fun tree _ ↦ induction literal reference operation tree

/-- Every operation of the tree has as many operands as it takes. -/
inductive WellFormed : Tree → Prop
  | literal (value : Float) : WellFormed (.literal value)
  | reference (name : String) : WellFormed (.reference name)
  | operation {applied : Operation} {operands : List Tree}
      (hlength : operands.length = applied.arity)
      (hoperands : ∀ tree ∈ operands, WellFormed tree) : WellFormed (.operation applied operands)

/-! ### Sizes -/

mutual

/-- The number of nodes of a tree. -/
def size : Tree → Nat
  | .literal _ => 1
  | .reference _ => 1
  | .operation _ operands => sizeAll operands + 1

/-- The number of nodes of several trees. -/
def sizeAll : List Tree → Nat
  | [] => 0
  | tree :: trees => size tree + sizeAll trees

end

theorem size_pos (tree : Tree) : 0 < tree.size := by
  cases tree with
  | literal value => exact Nat.one_pos
  | reference name => exact Nat.one_pos
  | operation applied operands => exact Nat.succ_pos _

theorem sizeAll_append (first second : List Tree) :
    sizeAll (first ++ second) = sizeAll first + sizeAll second := by
  induction first with
  | nil => exact (Nat.zero_add _).symm
  | cons tree trees ih => simp only [List.cons_append, sizeAll, ih, Nat.add_assoc]

/-! ### Listings -/

/-- The indices of the roots of trees that are listed one after the other from `offset` on. -/
def roots (offset : Nat) : List Tree → List Nat
  | [] => []
  | tree :: trees => (offset + tree.size - 1) :: roots (offset + tree.size) trees

mutual

/-- The nodes of a tree in post-order, when the first of them gets the index `offset`. -/
def listing (offset : Nat) : Tree → List Node
  | .literal value => [.literal value]
  | .reference name => [.reference name]
  | .operation applied operands =>
    listingAll offset operands ++ [.operation applied (roots offset operands)]

/-- The nodes of several trees, one tree after the other. -/
def listingAll (offset : Nat) : List Tree → List Node
  | [] => []
  | tree :: trees => listing offset tree ++ listingAll (offset + size tree) trees

end

@[simp] theorem length_roots (offset : Nat) (trees : List Tree) :
    (roots offset trees).length = trees.length := by
  induction trees generalizing offset with
  | nil => rfl
  | cons tree trees ih => simp only [roots, List.length_cons, ih]

theorem roots_append (offset : Nat) (first second : List Tree) :
    roots offset (first ++ second) =
      roots offset first ++ roots (offset + sizeAll first) second := by
  induction first generalizing offset with
  | nil => simp [roots, sizeAll]
  | cons tree trees ih => simp only [List.cons_append, roots, sizeAll, ih, Nat.add_assoc]

theorem listingAll_append (offset : Nat) (first second : List Tree) :
    listingAll offset (first ++ second) =
      listingAll offset first ++ listingAll (offset + sizeAll first) second := by
  induction first generalizing offset with
  | nil => simp [listingAll, sizeAll]
  | cons tree trees ih =>
    simp only [List.cons_append, listingAll, sizeAll, ih, List.append_assoc, Nat.add_assoc]

theorem length_listingAll_of_forall {trees : List Tree}
    (h : ∀ tree ∈ trees, ∀ offset, (tree.listing offset).length = tree.size) (offset : Nat) :
    (listingAll offset trees).length = sizeAll trees := by
  induction trees generalizing offset with
  | nil => rfl
  | cons tree trees ih =>
    have hfirst := h tree List.mem_cons_self offset
    have hothers := ih (fun other hother ↦ h other (List.mem_cons_of_mem tree hother))
    simp only [listingAll, sizeAll, List.length_append, hfirst, hothers]

@[simp] theorem length_listing (tree : Tree) (offset : Nat) :
    (tree.listing offset).length = tree.size := by
  induction tree generalizing offset with
  | literal value => rfl
  | reference name => rfl
  | operation applied operands ih =>
    simp only [listing, size, List.length_append, List.length_singleton,
      length_listingAll_of_forall ih]

@[simp] theorem length_listingAll (trees : List Tree) (offset : Nat) :
    (listingAll offset trees).length = sizeAll trees :=
  length_listingAll_of_forall (fun tree _ ↦ tree.length_listing) offset

/-- The arena that lists the tree. -/
def arena (tree : Tree) : Arena := ⟨(tree.listing 0).toArray, tree.size - 1⟩

end Tree

/-! ### Forests -/

namespace Forest

/-- The forest that holds the given trees, the first tree first in the table. -/
def ofTrees (trees : List Tree) : Forest :=
  ⟨(Tree.listingAll 0 trees).toArray, (Tree.roots 0 trees).reverse⟩

@[simp] theorem length_roots_ofTrees (trees : List Tree) :
    (ofTrees trees).roots.length = trees.length := by
  simp only [ofTrees, List.length_reverse, Tree.length_roots]

/-- A forest of one tree has the nodes and the root of its arena. -/
theorem ofTrees_singleton (tree : Tree) :
    ofTrees [tree] = ⟨tree.arena.nodes, [tree.arena.root]⟩ := by
  simp [ofTrees, Tree.listingAll, Tree.roots, Tree.arena]

/-- Assumes: behind the nodes of the trees `kept`, the table goes on with the nodes of another tree
up to its root. Planting the root on these nodes adds the tree to the trees `kept`. -/
theorem plant_eq_ofTrees {kept : List Tree} {tree : Tree} {nodes : List Node} {node : Node}
    (h : nodes ++ [node] = Tree.listingAll 0 kept ++ tree.listing (Tree.sizeAll kept)) :
    plant ⟨nodes.toArray, (Tree.roots 0 kept).reverse⟩ node = ofTrees (kept ++ [tree]) := by
  have hsize : nodes.length = Tree.sizeAll kept + tree.size - 1 := by
    have hlength := congrArg List.length h
    simp only [List.length_append, List.length_singleton, Tree.length_listingAll,
      Tree.length_listing] at hlength
    omega
  simp only [plant, ofTrees, List.push_toArray, List.size_toArray, h, hsize, Tree.listingAll_append,
    Tree.listingAll, Tree.roots_append, Tree.roots, List.append_nil, Nat.zero_add,
    List.reverse_append, List.reverse_cons, List.reverse_nil, List.nil_append,
    List.singleton_append]

theorem plant_literal (trees : List Tree) (value : Float) :
    (ofTrees trees).plant (.literal value) = ofTrees (trees ++ [.literal value]) :=
  plant_eq_ofTrees (by simp only [Tree.listing])

theorem plant_reference (trees : List Tree) (name : String) :
    (ofTrees trees).plant (.reference name) = ofTrees (trees ++ [.reference name]) :=
  plant_eq_ofTrees (by simp only [Tree.listing])

/-- Assumes: an operation takes as many operands as there are trees in `operands`. Applied to a
forest that ends with these trees, it makes them the operands of one tree. -/
theorem apply_ofTrees {operation : Operation} {operands : List Tree}
    (hlength : operands.length = operation.arity) (kept : List Tree) :
    (ofTrees (kept ++ operands)).apply operation =
      .ok (ofTrees (kept ++ [.operation operation operands])) := by
  have hroots : (ofTrees (kept ++ operands)).roots =
      (Tree.roots (Tree.sizeAll kept) operands).reverse ++ (Tree.roots 0 kept).reverse := by
    simp only [ofTrees, Tree.roots_append, List.reverse_append, Nat.zero_add]
  have hcount : (Tree.roots (Tree.sizeAll kept) operands).reverse.length = operation.arity := by
    simp only [List.length_reverse, Tree.length_roots, hlength]
  have hnodes : (ofTrees (kept ++ operands)).nodes =
      (Tree.listingAll 0 kept ++ Tree.listingAll (Tree.sizeAll kept) operands).toArray := by
    simp only [ofTrees, Tree.listingAll_append, Nat.zero_add]
  have hplenty : ¬ (ofTrees (kept ++ operands)).roots.length < operation.arity := by
    simp only [length_roots_ofTrees, List.length_append, hlength]
    omega
  unfold apply
  dsimp only
  rw [if_neg hplenty, hroots, List.take_left' hcount, List.drop_left' hcount, List.reverse_reverse,
    hnodes]
  refine congrArg Except.ok (plant_eq_ofTrees ?_)
  simp only [Tree.listing, List.append_assoc]

/-- A forest that ends with too few trees for an operation does not change. -/
theorem apply_ofTrees_eq_error {operation : Operation} {trees : List Tree}
    (hfew : trees.length < operation.arity) : (ofTrees trees).apply operation =
      .error (.missingOperands operation.label operation.arity trees.length) :=
  (apply_eq_error_iff _ _ _).mpr (by simpa only [length_roots_ofTrees] using ⟨hfew, trivial⟩)

/-- Assumes: an operation was applied to the forest of the given trees. The last of the trees have
become its operands, as many as it takes. -/
theorem exists_of_apply_ofTrees {trees : List Tree} {operation : Operation} {forest : Forest}
    (h : (ofTrees trees).apply operation = .ok forest) : ∃ kept operands, trees = kept ++ operands ∧
      operands.length = operation.arity ∧
      forest = ofTrees (kept ++ [.operation operation operands]) := by
  by_cases hfew : trees.length < operation.arity
  · rw [apply_ofTrees_eq_error hfew] at h
    cases h
  · have hcount : (trees.drop (trees.length - operation.arity)).length = operation.arity := by
      rw [List.length_drop]
      omega
    have hsplit : trees = trees.take (trees.length - operation.arity) ++
        trees.drop (trees.length - operation.arity) := (List.take_append_drop _ _).symm
    refine ⟨_, _, hsplit, hcount, ?_⟩
    rw [hsplit, apply_ofTrees hcount] at h
    exact (Except.ok.inj h).symm

end Forest

end Formulary
