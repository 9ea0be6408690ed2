import Formulary.Proofs.Assembly
import Formulary.Proofs.Nesting

/-!
# A visit in the order of the table is a recursion over the tree

The value of a formula can be had by recursion (`Arena.valueAt`): the operands of an operation are
evaluated from left to right, as the node names them, up to the first error, and then the operation
is applied to their values. The evaluation of an arena does not look for operands in that way. It
visits the nodes in the order of the table and leaves their values behind for the nodes that follow.

Main statement: for everything that compiles the two are the same action, whatever the names mean,
so they have the same value or the same first error, and they look up the same names in the same
order, also inside the expressions that names are bound to.

Both are compared with the value of the tree that the arena lists (`Tree.value`). A visit of the
nodes of a tree adds a block of values that ends with the value of the tree, and nothing that comes
behind reads more of the block than its end (`Tree.valuesFrom_listing_bind`).
-/

set_option autoImplicit false
set_option relaxedAutoImplicit false

namespace Formulary

/-! ### What an expression is made from -/

/-- The formulas of expressions: numbers, and whatever compiles under some grammar. -/
inductive Arena.Compiled : Arena → Prop
  | literal (value : Float) : Compiled (.literal value)
  | text {g : Grammar} {input : String} {arena : Arena} (h : g.compile input = .ok arena) :
    Compiled arena

/-- Whether a context binds formulas of expressions only. -/
def Context.Compiled (context : Context) : Prop :=
  ∀ ⦃name : String⦄ ⦃x : Expression⦄, context.find? name = some x → x.arena.Compiled

theorem Arena.Compiled.exists_tree {arena : Arena} (h : arena.Compiled) :
    ∃ tree : Tree, tree.WellFormed ∧ arena = tree.arena := by
  cases h with
  | literal value => exact ⟨.literal value, .literal value, rfl⟩
  | text h => exact Grammar.exists_tree_of_compile h

/-! ### Evaluation by recursion -/

section Recursion

variable {m : Type → Type} [Monad m]

namespace Tree

mutual

/-- The value of a tree: the operands are evaluated from left to right, and the operation is applied
to their values. -/
def value (resolve : String → m Float) : Tree → m Float
  | .literal value => pure value
  | .reference name => resolve name
  | .operation applied operands => do
    let operands ← valueAll resolve operands
    return applied.reducer operands

/-- The values of several trees, from left to right. -/
def valueAll (resolve : String → m Float) : List Tree → m (List Float)
  | [] => return []
  | tree :: trees => do
    let first ← value resolve tree
    let others ← valueAll resolve trees
    return first :: others

end

end Tree

variable [MonadExceptOf EvalError m]

/-- The value of a node, by recursion over its operands. A node that is not there has no value, and
neither has one with an operand that does not stand before it. -/
def Arena.valueAt (resolve : String → m Float) (arena : Arena) (index : Nat) : m Float :=
  match arena.node? index with
  | none => throw (.badTree 1 0)
  | some (.literal value) => pure value
  | some (.reference name) => resolve name
  | some (.operation applied children) => do
    let operands ← children.mapM fun child ↦
      if child < index then arena.valueAt resolve child
      else throw (.badTree applied.arity children.length)
    return applied.reducer operands
  termination_by index

end Recursion

/-- Evaluates an expression, and the expressions that names are bound to, by recursion over their
nodes. Names are resolved, and the nesting is bounded, as in `EvalM.evaluate`. -/
def EvalM.descend : Nat → Expression → EvalM Float
  | 0, _ => do throw (.cyclicDependency (← context).callStack.names)
  | nesting + 1, expression =>
    expression.arena.valueAt (resolve (descend nesting)) expression.arena.root

namespace Expression

/-- Evaluates the expression in a context, by recursion. -/
def evalByRecursion (expression : Expression) (context : Context) : Evaluation :=
  let (result, progress) := (EvalM.descend (context.size + 1) expression).run ⟨context, #[]⟩
  ⟨result, progress.context, progress.lookups⟩

/-- Evaluates the expression without a context, by recursion. -/
def evalClosedByRecursion (expression : Expression) : Except EvalError Float :=
  expression.arena.valueAt (fun name ↦ throw (.noContext name)) expression.arena.root

end Expression

/-! ### The visit of a listing -/

namespace Tree

section Visit

variable {m : Type → Type} [Monad m] [LawfulMonad m] [MonadExceptOf EvalError m]
  {resolve : String → m Float} {β : Type}

/-- Assumes: each of the trees is visited as its value would be computed, as far as what comes
behind the visit can tell. Then so are all of them together, where what comes behind reads no more
of the new values than the values of the roots. -/
theorem valuesFrom_listingAll_bind {trees : List Tree}
    (htrees : ∀ tree ∈ trees, ∀ (before : Array Float) (k : Array Float → m β) (k' : Float → m β),
      (∀ (block : Array Float) (value : Float), block.size + 1 = tree.size →
        k ((before ++ block).push value) = k' value) →
      Arena.valuesFrom resolve before (tree.listing before.size) >>= k =
        tree.value resolve >>= k')
    (before : Array Float) {k : Array Float → m β} {k' : List Float → m β}
    (hreads : ∀ (block : Array Float) (operands : List Float), block.size = sizeAll trees →
      ((roots before.size trees).mapM fun child ↦ (before ++ block)[child]?) = some operands →
      k (before ++ block) = k' operands) :
    Arena.valuesFrom resolve before (listingAll before.size trees) >>= k =
      valueAll resolve trees >>= k' := by
  induction trees generalizing before k k' with
  | nil =>
    have hnone := hreads #[] [] rfl rfl
    rw [Array.append_empty] at hnone
    simp only [listingAll, valueAll, Arena.valuesFrom, List.foldlM_nil, pure_bind, hnone]
  | cons tree trees ih =>
    simp only [listingAll, valueAll, Arena.valuesFrom, List.foldlM_append, bind_assoc, pure_bind]
    refine htrees tree List.mem_cons_self before _ _ fun block value hblock ↦ ?_
    have hsize : ((before ++ block).push value).size = before.size + tree.size := by
      rw [Array.size_push, Array.size_append]
      omega
    rw [← hsize]
    refine ih (fun other hother ↦ htrees other (List.mem_cons_of_mem tree hother)) _
      fun others operands hothers hoperands ↦ ?_
    have hall : (before ++ block).push value ++ others =
        before ++ (block.push value ++ others) := by
      rw [← Array.append_assoc, Array.append_push]
    rw [hall] at hoperands ⊢
    refine hreads (block.push value ++ others) (value :: operands) ?_ ?_
    · rw [Array.size_append, Array.size_push, hblock, hothers, sizeAll]
    · have hroot : (before ++ (block.push value ++ others))[before.size + tree.size - 1]? =
          some value := by
        have hindex : before.size + tree.size - 1 = (before ++ block).size := by
          rw [Array.size_append]
          omega
        rw [← hall, hindex, Array.getElem?_append_left (by simp), Array.getElem?_push_size]
      rw [hsize] at hoperands
      simp [roots, hroot, hoperands]

/-- Assumes: a well-formed tree, and something behind the visit of its nodes that reads no more of
the new values than the last. Then the visit is the value of the tree. -/
theorem valuesFrom_listing_bind {tree : Tree} (hwf : tree.WellFormed) (before : Array Float)
    {k : Array Float → m β} {k' : Float → m β}
    (hreads : ∀ (block : Array Float) (value : Float), block.size + 1 = tree.size →
      k ((before ++ block).push value) = k' value) :
    Arena.valuesFrom resolve before (tree.listing before.size) >>= k =
      tree.value resolve >>= k' := by
  induction hwf generalizing before k k' with
  | literal literal =>
    have hone := hreads #[] literal rfl
    rw [Array.append_empty] at hone
    simp only [listing, value, Arena.valuesFrom, List.foldlM_cons, List.foldlM_nil, Node.value,
      pure_bind, hone]
  | reference name =>
    have hone := fun value ↦ hreads #[] value rfl
    simp only [Array.append_empty] at hone
    simp only [listing, value, Arena.valuesFrom, List.foldlM_cons, List.foldlM_nil, Node.value,
      bind_assoc, pure_bind, hone]
  | @operation applied operands hlength hoperands ih =>
    simp only [listing, value, Arena.valuesFrom, List.foldlM_append, bind_assoc, pure_bind]
    refine valuesFrom_listingAll_bind (fun tree htree before _ _ ↦ ih tree htree before) before
      fun block values hblock hvalues ↦ ?_
    have harity : (roots before.size operands).length = applied.arity := by
      rw [length_roots, hlength]
    have hfound : applied.operands? (before ++ block) (roots before.size operands) =
        some values := by
      rw [Operation.operands?, if_pos harity, hvalues]
    have hlast := hreads block (applied.reducer values) (by rw [hblock, size])
    simp only [List.foldlM_cons, List.foldlM_nil, Node.value, hfound, pure_bind, hlast]

/-- The evaluation of the arena of a well-formed tree is the value of the tree. -/
theorem WellFormed.evaluate_arena {tree : Tree} (hwf : tree.WellFormed)
    (resolve : String → m Float) : tree.arena.evaluate resolve = tree.value resolve := by
  have hnodes : tree.arena.nodes.toList.take (tree.arena.root + 1) = tree.listing 0 := by
    rw [root_arena_add_one, arena, List.take_of_length_le]
    exact Nat.le_of_eq (tree.length_listing 0)
  rw [Arena.evaluate, hnodes, ← bind_pure (tree.value resolve)]
  refine valuesFrom_listing_bind hwf #[] fun block value _ ↦ ?_
  rw [Array.back?_push]

end Visit

/-! ### The recursion over the nodes of a listing -/

section Nodes

variable {m : Type → Type} [Monad m] [LawfulMonad m] {resolve : String → m Float}

/-- Assumes: an action for each index, which at the root of a listed tree is its value. -/
theorem mapM_roots {action : Nat → m Float} {trees : List Tree} {offset : Nat}
    (h : ∀ before tree after, trees = before ++ tree :: after →
      action (offset + sizeAll before + tree.size - 1) = tree.value resolve) :
    (roots offset trees).mapM action = valueAll resolve trees := by
  induction trees generalizing offset with
  | nil => rfl
  | cons tree trees ih =>
    have hfirst : action (offset + tree.size - 1) = tree.value resolve := h [] tree trees rfl
    have hothers : (roots (offset + tree.size) trees).mapM action = valueAll resolve trees := by
      refine ih fun before other after hsplit ↦ ?_
      have hother := h (tree :: before) other after (congrArg (tree :: ·) hsplit)
      rwa [sizeAll, ← Nat.add_assoc] at hother
    rw [roots, List.mapM_cons, valueAll, hfirst, hothers]

variable [MonadExceptOf EvalError m]

/-- Where a tree stands in an arena, the recursion from its root is its value. -/
theorem StandsAt.valueAt {arena : Arena} {tree : Tree} {offset : Nat}
    (h : tree.StandsAt arena.nodes.toList offset) :
    arena.valueAt resolve (offset + tree.size - 1) = tree.value resolve := by
  have hnode := h.node?_root
  induction tree generalizing offset with
  | literal literal => rw [Arena.valueAt, hnode, rootNode, value]
  | reference name => rw [Arena.valueAt, hnode, rootNode, value]
  | operation applied operands ih =>
    rw [Arena.valueAt, hnode, rootNode, value]
    refine congrArg (· >>= _) (mapM_roots fun before operand after hsplit ↦ ?_)
    subst hsplit
    have hbefore : offset + sizeAll before + operand.size - 1 <
        offset + (operation applied (before ++ operand :: after)).size - 1 := by
      have hpos := operand.size_pos
      rw [size, sizeAll_append, sizeAll]
      omega
    rw [if_pos hbefore]
    exact ih operand (by simp) h.operand h.operand.node?_root

/-- The recursion from the root of the arena of a tree is the value of the tree. -/
theorem valueAt_root_arena (tree : Tree) (resolve : String → m Float) :
    tree.arena.valueAt resolve tree.arena.root = tree.value resolve := by
  have h : tree.arena.valueAt resolve (0 + tree.size - 1) = tree.value resolve :=
    tree.standsAt_arena.valueAt
  rwa [Nat.zero_add] at h

end Nodes

end Tree

/-! ### Expressions -/

/-- A formula of an expression has one value, in the order of the table or by recursion, whatever
the names mean. -/
theorem Arena.Compiled.evaluate_eq_valueAt {arena : Arena} (h : arena.Compiled)
    {m : Type → Type} [Monad m] [LawfulMonad m] [MonadExceptOf EvalError m]
    (resolve : String → m Float) : arena.evaluate resolve = arena.valueAt resolve arena.root := by
  obtain ⟨tree, hwf, rfl⟩ := h.exists_tree
  rw [hwf.evaluate_arena, Tree.valueAt_root_arena]

/-- Assumes: a context that binds formulas of expressions only. Both ways to evaluate an expression
have one outcome, and the context is behind them as it was. -/
theorem EvalM.coincide_descend {context : Context} (hcontext : context.Compiled) (nesting : Nat)
    {x : Expression} (hx : x.arena.Compiled) :
    Coincide context Float (evaluate nesting x) (descend nesting x) := by
  induction nesting generalizing context x with
  | zero => exact fun lookups ↦ ⟨_, lookups, rfl, rfl⟩
  | succ nesting ih =>
    rw [evaluate, descend, ← hx.evaluate_eq_valueAt]
    refine Arena.evaluate_related (compatible_coincide context) fun name _ ↦ ?_
    refine coincide_resolve fun y hfind _ ↦ ?_
    have hinner : (context.enter ⟨name, y.id⟩).Compiled := fun _ _ h ↦ hcontext h
    exact ih hinner (hcontext hfind)

namespace Expression

/-- Evaluating an expression in the order of its table has the result, the context behind it and the
lookups that evaluating it by recursion has, in every context that binds formulas of expressions,
and it has the same result without a context. The visit of its arena is the recursion whatever the
names mean. -/
theorem eval_eq_evalByRecursion {expression : Expression} (h : expression.arena.Compiled) :
    (∀ context : Context, context.Compiled →
      expression.eval context = expression.evalByRecursion context) ∧
    expression.evalClosed = expression.evalClosedByRecursion ∧
    ∀ (m : Type → Type) [Monad m] [LawfulMonad m] [MonadExceptOf EvalError m]
      (resolve : String → m Float), expression.arena.evaluate resolve =
        expression.arena.valueAt resolve expression.arena.root := by
  refine ⟨fun context hcontext ↦ ?_, h.evaluate_eq_valueAt _, fun m _ _ _ ↦ h.evaluate_eq_valueAt⟩
  obtain ⟨result, more, hvisit, hrecursion⟩ :=
    EvalM.coincide_descend hcontext (context.size + 1) h #[]
  have heval : expression.eval context = ⟨result, context, more⟩ :=
    congrArg (fun outcome ↦ Evaluation.mk outcome.1 outcome.2.context outcome.2.lookups) hvisit
  have hdescend : expression.evalByRecursion context = ⟨result, context, more⟩ :=
    congrArg (fun outcome ↦ Evaluation.mk outcome.1 outcome.2.context outcome.2.lookups) hrecursion
  rw [heval, hdescend]

/-- A difference with a name that is bound to a sum. -/
theorem eval_eq_evalByRecursion_nested : ∃ sum difference : Arena,
    Grammar.standard.compile "1 + missing" = .ok sum ∧
    Grammar.standard.compile "2 - x" = .ok difference ∧
    let context := Context.empty.add "x" ⟨⟨0⟩, sum⟩
    (Expression.mk ⟨1⟩ difference).eval context =
      (Expression.mk ⟨1⟩ difference).evalByRecursion context := by
  have hcompiles : (Grammar.standard.compile "1 + missing").isOk = true ∧
      (Grammar.standard.compile "2 - x").isOk = true := by decide +kernel
  obtain ⟨sum, hsum⟩ := exists_of_isOk hcompiles.1
  obtain ⟨difference, hdifference⟩ := exists_of_isOk hcompiles.2
  refine ⟨sum, difference, hsum, hdifference, ?_⟩
  refine (eval_eq_evalByRecursion (.text hdifference)).1 _ fun name x hfind ↦ ?_
  rw [Context.find?_add] at hfind
  split at hfind
  · cases hfind
    exact .text hsum
  · rw [Context.find?_empty] at hfind
    cases hfind

end Expression

end Formulary
