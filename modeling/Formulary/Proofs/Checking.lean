import Formulary.Proofs.PostOrder
import Formulary.Arena.Evaluation

/-!
# A visit with checks

A visit of an arena reads the values of operands at indices that a node names, and calls a reducer
with as many values as it reads. That this can be done is checked here (`Fault`): the index is one
of the table, and the node has as many operands as its operation takes, and so has the call. A visit
with checks (`Arena.checked`) ends with the first fault.

Main statement: an arena in post-order passes all checks, whatever its names mean
(`Arena.IsPostOrder.checked_eq_evaluate`). Behind as many nodes as there are values, the next node
names only indices that are smaller (`Node.Fits`).
-/

set_option autoImplicit false
set_option relaxedAutoImplicit false

namespace Formulary

/-! ### What is checked -/

/-- What cannot be the case when a table of nodes is visited. -/
inductive Fault
  /-- An index is not one of a table. -/
  | index (index size : Nat)
  /-- A node has another number of operands than its operation takes. -/
  | operands (arity count : Nat)
  /-- A reducer is called with another number of values than its operation takes. -/
  | call (arity count : Nat)
  deriving DecidableEq

/-- The entry of a table at an index. -/
def readAt {α : Type} (table : Array α) (index : Nat) : Except Fault α :=
  match table[index]? with
  | some entry => .ok entry
  | none => .error (.index index table.size)

/-- Calls the reducer of an operation. -/
def Operation.call (operation : Operation) (operands : List Float) : Except Fault Float :=
  if operands.length = operation.arity then .ok (operation.reducer operands)
  else .error (.call operation.arity operands.length)

/-- Carries out an operation: counts its operands, reads their values one after the other, and calls
the reducer. -/
def Operation.carryOut (operation : Operation) (values : Array Float) (children : List Nat) :
    Except Fault Float :=
  if children.length = operation.arity then children.mapM (readAt values) >>= operation.call
  else .error (.operands operation.arity children.length)

section Visit

variable {m : Type → Type} [Monad m] [MonadExceptOf Fault m]

/-- The value of a node, with checks. -/
def Node.checked (resolve : String → m Float) (values : Array Float) : Node → m Float
  | .literal value => pure value
  | .reference name => resolve name
  | .operation applied children => MonadExcept.ofExcept (applied.carryOut values children)

/-- The values of the given nodes behind the values of the nodes before them, with checks. -/
def Arena.checkedFrom (resolve : String → m Float) (values : Array Float) (nodes : List Node) :
    m (Array Float) :=
  nodes.foldlM (fun values node ↦ do return values.push (← node.checked resolve values)) values

/-- The value of the root, with checks: the root is an index of the table, and there is a value in
the end. -/
def Arena.checked (resolve : String → m Float) (arena : Arena) : m Float := do
  let _ ← MonadExcept.ofExcept (readAt arena.nodes arena.root)
  let values ← checkedFrom resolve #[] (arena.nodes.toList.take (arena.root + 1))
  match values.back? with
  | some value => pure value
  | none => throw (.operands 1 0)

end Visit

/-! ### The visit of an arena in post-order -/

section PostOrder

variable {values : Array Float} {children : List Nat}

theorem readAt_of_lt {α : Type} {table : Array α} {index : Nat} (h : index < table.size) :
    readAt table index = .ok table[index] := by
  rw [readAt, Array.getElem?_eq_getElem h]

/-- Values of operands that stand before a node can be read, as many as there are operands. -/
theorem exists_mapM_readAt (h : ∀ child ∈ children, child < values.size) :
    ∃ operands : List Float, children.mapM (readAt values) = .ok operands ∧
      (children.mapM fun child ↦ values[child]?) = some operands ∧
      operands.length = children.length := by
  induction children with
  | nil => exact ⟨[], rfl, rfl, rfl⟩
  | cons child children ih =>
    have hchild := h child List.mem_cons_self
    obtain ⟨operands, hread, hfound, hlength⟩ :=
      ih fun other hother ↦ h other (List.mem_cons_of_mem child hother)
    refine ⟨values[child] :: operands, ?_, ?_, by rw [List.length_cons, List.length_cons, hlength]⟩
    · rw [List.mapM_cons, readAt_of_lt hchild, hread]
      rfl
    · rw [List.mapM_cons, Array.getElem?_eq_getElem hchild, hfound]
      rfl

/-- Whether a node can be visited behind so many nodes. -/
def Node.Fits (count : Nat) : Node → Prop
  | .operation applied children =>
    children.length = applied.arity ∧ ∀ child ∈ children, child < count
  | _ => True

variable {m : Type → Type} [Monad m] [MonadExceptOf EvalError m] [MonadExceptOf Fault m]
  {resolve : String → m Float} {node : Node}

theorem Node.checked_eq_value (h : node.Fits values.size) :
    node.checked resolve values = node.value resolve values := by
  cases node with
  | literal value => rfl
  | reference name => rfl
  | operation applied children =>
    obtain ⟨hcount, hbefore⟩ := h
    obtain ⟨operands, hread, hfound, hlength⟩ := exists_mapM_readAt hbefore
    have hcall : applied.call operands = .ok (applied.reducer operands) := by
      rw [Operation.call, if_pos (hlength.trans hcount)]
    have hcarried : applied.carryOut values children = .ok (applied.reducer operands) := by
      rw [Operation.carryOut, if_pos hcount, hread]
      exact hcall
    have hoperands : applied.operands? values children = some operands := by
      rw [Operation.operands?, if_pos hcount, hfound]
    rw [checked, value, hcarried, hoperands]
    rfl

variable [LawfulMonad m]

/-- Assumes: nodes that can be visited one after the other, and something behind the visit that
depends on the number of values only as far as it is right. The checks change nothing. -/
theorem Arena.checkedFrom_bind {β : Type} {nodes : List Node} {k k' : Array Float → m β}
    (hfits : ∀ before node after, nodes = before ++ node :: after →
      node.Fits (values.size + before.length))
    (hk : ∀ all : Array Float, all.size = values.size + nodes.length → k all = k' all) :
    checkedFrom resolve values nodes >>= k = valuesFrom resolve values nodes >>= k' := by
  induction nodes generalizing values with
  | nil => simp only [checkedFrom, valuesFrom, List.foldlM_nil, pure_bind, hk values rfl]
  | cons node nodes ih =>
    have hnode : node.checked resolve values = node.value resolve values :=
      Node.checked_eq_value (hfits [] node nodes rfl)
    simp only [checkedFrom, valuesFrom, List.foldlM_cons, bind_assoc, pure_bind, hnode]
    refine bind_congr fun value ↦ ih (fun before other after hsplit ↦ ?_) fun all hall ↦ hk all ?_
    · have hother := hfits (node :: before) other after (congrArg (node :: ·) hsplit)
      rw [Array.size_push]
      rwa [List.length_cons, Nat.add_comm before.length, ← Nat.add_assoc] at hother
    · rw [hall, Array.size_push, List.length_cons, Nat.add_comm nodes.length, Nat.add_assoc]

theorem Arena.IsPostOrder.fits {arena : Arena} (h : arena.IsPostOrder) {index : Nat}
    (hnode : arena.node? index = some node) : node.Fits index := by
  cases node with
  | literal value => trivial
  | reference name => trivial
  | operation applied children =>
    exact ⟨h.arity index applied children hnode,
      fun child hchild ↦ h.child_lt index child ⟨_, hnode, hchild⟩⟩

/-- An arena in post-order passes all checks, whatever the names mean. -/
theorem Arena.IsPostOrder.checked_eq_evaluate {arena : Arena} (h : arena.IsPostOrder)
    (resolve : String → m Float) : arena.checked resolve = arena.evaluate resolve := by
  have hsize := h.root_last
  have hroot : arena.root < arena.nodes.size := by omega
  have hall : arena.nodes.toList.take (arena.root + 1) = arena.nodes.toList := by
    rw [hsize, List.take_of_length_le (Nat.le_of_eq Array.length_toList)]
  rw [checked, readAt_of_lt hroot, evaluate, hall]
  show (pure _ >>= fun _ ↦ _) = _
  rw [pure_bind]
  refine checkedFrom_bind (fun before node after hsplit ↦ ?_) fun all hcount ↦ ?_
  · refine (Nat.zero_add before.length).symm ▸ h.fits ?_
    rw [node?, ← Array.getElem?_toList, hsplit, List.getElem?_append_right (Nat.le_refl _),
      Nat.sub_self]
    rfl
  · have hpos : 0 < all.size := by
      rw [hcount, Array.length_toList]
      omega
    cases hback : all.back? with
    | some value => rfl
    | none =>
      rw [Array.back?_eq_none_iff] at hback
      rw [hback] at hpos
      cases hpos

end PostOrder

end Formulary
