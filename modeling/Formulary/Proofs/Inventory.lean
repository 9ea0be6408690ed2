import Formulary.Proofs.Refusals
import Formulary.Proofs.Registration

/-!
# Which nodes a text has

Every number, every name and every operator of a text that compiles has one node in its arena, and
there are no other nodes (`Grammar.Inventory`). Numbers and references are there in the order of the
text. Operations may come in another order, because operators and functions wait for their operands;
carrying out one that waits moves it into the table and changes nothing in the operations of both
together (`Assembly.operations_reduceWhile`).

Main statement: the arena of a text that compiles has the nodes that its tokens give, and the number
of trees that another text leaves over can be read off its tokens.
-/

set_option autoImplicit false
set_option relaxedAutoImplicit false

namespace Formulary

/-! ### What nodes and tokens are there -/

/-- The operation of a node, unless it is a number or a reference. -/
def Node.operation? : Node → Option Operation
  | .operation applied _ => some applied
  | _ => none

/-- Whether a node is a number or a reference. -/
def Node.isLeaf (node : Node) : Bool := node.operation?.isNone

/-- The numbers and references of a formula, in the order of the table. -/
def Arena.leaves (arena : Arena) : List Node := arena.nodes.toList.filter Node.isLeaf

/-- The operations of a formula, in the order of the table. -/
def Arena.operations (arena : Arena) : List Operation :=
  arena.nodes.toList.filterMap Node.operation?

namespace Token

variable (g : Grammar) (token : Token)

/-- Whether the token is a name that is not the name of a function. -/
def isReference : Bool := token.kind == .identifier && (g.function? token.text).isNone

/-- Whether the token is a number or a reference. -/
def isLeaf : Bool := token.kind == .number || token.isReference g

/-- The node of a number or a reference. -/
def leaf? : Option Node :=
  match token.kind with
  | .number => (Numeral.value? token.text).map .literal
  | .identifier => if token.isReference g then some (.reference token.text) else none
  | _ => none

/-- The operation of an operator or of the name of a function. -/
def operation? : Option Operation :=
  match token.kind with
  | .identifier => (g.function? token.text).map NamedFunction.operation
  | .operator => (g.operator? token.text).map Operator.operation
  | _ => none

end Token

/-- Whether a formula has the nodes that the tokens give. -/
structure Grammar.Inventory (g : Grammar) (tokens : List Token) (arena : Arena) : Prop where
  /-- There is one node for each number, name and operator, and none for anything else. -/
  size : arena.nodes.size =
    tokens.countP fun token ↦ token.kind ∈ [.number, .identifier, .operator]
  /-- The numbers with their values, and the references, stand in the order of the tokens. -/
  leaves : arena.leaves.map some = (tokens.filter (Token.isLeaf g)).map (Token.leaf? g)
  /-- The names that the formula refers to are those of the tokens, in their order. -/
  references : arena.references = (tokens.filter (Token.isReference g)).map Token.text
  /-- The operations are those of the tokens, in some order. -/
  operations : arena.operations.Perm (tokens.filterMap (Token.operation? g))
  /-- An operator has an operation with its symbol and two operands. -/
  operator : ∀ token ∈ tokens, token.kind = .operator → ∃ operation,
    token.operation? g = some operation ∧ operation.label = token.text ∧ operation.arity = 2
  /-- The name of a function has an operation with this name and the number of operands that is
  registered. -/
  function : ∀ token ∈ tokens, token.kind = .identifier → ∀ f, g.function? token.text = some f →
    ∃ operation, token.operation? g = some operation ∧ operation.label = token.text ++ "()" ∧
      operation.arity = f.arity

/-! ### Nodes of a forest and of what waits -/

namespace Forest

/-- The numbers and references of a forest. -/
def leaves (forest : Forest) : List Node := forest.nodes.toList.filter Node.isLeaf

/-- The operations of a forest. -/
def operations (forest : Forest) : List Operation :=
  forest.nodes.toList.filterMap Node.operation?

theorem leaves_plant {forest : Forest} {node : Node} (hnode : node.isLeaf = true) :
    (forest.plant node).leaves = forest.leaves ++ [node] := by
  simp [leaves, hnode]

theorem operations_plant {forest : Forest} {node : Node} (hnode : node.isLeaf = true) :
    (forest.plant node).operations = forest.operations := by
  simp [operations, Option.isNone_iff_eq_none.mp hnode]

theorem leaves_and_operations_apply {forest next : Forest} {operation : Operation}
    (h : forest.apply operation = .ok next) :
    next.leaves = forest.leaves ∧ next.operations = forest.operations ++ [operation] := by
  rw [apply] at h
  split at h
  · cases h
  · cases h
    simp [leaves, operations, Node.isLeaf, Node.operation?]

end Forest

namespace Assembly

/-- The operations that were carried out and those that wait. -/
def operations (assembly : Assembly) : List Operation :=
  assembly.forest.operations ++ assembly.pending.filterMap Pending.operation?

variable {g : Grammar} {assembly next reduced : Assembly} {token : Token}

/-- An operation that is carried out moves from what waits to the end of the forest. -/
theorem operations_of_apply {forest applied : Forest} {waiting : Pending} {operation : Operation}
    (hwaiting : waiting.operation? = some operation) (happly : forest.apply operation = .ok applied)
    (others : List Pending) :
    operations ⟨applied, others⟩ = operations ⟨forest, waiting :: others⟩ := by
  simp [operations, (Forest.leaves_and_operations_apply happly).2, hwaiting]

section Reducing

variable {due : Pending → Option Operation}
  (hdue : ∀ waiting operation, due waiting = some operation → waiting.operation? = some operation)
  {forest : Forest} {pending : List Pending} (h : reduceWhile due forest pending = .ok reduced)

include h

/-- Carrying out what waits adds no numbers and references. -/
theorem leaves_reduceWhile : reduced.forest.leaves = forest.leaves := by
  refine keeps_of_reduceWhile_eq_ok
    (P := fun assembly ↦ assembly.forest.leaves = forest.leaves) ?_ h rfl
  intro forest applied waiting operation others _ happly hbefore
  rw [← hbefore]
  exact (Forest.leaves_and_operations_apply happly).1

include hdue

/-- Carrying out what waits moves operations and changes none. -/
theorem operations_reduceWhile : reduced.operations = operations ⟨forest, pending⟩ := by
  refine keeps_of_reduceWhile_eq_ok
    (P := fun assembly ↦ assembly.operations = operations ⟨forest, pending⟩) ?_ h rfl
  intro forest applied waiting operation others hwaiting happly hbefore
  rw [← hbefore, operations_of_apply (hdue _ _ hwaiting) happly]

end Reducing

theorem leaves_reduceGroup (h : assembly.reduceGroup = .ok reduced) :
    reduced.forest.leaves = assembly.forest.leaves := leaves_reduceWhile h

theorem operations_reduceGroup (h : assembly.reduceGroup = .ok reduced) :
    reduced.operations = assembly.operations := operations_reduceWhile (fun _ _ h ↦ h) h

/-! ### With every token -/

/-- A number or a reference comes behind those before it, and no other token adds one. -/
theorem Takes.leaves (h : Takes g assembly token next) :
    next.forest.leaves = assembly.forest.leaves ++ (token.leaf? g).toList := by
  cases h with
  | literal hvalue =>
    simp only [Token.leaf?, hvalue, Option.map_some, Option.toList_some]
    exact Forest.leaves_plant rfl
  | @reference name hname =>
    have hfree : Token.isReference g ⟨.identifier, name⟩ = true := by
      simp only [Token.isReference, hname]
      rfl
    simp only [Token.leaf?, hfree, if_true, Option.toList_some]
    exact Forest.leaves_plant rfl
  | @function name f hname =>
    have hbound : Token.isReference g ⟨.identifier, name⟩ = false := by
      simp only [Token.isReference, hname]
      rfl
    simp only [Token.leaf?, hbound, Bool.false_eq_true, if_false, Option.toList_none,
      List.append_nil]
    rfl
  | operator hsymbol hreduced => exact (leaves_reduceWhile hreduced).trans (List.append_nil _).symm
  | openParen => exact (List.append_nil _).symm
  | comma hreduced => exact (leaves_reduceGroup hreduced).trans (List.append_nil _).symm
  | closeGroup hreduced hgroup =>
    exact (leaves_reduceGroup hreduced).trans (List.append_nil _).symm
  | closeCall hreduced happly =>
    rw [(Forest.leaves_and_operations_apply happly).1]
    exact (leaves_reduceGroup hreduced).trans (List.append_nil _).symm

/-- An operator or the name of a function adds its operation, and no other token adds one. -/
theorem Takes.operations (h : Takes g assembly token next) :
    next.operations.Perm (assembly.operations ++ (token.operation? g).toList) := by
  cases h with
  | literal hvalue =>
    rw [Assembly.operations, plant, Forest.operations_plant rfl]
    exact .of_eq (List.append_nil _).symm
  | reference hname =>
    rw [Assembly.operations, plant, Forest.operations_plant rfl]
    simp only [Token.operation?, hname, Option.map_none, Option.toList_none, List.append_nil]
    exact .refl _
  | function hname =>
    simp only [Token.operation?, hname, Option.map_some, Option.toList_some, Assembly.operations,
      wait, List.filterMap_cons, Pending.operation?, List.append_assoc]
    exact (List.perm_append_singleton _ _).symm.append_left _
  | operator hsymbol hreduced =>
    have hsame : Assembly.operations _ = assembly.operations :=
      operations_reduceWhile operation?_of_dueBefore hreduced
    simp only [Token.operation?, hsymbol, Option.map_some, Option.toList_some, ← hsame]
    simp only [Assembly.operations, wait, List.filterMap_cons, Pending.operation?,
      List.append_assoc]
    exact (List.perm_append_singleton _ _).symm.append_left _
  | openParen => exact .of_eq (List.append_nil _).symm
  | comma hreduced =>
    exact .of_eq ((operations_reduceGroup hreduced).trans (List.append_nil _).symm)
  | closeGroup hreduced hgroup =>
    exact .of_eq ((operations_reduceGroup hreduced).trans (List.append_nil _).symm)
  | @closeCall text forest applied f others hreduced happly =>
    have hcarried : operations ⟨applied, others⟩ = operations ⟨forest, .function f :: others⟩ :=
      operations_of_apply rfl happly others
    refine .of_eq (hcarried.trans ?_)
    exact (operations_reduceGroup hreduced).trans (List.append_nil _).symm

/-- Whether the nodes of an assembly are those that the tokens read give, with what waits. -/
structure Holds (g : Grammar) (read : List Token) (assembly : Assembly) : Prop where
  leaves : assembly.forest.leaves = read.filterMap (Token.leaf? g)
  operations : assembly.operations.Perm (read.filterMap (Token.operation? g))

theorem Takes.holds (h : Takes g assembly token next) {read : List Token}
    (hread : Holds g read assembly) : Holds g (read ++ [token]) next where
  leaves := by
    rw [h.leaves, hread.leaves, List.filterMap_append]
    cases hleaf : token.leaf? g <;> simp [hleaf]
  operations := by
    refine h.operations.trans ((hread.operations.append_right _).trans (.of_eq ?_))
    rw [List.filterMap_append]
    cases hoperation : token.operation? g <;> simp [hoperation]

end Assembly

/-! ### What a token gives -/

/-- The tokens that can be taken: numbers with a value, names, registered operators, parentheses and
commas. -/
inductive Token.Usable (g : Grammar) : Token → Prop
  | number {text : String} {value : Float} (hvalue : Numeral.value? text = some value) :
    Usable g ⟨.number, text⟩
  | reference {name : String} (hname : g.function? name = none) : Usable g ⟨.identifier, name⟩
  | function {name : String} {f : NamedFunction} (hname : g.function? name = some f) :
    Usable g ⟨.identifier, name⟩
  | operator {symbol : String} {o : Operator} (hsymbol : g.operator? symbol = some o) :
    Usable g ⟨.operator, symbol⟩
  | openParen (text : String) : Usable g ⟨.openParen, text⟩
  | closeParen (text : String) : Usable g ⟨.closeParen, text⟩
  | comma (text : String) : Usable g ⟨.comma, text⟩

theorem Token.Known.usable {g : Grammar} {token : Token} (h : token.Known g) : token.Usable g := by
  obtain ⟨kind, text⟩ := token
  cases kind with
  | number =>
    obtain ⟨value, hvalue⟩ := h.1 rfl
    exact .number hvalue
  | identifier =>
    cases hname : g.function? text with
    | none => exact .reference hname
    | some f => exact .function hname
  | operator =>
    obtain ⟨o, hsymbol⟩ := h.2 rfl
    exact .operator hsymbol
  | openParen => exact .openParen text
  | closeParen => exact .closeParen text
  | comma => exact .comma text

namespace Token.Usable

variable {g : Grammar}

/-! One token: what it is decides which node it gives. -/

section One

variable {token : Token} (h : token.Usable g)

include h

theorem isSome_leaf? : (token.leaf? g).isSome = token.isLeaf g := by
  cases h <;> simp_all [leaf?, isLeaf, isReference]

theorem bind_reference? : (token.leaf? g).bind Node.reference? =
    if token.isReference g then some token.text else none := by
  cases h <;> simp_all [leaf?, isReference, Node.reference?]

theorem length_leaf?_add : (token.leaf? g).toList.length + (token.operation? g).toList.length =
    if token.kind ∈ [.number, .identifier, .operator] then 1 else 0 := by
  cases h <;> simp_all [leaf?, operation?, isReference]

theorem balance_eq_add : token.balance g = (if token.isLeaf g then 1 else 0) +
    ((token.operation? g).toList.map Operation.balance).sum := by
  cases h <;> simp_all [Token.balance, isLeaf, isReference, operation?, Operator.balance_operation]

end One

/-! Many tokens. -/

section Many

variable {tokens : List Token} (h : ∀ token ∈ tokens, token.Usable g)

include h

theorem map_leaf? :
    (tokens.filter (isLeaf g)).map (leaf? g) = (tokens.filterMap (leaf? g)).map some := by
  induction tokens with
  | nil => rfl
  | cons token tokens ih =>
    obtain ⟨htoken, hothers⟩ := List.forall_mem_cons.mp h
    rw [List.filter_cons, ← htoken.isSome_leaf?, List.filterMap_cons]
    cases hnode : token.leaf? g with
    | none => exact ih hothers
    | some node =>
      rw [Option.isSome_some, if_pos rfl, List.map_cons, List.map_cons, hnode, ih hothers]

theorem filterMap_reference? : (tokens.filterMap (leaf? g)).filterMap Node.reference? =
    (tokens.filter (isReference g)).map Token.text := by
  rw [List.filterMap_filterMap]
  induction tokens with
  | nil => rfl
  | cons token tokens ih =>
    obtain ⟨htoken, hothers⟩ := List.forall_mem_cons.mp h
    rw [List.filterMap_cons, htoken.bind_reference?, List.filter_cons, ih hothers]
    cases token.isReference g <;> rfl

theorem length_leaves_add :
    (tokens.filterMap (leaf? g)).length + (tokens.filterMap (operation? g)).length =
      tokens.countP fun token ↦ token.kind ∈ [.number, .identifier, .operator] := by
  induction tokens with
  | nil => rfl
  | cons token tokens ih =>
    obtain ⟨htoken, hothers⟩ := List.forall_mem_cons.mp h
    have hone := htoken.length_leaf?_add
    have hmany := ih hothers
    rw [List.countP_cons, ← hmany]
    simp only [decide_eq_true_eq, ← hone, List.filterMap_cons]
    cases token.leaf? g <;> cases token.operation? g <;>
      simp only [Option.toList_none, Option.toList_some, List.length_cons, List.length_nil] <;>
      omega

theorem balance_eq : Formulary.balance g tokens = tokens.countP (isLeaf g) +
    ((tokens.filterMap (operation? g)).map Operation.balance).sum := by
  induction tokens with
  | nil => rfl
  | cons token tokens ih =>
    obtain ⟨htoken, hothers⟩ := List.forall_mem_cons.mp h
    rw [balance_cons, htoken.balance_eq_add, ih hothers, List.countP_cons, List.filterMap_cons]
    cases token.isLeaf g <;> cases token.operation? g <;>
      simp only [Option.toList_none, Option.toList_some, List.map_nil, List.map_cons, List.sum_nil,
        List.sum_cons, if_true, Bool.false_eq_true, if_false] <;>
      omega

end Many

end Token.Usable

namespace Node

theorem length_leaves_add (nodes : List Node) :
    (nodes.filter isLeaf).length + (nodes.filterMap operation?).length = nodes.length := by
  induction nodes with
  | nil => rfl
  | cons node nodes ih =>
    rw [List.length_cons, ← ih, List.filter_cons, List.filterMap_cons, isLeaf]
    cases node.operation? with
    | none => exact Nat.add_right_comm _ 1 _
    | some operation => rfl

theorem filterMap_reference? (nodes : List Node) :
    (nodes.filter isLeaf).filterMap reference? = nodes.filterMap reference? := by
  induction nodes with
  | nil => rfl
  | cons node nodes ih =>
    cases node with
    | literal value => exact ih
    | reference name => exact congrArg (name :: ·) ih
    | operation applied children => exact ih

end Node

/-! ### Whole texts -/

namespace Assembly

variable {g : Grammar} {input : String} {tokens : List Token} {assembly : Assembly}

theorem holds_of_foldlM (h : tokens.foldlM (take g input) .empty = .ok assembly) :
    Holds g tokens assembly :=
  keeps_of_foldlM_eq_ok (P := Holds g) (fun htakes ↦ htakes.holds) [] ⟨rfl, .refl _⟩ h

end Assembly

namespace Grammar

section Compile

variable {g : Grammar} {text : String} {arena : Arena}

/-- The tokens of a text that compiles are usable. -/
theorem usable_of_compile (h : g.compile text = .ok arena) :
    ∀ token ∈ g.tokens text, token.Usable g := by
  obtain ⟨-, assembly, hread, -⟩ := exists_of_compile_eq_ok h
  exact fun token htoken ↦ ((Assembly.accounts_of_foldlM hread).known token htoken).usable

/-- The numbers and references of a text that compiles are those of its tokens. -/
theorem leaves_of_compile (h : g.compile text = .ok arena) :
    arena.leaves = (g.tokens text).filterMap (Token.leaf? g) := by
  obtain ⟨-, assembly, hread, hfinish⟩ := exists_of_compile_eq_ok h
  exact (Assembly.leaves_reduceGroup (Assembly.exists_of_finish_eq_ok hfinish)).trans
    (Assembly.holds_of_foldlM hread).leaves

/-- A formula refers to the names among its tokens that are no functions, in their order. -/
theorem references_of_compile (h : g.compile text = .ok arena) :
    arena.references = ((g.tokens text).filter (Token.isReference g)).map Token.text := by
  rw [Arena.references, ← Node.filterMap_reference?,
    ← Token.Usable.filterMap_reference? (usable_of_compile h), ← leaves_of_compile h]
  rfl

end Compile

/-- The arena of a text that compiles has the nodes that its tokens give. -/
theorem Consistent.inventory {g : Grammar} (hg : g.Consistent) {text : String} {arena : Arena}
    (h : g.compile text = .ok arena) : g.Inventory (g.tokens text) arena := by
  obtain ⟨-, assembly, hread, hfinish⟩ := exists_of_compile_eq_ok h
  have hreduced := Assembly.exists_of_finish_eq_ok hfinish
  have husable := usable_of_compile h
  have hleaves := leaves_of_compile h
  have hoperations : arena.operations.Perm ((g.tokens text).filterMap (Token.operation? g)) := by
    have hsame := Assembly.operations_reduceGroup hreduced
    rw [Assembly.operations, List.filterMap_nil, List.append_nil] at hsame
    exact (List.Perm.of_eq hsame).trans (Assembly.holds_of_foldlM hread).operations
  refine ⟨?_, ?_, ?_, hoperations, ?_, ?_⟩
  · rw [← Token.Usable.length_leaves_add husable, ← hleaves, ← hoperations.length_eq]
    exact (Node.length_leaves_add arena.nodes.toList).symm
  · rw [hleaves, Token.Usable.map_leaf? husable]
  · exact references_of_compile h
  · intro token htoken hkind
    cases husable token htoken with
    | @operator symbol o hsymbol =>
      refine ⟨o.operation, ?_, hg.symbol_eq_of_operator? hsymbol, rfl⟩
      simp only [Token.operation?, hsymbol, Option.map_some]
    | _ => cases hkind
  · intro token htoken hkind f hf
    refine ⟨f.operation, ?_, ?_, rfl⟩
    · simp only [Token.operation?, hkind, hf, Option.map_some]
    · rw [NamedFunction.operation, (hg.function_name _ _ hf).1]

/-- Assumes: a reachable grammar. If a text compiles, its arena has the nodes that its tokens give.
If it does not compile because of operands that are left over, their number is that of the numbers
and references, with what each operator and function adds to it, and it is not one. -/
theorem Reachable.inventory_of_compile {g : Grammar} (hg : g.Reachable) (text : String) :
    (∀ arena, g.compile text = .ok arena → g.Inventory (g.tokens text) arena) ∧
    (∀ count, g.compile text = .error (.leftoverOperands count) →
      (count : Int) = (g.tokens text).countP (Token.isLeaf g) +
        (((g.tokens text).filterMap (Token.operation? g)).map fun operation ↦
          1 - (operation.arity : Int)).sum ∧
      count ≠ 1) := by
  refine ⟨fun arena h ↦ hg.consistent.inventory h, fun count h ↦ ?_⟩
  cases refusal_of_compile_eq_error h with
  | token htokens hread hrefuses =>
    cases hrefuses with
    | missingOperands h => cases h
  | missingOperands h => cases h
  | @leftoverOperands assembly forest hread hreduced hcount =>
    refine ⟨?_, hcount⟩
    have haccounts := Assembly.accounts_of_foldlM hread
    have hbalance : (forest.roots.length : Int) = balance g (g.tokens text) := by
      rw [← haccounts.balance, ← Assembly.balance_reduceGroup hreduced]
      exact (Int.add_zero _).symm
    rw [hbalance, Token.Usable.balance_eq fun token htoken ↦ (haccounts.known token htoken).usable]
    rfl

/-- In `x 2 - atan2 y pi +` the last operator is carried out first, then the functions, and then the
first operator. Without the last operator, two trees are left over. -/
theorem inventory_of_compile_waiting : standard.Reachable ∧
    (∃ arena, standard.compile "x 2 - atan2 y pi +" = .ok arena ∧
      standard.Inventory (standard.tokens "x 2 - atan2 y pi +") arena) ∧
    standard.compile "x 2 - atan2 y pi" = .error (.leftoverOperands 2) ∧
    ((2 : Nat) : Int) = (standard.tokens "x 2 - atan2 y pi").countP (Token.isLeaf standard) +
      (((standard.tokens "x 2 - atan2 y pi").filterMap (Token.operation? standard)).map
        fun operation ↦ 1 - (operation.arity : Int)).sum := by
  obtain ⟨arena, harena⟩ := exists_of_isOk
    (show (standard.compile "x 2 - atan2 y pi +").isOk = true by decide +kernel)
  have hleftover : standard.compile "x 2 - atan2 y pi" = .error (.leftoverOperands 2) :=
    eq_error_of_failure? (by decide +kernel)
  exact ⟨.standard, ⟨arena, harena, (Reachable.inventory_of_compile .standard _).1 arena harena⟩,
    hleftover, ((Reachable.inventory_of_compile .standard _).2 2 hleftover).1⟩

end Grammar

end Formulary
