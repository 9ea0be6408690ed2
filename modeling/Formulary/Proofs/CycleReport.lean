import Formulary.Proofs.Assembly
import Formulary.Compiler
import Formulary.Proofs.Nesting
import Mathlib.Data.List.Nodup

/-!
# What a reported cycle says

The search for cycles compares expressions, and its report lists names. A name can be bound to a
copy of an expression that another name is bound to, for the sake of an assignment or because both
were compiled from one text. Then the chain of a cycle need not end with the name that it begins
with (`Context.ends_differ_of_shared`).

Main statement: in every context that can be made, the first and the last name of a chain are names
of one expression. They are the same name, or no name is in the chain twice; where no two names
share an expression, they are the same.

The errors of an evaluation are followed through its visits (`EvalM.Raises`). A cycle is reported
when a name is resolved, and the stack is then as `Context.Nested` says.
-/

set_option autoImplicit false
set_option relaxedAutoImplicit false

namespace Formulary

/-! ### The errors of an action -/

namespace EvalM

/-- Whether an action that begins with the context leaves it as it was, and fails only with errors
that have a property. -/
def Raises (P : EvalError → Prop) (context : Context) (α : Type) (x _y : EvalM α) : Prop :=
  ∀ lookups, ∃ result more, outcome x ⟨context, lookups⟩ = (result, ⟨context, more⟩) ∧
    ∀ error, result = .error error → P error

section Raises

variable {P : EvalError → Prop} {context : Context}

theorem compatible_raises (hbadTree : ∀ arity count, P (.badTree arity count)) :
    Compatible (Raises P context) where
  pure := fun a lookups ↦ ⟨.ok a, lookups, outcome_pure a _, fun _ h ↦ by cases h⟩
  badTree := by
    intro α arity count lookups
    refine ⟨.error (.badTree arity count), lookups, outcome_throw _ _, fun error h ↦ ?_⟩
    cases h
    exact hbadTree arity count
  bind := by
    intro α β x y f g hfirst hrest lookups
    obtain ⟨result, more, houtcome, herror⟩ := hfirst lookups
    cases result with
    | ok a =>
      rw [outcome_bind_of_ok houtcome]
      exact hrest a more
    | error error =>
      refine ⟨.error error, more, outcome_bind_of_error houtcome f, fun other h ↦ ?_⟩
      cases h
      exact herror error rfl

/-- A name that is resolved is not found, closes a cycle, or fails as its expression does. -/
theorem raises_resolve {evaluate : Expression → EvalM Float} {name : String}
    (hunbound : context.find? name = none → P (.notFound name))
    (hcycle : ∀ x chain, context.find? name = some x →
      context.callStack.cycle? x.id name = some chain → P (.cyclicDependency chain))
    (hfree : ∀ x, context.find? name = some x → context.callStack.cycle? x.id name = none →
      Raises P (context.enter ⟨name, x.id⟩) Float (evaluate x) (evaluate x)) :
    Raises P context Float (resolve evaluate name) (resolve evaluate name) := by
  intro lookups
  cases hfind : context.find? name with
  | none =>
    refine ⟨_, _, outcome_resolve_of_unbound hfind lookups, fun error h ↦ ?_⟩
    cases h
    exact hunbound hfind
  | some x =>
    cases hchain : context.callStack.cycle? x.id name with
    | some chain =>
      refine ⟨_, _, outcome_resolve_of_cycle hfind hchain lookups, fun error h ↦ ?_⟩
      cases h
      exact hcycle x chain hfind hchain
    | none =>
      obtain ⟨result, more, houtcome, herror⟩ :=
        hfree x hfind hchain (lookups.push ⟨name, context.callStack⟩)
      refine ⟨result, more, ?_, herror⟩
      rw [outcome_resolve_of_free hfind hchain, houtcome]
      rfl

end Raises

end EvalM

/-! ### The ends of a chain -/

/-- A cycle is cut out of the stack from the outermost frame of the expression on. -/
theorem CallStack.exists_of_cycle?_eq_some {stack : CallStack} {id : ExpressionId} {name : String}
    {chain : List String} (h : stack.cycle? id name = some chain) :
    ∃ outer frame inner, stack.frames.reverse = outer ++ frame :: inner ∧
      frame.expression = id ∧ chain = frame.name :: (inner.map Frame.name ++ [name]) := by
  rw [cycle?] at h
  have hsplit := List.takeWhile_append_dropWhile (p := fun frame : Frame ↦ frame.expression ≠ id)
    (l := stack.frames.reverse)
  cases hrest : stack.frames.reverse.dropWhile (·.expression ≠ id) with
  | nil =>
    rw [hrest] at h
    cases h
  | cons frame inner =>
    rw [hrest] at h hsplit
    have hhead := List.head?_dropWhile_not (fun frame : Frame ↦ frame.expression ≠ id)
      stack.frames.reverse
    rw [hrest] at hhead
    have hid : frame.expression = id := by simpa using hhead
    exact ⟨_, frame, inner, hsplit.symm, hid, (Option.some.inj h).symm⟩

namespace Context

variable {context : Context}

/-- Whether the chain ends with the expression that it begins with, and repeats no name unless it
ends with the name that it begins with. -/
def Closes (context : Context) (chain : List String) : Prop :=
  ∃ first between last x y, chain = first :: (between ++ [last]) ∧
    context.find? first = some x ∧ context.find? last = some y ∧ x.id = y.id ∧
    (first = last ∨ chain.Nodup)

/-- Assumes: frames from some place of the stack inwards. They name what the context binds, and
neither a name nor an expression is among them twice. -/
theorem Nested.of_split (h : context.Nested) {outer inner : List Frame}
    (hframes : context.callStack.frames.reverse = outer ++ inner) :
    (∀ frame ∈ inner, ∃ x, context.find? frame.name = some x ∧ x.id = frame.expression) ∧
      (inner.map Frame.name).Nodup ∧ (inner.map Frame.expression).Nodup := by
  refine ⟨fun frame hframe ↦ h.bound frame (List.mem_reverse.mp ?_), ?_, ?_⟩
  · rw [hframes]
    exact List.mem_append_right outer hframe
  · have hall := List.nodup_reverse.mpr h.nodup_names
    rw [← List.map_reverse, hframes, List.map_append] at hall
    exact hall.of_append_right
  · have hall := List.nodup_reverse.mpr (List.pairwise_map.mpr h.distinct)
    rw [← List.map_reverse, hframes, List.map_append] at hall
    exact hall.of_append_right

/-- A chain that is cut out of the stack of an evaluation ends with the expression that it begins
with. -/
theorem Nested.closes (h : context.Nested) {name : String} {x : Expression}
    (hfind : context.find? name = some x) {chain : List String}
    (hcycle : context.callStack.cycle? x.id name = some chain) : context.Closes chain := by
  obtain ⟨outer, frame, inner, hframes, hid, rfl⟩ := CallStack.exists_of_cycle?_eq_some hcycle
  obtain ⟨hbound, hnames, hexpressions⟩ := h.of_split hframes
  obtain ⟨y, hy, hyid⟩ := hbound frame List.mem_cons_self
  refine ⟨frame.name, inner.map Frame.name, name, y, x, rfl, hy, hfind, hyid.trans hid, ?_⟩
  by_cases hsame : frame.name = name
  · exact Or.inl hsame
  · refine Or.inr (List.nodup_append.mpr ⟨hnames, List.nodup_singleton name, ?_⟩)
    rintro other hother _ hname rfl
    cases List.mem_singleton.mp hname
    rcases List.mem_cons.mp hother with hfirst | hinner
    · exact hsame hfirst.symm
    · -- A frame further in has the name, so it has the expression of the first frame.
      obtain ⟨repeated, hrepeated, rfl⟩ := List.mem_map.mp hinner
      obtain ⟨z, hz, hzid⟩ := hbound repeated (List.mem_cons_of_mem frame hrepeated)
      cases hfind.symm.trans hz
      have hexpression : frame.expression = repeated.expression := hid.trans hzid
      rw [List.map_cons, List.nodup_cons, hexpression] at hexpressions
      exact hexpressions.1 (List.mem_map_of_mem hrepeated)

end Context

/-- Assumes: the nesting that is left is enough for the names that are not on the stack. Every cycle
that an evaluation reports ends with the expression that it begins with. -/
theorem EvalM.raises_closes {context : Context} (hnested : context.Nested) {nesting : Nat}
    (hroom : context.size < nesting + context.callStack.depth) (x : Expression) :
    Raises (fun error ↦ ∀ chain, error = .cyclicDependency chain → context.Closes chain) context
      Float (evaluate nesting x) (evaluate nesting x) := by
  induction nesting generalizing context x with
  | zero =>
    have hdepth := hnested.depth_le_size
    omega
  | succ nesting ih =>
    refine Arena.evaluate_related (compatible_raises ?_) fun name _ ↦ raises_resolve ?_ ?_ ?_
    · intro arity count chain h
      cases h
    · intro _ chain h
      cases h
    · intro y reported hfind hcycle chain h
      cases h
      exact hnested.closes hfind hcycle
    · intro y hfind hcycle
      have hdeeper : context.size < nesting + (context.callStack.depth + 1) := by omega
      exact ih (hnested.enter hfind hcycle) hdeeper y

/-! ### Contexts that can be made -/

namespace Context

/-- The contexts that bindings make: of any expression, of a number, of what a compiler makes of a
text or has kept for it. A name can be unbound again. -/
inductive Reachable : Context → Prop
  | empty : Reachable .empty
  | add {context : Context} (h : Reachable context) (name : String) (expression : Expression) :
    Reachable (context.add name expression)
  | setValue {context : Context} (h : Reachable context) (supply : Supply) (name : String)
    (value : Float) : Reachable (context.setValue supply name value).1
  | compileAndAdd {context next : Context} (h : Reachable context) {compiler : Compiler}
    {supply : Supply} {name text : String}
    (hnext : (compiler.compileAndAdd supply context name text).1 = .ok next) : Reachable next
  | delete {context : Context} (h : Reachable context) (name : String) :
    Reachable (context.delete name)

/-- A name that is bound to a text is bound to what the text compiles to. -/
theorem exists_of_compileAndAdd_eq_ok {context next : Context} {compiler : Compiler}
    {supply : Supply} {name text : String}
    (h : (compiler.compileAndAdd supply context name text).1 = .ok next) :
    ∃ expression, (compiler.compile supply text).1 = .ok expression ∧
      next = context.add name expression := by
  rw [Compiler.compileAndAdd] at h
  cases hresult : (compiler.compile supply text).1 with
  | error error =>
    simp only [hresult, Except.map] at h
    cases h
  | ok expression =>
    simp only [hresult, Except.map] at h
    exact ⟨expression, rfl, (Except.ok.inj h).symm⟩

/-- Bindings put nothing on the stack. -/
theorem Reachable.callStack_eq_empty {context : Context} (h : context.Reachable) :
    context.callStack = .empty := by
  induction h with
  | empty => rfl
  | add _ _ _ ih => exact ih
  | setValue _ _ _ _ ih => exact ih
  | compileAndAdd _ hnext ih =>
    obtain ⟨expression, -, rfl⟩ := exists_of_compileAndAdd_eq_ok hnext
    exact ih
  | delete _ _ ih => exact ih

/-- Whether no two names are bound to copies of one expression. -/
def Unshared (context : Context) : Prop :=
  ∀ ⦃first second : String⦄ ⦃x y : Expression⦄, context.find? first = some x →
    context.find? second = some y → x.id = y.id → first = second

end Context

/-- Assumes: a context that can be made, and a cycle that an evaluation in it reports. The first and
the last name of the chain are bound to one expression. They are the same name or no name is in the
chain twice, and they are the same if no two names share an expression. -/
theorem Expression.ends_of_eval_cyclic {context : Context} (h : context.Reachable)
    {expression : Expression} {chain : List String}
    (hcycle : (expression.eval context).result = .error (.cyclicDependency chain)) :
    context.Closes chain ∧ (context.Unshared → chain.head? = chain.getLast?) := by
  have hstack := h.callStack_eq_empty
  have hroom : context.size < context.size + 1 + context.callStack.depth := by omega
  obtain ⟨result, more, houtcome, hcloses⟩ :=
    EvalM.raises_closes (Context.nested_of_empty hstack) hroom expression #[]
  have hresult : (expression.eval context).result = result := congrArg Prod.fst houtcome
  have hchain := hcloses _ (hresult.symm.trans hcycle) chain rfl
  refine ⟨hchain, fun hunshared ↦ ?_⟩
  obtain ⟨first, between, last, x, y, rfl, hx, hy, hid, -⟩ := hchain
  rw [hunshared hx hy hid, List.head?_cons, ← List.cons_append, List.getLast?_append]
  rfl

namespace Context

/-! Two names that refer to each other are bound to two expressions, and the cycle ends with the
name that it begins with. -/

/-- Two names that refer to each other. -/
def pair : Context :=
  (empty.add "x" ⟨⟨0⟩, ⟨#[.reference "y"], 0⟩⟩).add "y" ⟨⟨1⟩, ⟨#[.reference "x"], 0⟩⟩

theorem unshared_pair : pair.Unshared := by
  intro first second x y hx hy hid
  simp only [pair, find?_add, find?_empty] at hx hy
  grind

theorem ends_of_eval_cyclic_pair : pair.Reachable ∧ pair.Unshared ∧
    ((Expression.mk ⟨2⟩ ⟨#[.reference "x"], 0⟩).eval pair).result =
      .error (.cyclicDependency ["x", "y", "x"]) ∧ pair.Closes ["x", "y", "x"] := by
  have hpair : pair.Reachable := .add (.add .empty _ _) _ _
  have hcycle : ((Expression.mk ⟨2⟩ ⟨#[.reference "x"], 0⟩).eval pair).result =
      .error (.cyclicDependency ["x", "y", "x"]) := rfl
  exact ⟨hpair, unshared_pair, hcycle, (Expression.ends_of_eval_cyclic hpair hcycle).1⟩

/-! A text that is compiled twice under a cache is bound to two names, the second of which it refers
to. The cycle then begins with the first name and ends with the second. -/

/-- The name `y` compiled for `x` and for `y`, and the name `x` compiled as an expression. -/
def shared : Except CompileError (Context × Expression) := do
  let first := Compiler.standard.compileAndAdd .full .empty "x" "y"
  let second := first.2.1.compileAndAdd first.2.2 (← first.1) "y" "y"
  return (← second.1, ← (second.2.1.compile second.2.2 "x").1)

/-- The chain of a cycle. -/
def chain? : Except EvalError Float → Option (List String)
  | .error (.cyclicDependency chain) => some chain
  | _ => none

theorem eq_of_chain?_eq_some {result : Except EvalError Float} {chain : List String}
    (h : chain? result = some chain) : result = .error (.cyclicDependency chain) := by
  unfold chain? at h
  split at h
  · rw [Option.some.inj h]
  · cases h

theorem ends_differ_of_shared : ∃ context expression chain, context.Reachable ∧
    (Expression.eval expression context).result = .error (.cyclicDependency chain) ∧
    chain.head? ≠ chain.getLast? := by
  have hchain : (shared.toOption.bind fun made ↦ chain? (made.2.eval made.1).result) =
      some ["x", "y"] := by decide +kernel
  cases hshared : shared with
  | error error =>
    rw [hshared] at hchain
    cases hchain
  | ok made =>
    rw [hshared] at hchain
    obtain ⟨first, hfirst, hrest⟩ := exists_of_bind_eq_ok hshared
    obtain ⟨second, hsecond, hlast⟩ := exists_of_bind_eq_ok hrest
    obtain ⟨expression, -, hmade⟩ := exists_of_bind_eq_ok hlast
    cases hmade
    exact ⟨second, expression, ["x", "y"], .compileAndAdd (.compileAndAdd .empty hfirst) hsecond,
      eq_of_chain?_eq_some hchain, by decide⟩

end Context

end Formulary
