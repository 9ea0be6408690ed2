import Formulary.Proofs.CycleReport
import Formulary.Proofs.Dependencies

/-!
# A reported cycle is a path of references

Each name on the stack of an evaluation is a reference of the expression that is being evaluated
below it, and is bound to the expression that is being evaluated above it (`Context.Trail`). A chain
is a piece of this path, followed by the reference that would enter the piece once more.

Main statement: what an evaluation reports as a cycle is one (`Context.IsCycle`). Every name of the
chain is bound and refers to the next, the last one to a copy of the first one's expression, no
expression occurs twice before that, and the evaluated expression reaches the chain.
-/

set_option autoImplicit false
set_option relaxedAutoImplicit false

namespace Formulary

namespace Context

variable {context : Context} {start current : Expression} {frames : List Frame}

/-! ### The path that the stack shows -/

/-- Whether names lead from one expression to another when they are resolved one after the other,
where each is a reference of the expression that the one before it is bound to. Their frames are
listed from the last to the first. -/
inductive Trail (context : Context) (start : Expression) : List Frame → Expression → Prop
  | start : Trail context start [] start
  | resolve {frames : List Frame} {current x : Expression} {name : String}
    (h : Trail context start frames current) (hname : name ∈ current.arena.references)
    (hfind : context.find? name = some x) : Trail context start (⟨name, x.id⟩ :: frames) x

/-- What the expression at the end of a trail refers to is reached. -/
theorem Trail.reaches (h : context.Trail start frames current) {name : String}
    (hname : name ∈ current.arena.references) : context.Reaches start name := by
  induction h generalizing name with
  | start => exact .reference hname
  | resolve _ hbefore hfind ih => exact .through (ih hbefore) ⟨_, hfind, hname⟩

theorem Trail.reaches_of_mem (h : context.Trail start frames current) {frame : Frame}
    (hframe : frame ∈ frames) : context.Reaches start frame.name := by
  induction h with
  | start => cases hframe
  | resolve h hname _ ih =>
    rcases List.mem_cons.mp hframe with rfl | hbefore
    · exact h.reaches hname
    · exact ih hbefore

/-- Each name of a trail refers to the next, and the last to what its expression refers to. -/
theorem Trail.isChain (h : context.Trail start frames current) {name : String}
    (hname : name ∈ current.arena.references) :
    (frames.reverse.map Frame.name ++ [name]).IsChain context.Refers := by
  have hbackwards : (name :: frames.map Frame.name).IsChain (flip context.Refers) := by
    induction h generalizing name with
    | start => exact .singleton name
    | resolve _ hbefore hfind ih => exact .cons_cons ⟨_, hfind, hname⟩ (ih hbefore)
  have hforwards := List.isChain_reverse.mpr hbackwards
  rwa [List.reverse_cons, ← List.map_reverse] at hforwards

/-! ### Cycles -/

/-- Whether the chain is a cycle of references, to which the references of an expression lead. Its
last name is bound to an expression with the identity of the one that its first name is bound to; up
to there, no name and no identity occurs twice. -/
structure IsCycle (context : Context) (start : Expression) (chain : List String) : Prop where
  two_le_length : 2 ≤ chain.length
  bound : ∀ name ∈ chain, ∃ x, context.find? name = some x
  refers : chain.IsChain context.Refers
  closed : ∀ first ∈ chain.head?, ∀ last ∈ chain.getLast?,
    (context.find? first).map Expression.id = (context.find? last).map Expression.id
  nodup : chain.dropLast.Nodup
  distinct : (chain.dropLast.map fun name ↦ (context.find? name).map Expression.id).Nodup
  reaches : ∀ first ∈ chain.head?, context.Reaches start first

/-- Assumes: the frames of a stack are a trail, and they name what the context binds. A reference at
the end of the trail that closes a cycle closes one of references. -/
theorem Trail.isCycle {stack : CallStack} (h : context.Trail start stack.frames current)
    (hnested : Nested { context with callStack := stack }) {name : String}
    (hname : name ∈ current.arena.references) {x : Expression}
    (hfind : context.find? name = some x) {chain : List String}
    (hcycle : stack.cycle? x.id name = some chain) : context.IsCycle start chain := by
  obtain ⟨outer, frame, inner, hframes, hid, rfl⟩ := CallStack.exists_of_cycle?_eq_some hcycle
  obtain ⟨hbound, hnames, hexpressions⟩ := hnested.of_split hframes
  have hidentity : ∀ other ∈ frame :: inner,
      (context.find? other.name).map Expression.id = some other.expression := by
    intro other hother
    obtain ⟨y, hy, hyid⟩ := hbound other hother
    have hy : context.find? other.name = some y := hy
    rw [hy, Option.map_some, hyid]
  have hdropLast : (frame.name :: (inner.map Frame.name ++ [name])).dropLast =
      (frame :: inner).map Frame.name := by
    rw [← List.cons_append, List.dropLast_concat, List.map_cons]
  exact {
    two_le_length := by simp
    bound := by
      intro other hother
      rw [← List.cons_append, ← List.map_cons, List.mem_append, List.mem_singleton] at hother
      rcases hother with hpath | rfl
      · obtain ⟨repeated, hrepeated, rfl⟩ := List.mem_map.mp hpath
        obtain ⟨y, hy, -⟩ := hbound repeated hrepeated
        exact ⟨y, hy⟩
      · exact ⟨x, hfind⟩
    refers := by
      have hall := h.isChain hname
      rw [hframes, List.map_append, List.append_assoc] at hall
      exact hall.right_of_append
    closed := by
      intro first hfirst last hlast
      rw [← List.cons_append, List.getLast?_concat] at hlast
      cases hfirst
      cases hlast
      rw [hidentity frame List.mem_cons_self, hfind, Option.map_some, hid]
    nodup := by
      rw [hdropLast]
      exact hnames
    distinct := by
      have hsame : (frame :: inner).map ((fun name ↦ (context.find? name).map Expression.id) ∘
          Frame.name) = ((frame :: inner).map Frame.expression).map some := by
        rw [List.map_map]
        exact List.map_congr_left hidentity
      rw [hdropLast, List.map_map, hsame]
      exact hexpressions.map (Option.some_injective ExpressionId)
    reaches := by
      intro first hfirst
      cases hfirst
      refine h.reaches_of_mem (List.mem_reverse.mp ?_)
      rw [hframes]
      exact List.mem_append_right outer List.mem_cons_self }

end Context

/-- Assumes: the stack is a trail from one expression to another, and the nesting that is left is
enough for the names that are not on it. What the evaluation of the other expression reports as a
cycle is one. -/
theorem EvalM.raises_isCycle {context : Context} {start current : Expression} {stack : CallStack}
    (hnested : Context.Nested { context with callStack := stack })
    (htrail : context.Trail start stack.frames current) {nesting : Nat}
    (hroom : context.size < nesting + stack.depth) :
    Raises (fun error ↦ ∀ chain, error = .cyclicDependency chain → context.IsCycle start chain)
      { context with callStack := stack } Float (evaluate nesting current)
      (evaluate nesting current) := by
  induction nesting generalizing stack current with
  | zero =>
    have hdepth : stack.depth ≤ context.size := hnested.depth_le_size
    omega
  | succ nesting ih =>
    refine Arena.evaluate_related (compatible_raises ?_) fun name hname ↦ raises_resolve ?_ ?_ ?_
    · intro arity count chain h
      cases h
    · intro _ chain h
      cases h
    · intro x reported hfind hcycle chain h
      cases h
      exact htrail.isCycle hnested hname hfind hcycle
    · intro x hfind hcycle
      have hdeeper : context.size < nesting + (stack.depth + 1) := by omega
      exact ih (hnested.enter hfind hcycle) (htrail.resolve hname hfind) hdeeper

/-- Assumes: no name is being resolved, and an evaluation reports a cycle. It is one, whatever
expressions share an identity. -/
theorem Expression.isCycle_of_eval_cyclic {context : Context} (hstack : context.callStack = .empty)
    {expression : Expression} {chain : List String}
    (hcycle : (expression.eval context).result = .error (.cyclicDependency chain)) :
    context.IsCycle expression chain := by
  have hempty : { context with callStack := CallStack.empty } = context := by rw [← hstack]
  have hnested : Context.Nested { context with callStack := CallStack.empty } :=
    Context.nested_of_empty rfl
  have hroom : context.size < context.size + 1 + CallStack.empty.depth := by omega
  have htrail : context.Trail expression CallStack.empty.frames expression := .start
  have hraises := EvalM.raises_isCycle hnested htrail hroom
  rw [hempty] at hraises
  obtain ⟨result, more, houtcome, hcycles⟩ := hraises #[]
  have hresult : (expression.eval context).result = result := congrArg Prod.fst houtcome
  exact hcycles _ (hresult.symm.trans hcycle) chain rfl

namespace Context

/-- Names that lead into a cycle: `entry` refers to `x`, `x` to `y`, and `y` to `z`, which is bound
to a copy of the expression of `x`. -/
def copied : Context :=
  (((empty.add "entry" (reference ⟨2⟩ "x")).add "x" (reference ⟨0⟩ "y")).add "y"
    (reference ⟨1⟩ "z")).add "z" (reference ⟨0⟩ "y")

/-- The cycle begins behind the name that leads to it, and it ends with another name than the one
that it begins with. -/
theorem isCycle_of_eval_cyclic_copied : copied.callStack = .empty ∧
    ((reference ⟨3⟩ "entry").eval copied).result = .error (.cyclicDependency ["x", "y", "z"]) ∧
    copied.IsCycle (reference ⟨3⟩ "entry") ["x", "y", "z"] := by
  have hcycle : ((reference ⟨3⟩ "entry").eval copied).result =
      .error (.cyclicDependency ["x", "y", "z"]) := rfl
  exact ⟨rfl, hcycle, Expression.isCycle_of_eval_cyclic rfl hcycle⟩

end Context

end Formulary
