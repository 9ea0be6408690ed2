import Formulary.Proofs.CyclePath
import Mathlib.Computability.StateTransition
import Mathlib.Data.Finset.Card

/-!
# An evaluation step by step

An evaluation can be carried out in steps, without a bound for the nesting. In each step one node of
an arena is visited, or a visit ends with a result (`Stage.next?`). Where a node is a name, its
frame is put on the stack and the visit of its expression begins; the visit that met the name waits
until the other one has ended, and then the frame is taken off the stack.

Main statement: from where no name is being resolved, the steps of every evaluation come to an end,
and there they have the result, the context and the lookups of the evaluation. At each stage on the
way, as many visits wait as there are frames on the stack, each frame has the identity of the
expression that is bound to its name, and these identities are distinct (`Stage.Sound`). So there
are never more frames than identities that the context binds (`Context.identities`).

The steps end because every visit that begins inside another one takes an identity that the others
have not: the identities that are left bound the nesting, and each visit has finitely many nodes.
-/

set_option autoImplicit false
set_option relaxedAutoImplicit false

namespace Formulary

/-! ### Stages -/

/-- A visit of an arena that is under way: the values of the nodes that are behind, and the nodes
that are ahead. -/
structure Visit where
  values : Array Float
  ahead : List Node

/-- What an evaluation goes on with: a visit, or the result that a visit has ended with. -/
inductive Phase
  | visiting (visit : Visit)
  | ending (result : Except EvalError Float)

/-- An evaluation between two of its steps: what it goes on with, the visits that wait for the value
of a name, the innermost first, and the progress that it has made. -/
structure Stage where
  phase : Phase
  waiting : List Visit
  progress : Progress

/-- The visit of an expression at its beginning. -/
def Visit.begin (expression : Expression) : Visit :=
  ⟨#[], expression.arena.nodes.toList.take (expression.arena.root + 1)⟩

/-- Goes on with a visit when its next node has been given a result. An error ends the visit. -/
def Visit.resume (visit : Visit) : Except EvalError Float → Phase
  | .ok value => .visiting { visit with values := visit.values.push value }
  | .error error => .ending (.error error)

/-- The result of an operation on the values of earlier nodes. -/
def Operation.result (operation : Operation) (values : Array Float) (children : List Nat) :
    Except EvalError Float :=
  (operation.operands? values children).elim (.error (.badTree operation.arity children.length))
    fun operands ↦ .ok (operation.reducer operands)

namespace Stage

/-- Looks a name up for a visit. It ends with an error if the name is not bound or closes a cycle;
otherwise it waits while the expression that is found is visited with the name on the stack. -/
def lookUp (name : String) (visit : Visit) (waiting : List Visit) (progress : Progress) : Stage :=
  let context := progress.context
  let lookups := progress.lookups.push ⟨name, context.callStack⟩
  match context.get name with
  | .error error => ⟨.ending (.error error), waiting, ⟨context, lookups⟩⟩
  | .ok x =>
    match context.callStack.cycle? x.id name with
    | some chain => ⟨.ending (.error (.cyclicDependency chain)), waiting, ⟨context, lookups⟩⟩
    | none => ⟨.visiting (.begin x), visit :: waiting, ⟨context.enter ⟨name, x.id⟩, lookups⟩⟩

/-- The next stage, unless the visit that the evaluation began with has ended. -/
def next? : Stage → Option Stage
  | ⟨.ending _, [], _⟩ => none
  | ⟨.ending result, visit :: waiting, progress⟩ =>
    some ⟨visit.resume result, waiting, { progress with context := progress.context.leave }⟩
  | ⟨.visiting ⟨values, []⟩, waiting, progress⟩ =>
    some ⟨.ending (values.back?.elim (.error (.badTree 1 0)) .ok), waiting, progress⟩
  | ⟨.visiting ⟨values, .literal value :: ahead⟩, waiting, progress⟩ =>
    some ⟨Visit.resume ⟨values, ahead⟩ (.ok value), waiting, progress⟩
  | ⟨.visiting ⟨values, .operation applied children :: ahead⟩, waiting, progress⟩ =>
    some ⟨Visit.resume ⟨values, ahead⟩ (applied.result values children), waiting, progress⟩
  | ⟨.visiting ⟨values, .reference name :: ahead⟩, waiting, progress⟩ =>
    some (lookUp name ⟨values, ahead⟩ waiting progress)

/-- The stage that the evaluation of an expression in a context begins with. -/
def start (expression : Expression) (context : Context) : Stage :=
  ⟨.visiting (.begin expression), [], ⟨context, #[]⟩⟩

/-- The stage that a completed evaluation ends with. -/
def completed (evaluation : Evaluation) : Stage :=
  ⟨.ending evaluation.result, [], ⟨evaluation.context, evaluation.lookups⟩⟩

/-- Whether steps lead from one stage to another. -/
abbrev LeadsTo (first last : Stage) : Prop := StateTransition.Reaches next? first last

theorem LeadsTo.step {first second third : Stage} (h : first.LeadsTo second)
    (hnext : second.next? = some third) : first.LeadsTo third := Relation.ReflTransGen.tail h hnext

section LookUp

variable {context : Context} {name : String} {x : Expression} (visit : Visit)
  (waiting : List Visit) (lookups : Array Lookup)

theorem lookUp_of_unbound (h : context.find? name = none) :
    lookUp name visit waiting ⟨context, lookups⟩ =
      ⟨.ending (.error (.notFound name)), waiting,
        ⟨context, lookups.push ⟨name, context.callStack⟩⟩⟩ := by
  simp only [lookUp, Context.get, h]

theorem lookUp_of_cycle (h : context.find? name = some x) {chain : List String}
    (hcycle : context.callStack.cycle? x.id name = some chain) :
    lookUp name visit waiting ⟨context, lookups⟩ =
      ⟨.ending (.error (.cyclicDependency chain)), waiting,
        ⟨context, lookups.push ⟨name, context.callStack⟩⟩⟩ := by
  simp only [lookUp, Context.get, h, hcycle]

theorem lookUp_of_free (h : context.find? name = some x)
    (hfree : context.callStack.cycle? x.id name = none) :
    lookUp name visit waiting ⟨context, lookups⟩ =
      ⟨.visiting (.begin x), visit :: waiting,
        ⟨context.enter ⟨name, x.id⟩, lookups.push ⟨name, context.callStack⟩⟩⟩ := by
  simp only [lookUp, Context.get, h, hfree]

end LookUp

end Stage

/-! ### The identities that a context binds -/

namespace Context

variable {context : Context}

/-- The identities of the expressions that the context binds. -/
def identities (context : Context) : Finset ExpressionId :=
  (context.bindings.keys.filterMap fun name ↦ (context.find? name).map Expression.id).toFinset

theorem find?_congr {other : Context} (h : other.bindings = context.bindings) (name : String) :
    other.find? name = context.find? name := by
  rw [find?, find?, h]

theorem identities_congr {other : Context} (h : other.bindings = context.bindings) :
    other.identities = context.identities := by
  simp only [identities, find?, h]

theorem mem_identities_iff {id : ExpressionId} :
    id ∈ context.identities ↔ ∃ name x, context.find? name = some x ∧ x.id = id := by
  simp only [identities, List.mem_toFinset, List.mem_filterMap, Option.map_eq_some_iff]
  constructor
  · rintro ⟨name, -, x, hfind, hid⟩
    exact ⟨name, x, hfind, hid⟩
  · rintro ⟨name, x, hfind, hid⟩
    exact ⟨name, mem_keys_of_find? hfind, x, hfind, hid⟩

/-- There are no more frames on the stack than identities that the context binds. -/
theorem Nested.depth_le_card_identities (h : context.Nested) :
    context.callStack.depth ≤ context.identities.card := by
  have hdistinct : (context.callStack.frames.map Frame.expression).Nodup :=
    List.pairwise_map.mpr h.distinct
  have hsubset : (context.callStack.frames.map Frame.expression).toFinset ⊆ context.identities := by
    intro id hid
    obtain ⟨frame, hframe, rfl⟩ := List.mem_map.mp (List.mem_toFinset.mp hid)
    obtain ⟨x, hx, hsame⟩ := h.bound frame hframe
    exact mem_identities_iff.mpr ⟨frame.name, x, hx, hsame⟩
  calc context.callStack.depth = (context.callStack.frames.map Frame.expression).length :=
        (List.length_map Frame.expression).symm
    _ = (context.callStack.frames.map Frame.expression).toFinset.card :=
        (List.toFinset_card_of_nodup hdistinct).symm
    _ ≤ context.identities.card := Finset.card_le_card hsubset

/-- Taking a frame off the stack keeps what is true of the other frames. -/
theorem Nested.leave (h : context.Nested) : context.leave.Nested where
  bound := fun frame hframe ↦ h.bound frame (List.mem_of_mem_tail hframe)
  distinct := h.distinct.tail

end Context

/-! ### What every stage keeps -/

/-- What holds at every stage of an evaluation in a context: the context binds what it has bound
from the beginning, the stack names what it binds and has no identity twice, and one visit waits for
each frame on the stack. -/
structure Stage.Sound (context : Context) (stage : Stage) : Prop where
  bindings_eq : stage.progress.context.bindings = context.bindings
  nested : stage.progress.context.Nested
  depth_eq : stage.progress.context.callStack.depth = stage.waiting.length

namespace Stage

variable {context : Context} {stage behind : Stage}

theorem sound_start (hstack : context.callStack = .empty) (expression : Expression) :
    (start expression context).Sound context where
  bindings_eq := rfl
  nested := Context.nested_of_empty hstack
  depth_eq := congrArg CallStack.depth hstack

/-- Where the steps that begin at a stage come to an end, they come to this end from every stage on
the way. -/
theorem leadsTo_end {first last : Stage} (hends : first.LeadsTo last)
    (hlast : last.next? = none) (hstage : first.LeadsTo stage) : stage.LeadsTo last := by
  have heval : last ∈ StateTransition.eval next? first :=
    StateTransition.mem_eval.mpr ⟨hends, hlast⟩
  rw [StateTransition.reaches_eval hstage] at heval
  exact (StateTransition.mem_eval.mp heval).1

/-- Looking a name up keeps the stage sound: where the visit of another expression begins, the name
is bound to it and it is not on the stack. -/
theorem Sound.lookUp {phase : Phase} {waiting : List Visit} {progress : Progress}
    (h : Sound context ⟨phase, waiting, progress⟩) (name : String) (visit : Visit) :
    (lookUp name visit waiting progress).Sound context := by
  obtain ⟨here, lookups⟩ := progress
  cases hfind : here.find? name with
  | none =>
    rw [lookUp_of_unbound visit waiting lookups hfind]
    exact ⟨h.bindings_eq, h.nested, h.depth_eq⟩
  | some x =>
    cases hcycle : here.callStack.cycle? x.id name with
    | some chain =>
      rw [lookUp_of_cycle visit waiting lookups hfind hcycle]
      exact ⟨h.bindings_eq, h.nested, h.depth_eq⟩
    | none =>
      rw [lookUp_of_free visit waiting lookups hfind hcycle]
      exact ⟨h.bindings_eq, h.nested.enter hfind hcycle, congrArg (· + 1) h.depth_eq⟩

/-- A step keeps the stage sound. -/
theorem Sound.next (h : stage.Sound context) (hnext : stage.next? = some behind) :
    behind.Sound context := by
  obtain ⟨phase, waiting, progress⟩ := stage
  cases phase with
  | ending result =>
    cases waiting with
    | nil => cases hnext
    | cons visit waiting =>
      cases hnext
      have hdepth : progress.context.callStack.depth = waiting.length + 1 := h.depth_eq
      refine ⟨h.bindings_eq, h.nested.leave, ?_⟩
      show progress.context.callStack.frames.tail.length = waiting.length
      rw [List.length_tail]
      exact Nat.sub_eq_of_eq_add hdepth
  | visiting visit =>
    obtain ⟨values, ahead⟩ := visit
    cases ahead with
    | nil =>
      cases hnext
      exact ⟨h.bindings_eq, h.nested, h.depth_eq⟩
    | cons node ahead =>
      cases node with
      | literal value =>
        cases hnext
        exact ⟨h.bindings_eq, h.nested, h.depth_eq⟩
      | operation applied children =>
        cases hnext
        exact ⟨h.bindings_eq, h.nested, h.depth_eq⟩
      | reference name =>
        cases hnext
        exact h.lookUp name ⟨values, ahead⟩

/-- So do any number of steps. -/
theorem Sound.leadsTo (h : stage.Sound context) (hleads : stage.LeadsTo behind) :
    behind.Sound context := by
  induction hleads with
  | refl => exact h
  | tail _ hnext ih => exact ih.next hnext

/-! ### The steps carry out the evaluation -/

/-- Whether steps lead from one phase to what follows the result of an action, with the outcome of
the action, which leaves the context as it was. The visits that wait are of no matter. -/
def CarriesOut (context : Context) (action : EvalM Float) (before : Phase)
    (after : Except EvalError Float → Phase) : Prop :=
  ∀ waiting lookups, ∃ result more,
    action.outcome ⟨context, lookups⟩ = (result, ⟨context, more⟩) ∧
    LeadsTo ⟨before, waiting, ⟨context, lookups⟩⟩ ⟨after result, waiting, ⟨context, more⟩⟩

variable {resolve : String → EvalM Float} {values : Array Float}

/-- Assumes: the expression of a name that closes no cycle is evaluated by steps. The name is
resolved by steps. -/
theorem carriesOut_resolve {evaluate : Expression → EvalM Float} {name : String}
    (h : ∀ x, context.find? name = some x → context.callStack.cycle? x.id name = none →
      CarriesOut (context.enter ⟨name, x.id⟩) (evaluate x) (.visiting (.begin x)) .ending)
    (values : Array Float) (ahead : List Node) :
    CarriesOut context (EvalM.resolve evaluate name) (.visiting ⟨values, .reference name :: ahead⟩)
      (Visit.resume ⟨values, ahead⟩) := by
  intro waiting lookups
  have hstep : next? ⟨.visiting ⟨values, .reference name :: ahead⟩, waiting, ⟨context, lookups⟩⟩ =
      some (lookUp name ⟨values, ahead⟩ waiting ⟨context, lookups⟩) := rfl
  cases hfind : context.find? name with
  | none =>
    rw [lookUp_of_unbound _ _ _ hfind] at hstep
    exact ⟨_, _, EvalM.outcome_resolve_of_unbound hfind lookups, .single hstep⟩
  | some x =>
    cases hcycle : context.callStack.cycle? x.id name with
    | some chain =>
      rw [lookUp_of_cycle _ _ _ hfind hcycle] at hstep
      exact ⟨_, _, EvalM.outcome_resolve_of_cycle hfind hcycle lookups, .single hstep⟩
    | none =>
      rw [lookUp_of_free _ _ _ hfind hcycle] at hstep
      -- The visit that met the name goes on when the inner visit has ended.
      obtain ⟨result, more, houtcome, hinner⟩ :=
        h x hfind hcycle (⟨values, ahead⟩ :: waiting) (lookups.push ⟨name, context.callStack⟩)
      refine ⟨result, more, ?_, .head hstep (hinner.tail rfl)⟩
      rw [EvalM.outcome_resolve_of_free hfind hcycle, houtcome]
      rfl

/-- Assumes: if the node is a name, it is resolved by steps. By steps the node is given its value. -/
theorem carriesOut_value {node : Node} (ahead : List Node)
    (h : ∀ name ∈ node.reference?, CarriesOut context (resolve name)
      (.visiting ⟨values, .reference name :: ahead⟩) (Visit.resume ⟨values, ahead⟩)) :
    CarriesOut context (node.value resolve values) (.visiting ⟨values, node :: ahead⟩)
      (Visit.resume ⟨values, ahead⟩) := by
  cases node with
  | literal value => exact fun _ lookups ↦ ⟨.ok value, lookups, rfl, .single rfl⟩
  | reference name => exact h name rfl
  | operation applied children =>
    refine fun _ lookups ↦ ⟨applied.result values children, lookups, ?_, .single rfl⟩
    rw [Node.value, Operation.result]
    cases applied.operands? values children with
    | some operands => rfl
    | none => rfl

/-- Assumes: the names among the nodes ahead are resolved by steps, and so is what comes behind the
last node. The nodes are visited by steps. -/
theorem carriesOut_valuesFrom {nodes : List Node} {finish : Array Float → EvalM Float}
    (hnames : ∀ node ∈ nodes, ∀ name ∈ node.reference?, ∀ values ahead,
      CarriesOut context (resolve name) (.visiting ⟨values, .reference name :: ahead⟩)
        (Visit.resume ⟨values, ahead⟩))
    (hfinish : ∀ values, CarriesOut context (finish values) (.visiting ⟨values, []⟩) .ending)
    (values : Array Float) :
    CarriesOut context (Arena.valuesFrom resolve values nodes >>= finish)
      (.visiting ⟨values, nodes⟩) .ending := by
  induction nodes generalizing values with
  | nil =>
    rw [Arena.valuesFrom, List.foldlM_nil, pure_bind]
    exact hfinish values
  | cons node nodes ih =>
    intro waiting lookups
    have hfirst : Arena.valuesFrom resolve values (node :: nodes) >>= finish =
        node.value resolve values >>= fun value ↦
          Arena.valuesFrom resolve (values.push value) nodes >>= finish := by
      simp only [Arena.valuesFrom, List.foldlM_cons, bind_assoc, pure_bind]
    obtain ⟨result, more, houtcome, hleads⟩ := carriesOut_value nodes
      (fun name hname ↦ hnames node List.mem_cons_self name hname values nodes) waiting lookups
    rw [hfirst]
    cases result with
    | error error =>
      exact ⟨.error error, more, EvalM.outcome_bind_of_error houtcome _, hleads⟩
    | ok value =>
      obtain ⟨last, others, hrest, hbehind⟩ :=
        ih (fun other hother ↦ hnames other (List.mem_cons_of_mem node hother)) (values.push value)
          waiting more
      refine ⟨last, others, ?_, hleads.trans hbehind⟩
      rw [EvalM.outcome_bind_of_ok houtcome, hrest]

/-- Assumes: the names that an expression refers to are resolved by steps. So is the expression
evaluated. -/
theorem carriesOut_arena {x : Expression}
    (hnames : ∀ name, ∀ values ahead,
      CarriesOut context (resolve name) (.visiting ⟨values, .reference name :: ahead⟩)
        (Visit.resume ⟨values, ahead⟩)) :
    CarriesOut context (x.arena.evaluate resolve) (.visiting (.begin x)) .ending := by
  refine carriesOut_valuesFrom (fun _ _ name _ ↦ hnames name) (fun values _ lookups ↦ ?_) #[]
  refine ⟨values.back?.elim (.error (.badTree 1 0)) .ok, lookups, ?_, .single rfl⟩
  cases values.back? with
  | some value => rfl
  | none => rfl

/-- Assumes: the nesting that is left is enough for the names that are not on the stack. The
evaluation with this bound is carried out by steps, which have none. -/
theorem carriesOut_evaluate {context : Context} (hnested : context.Nested) {nesting : Nat}
    (hroom : context.size < nesting + context.callStack.depth) (x : Expression) :
    CarriesOut context (EvalM.evaluate nesting x) (.visiting (.begin x)) .ending := by
  induction nesting generalizing context x with
  | zero =>
    -- With no nesting left, there would be more frames on the stack than bindings.
    have hdepth := hnested.depth_le_size
    omega
  | succ nesting ih =>
    refine carriesOut_arena fun name ↦ carriesOut_resolve fun y hfind hcycle ↦ ?_
    refine ih (hnested.enter hfind hcycle) ?_ y
    show context.size < nesting + (context.callStack.depth + 1)
    omega

end Stage

/-- Assumes: no name is being resolved. The steps of the evaluation come to an end, and from every
stage on the way they lead there. At every stage the context binds what it has bound before, the
frames on the stack have distinct identities, each that of the expression bound to its name, one
visit waits for each of them, and there are no more of them than identities that the context
binds. -/
theorem Expression.eval_terminates {context : Context} (hstack : context.callStack = .empty)
    (expression : Expression) :
    (Stage.completed (expression.eval context)).next? = none ∧
    ∀ stage, (Stage.start expression context).LeadsTo stage →
      stage.LeadsTo (.completed (expression.eval context)) ∧
      stage.progress.context.bindings = context.bindings ∧
      (stage.progress.context.callStack.frames.map Frame.expression).Nodup ∧
      (∀ frame ∈ stage.progress.context.callStack.frames,
        ∃ x, context.find? frame.name = some x ∧ x.id = frame.expression) ∧
      stage.waiting.length = stage.progress.context.callStack.depth ∧
      stage.progress.context.callStack.depth ≤ context.identities.card := by
  have hroom : context.size < context.size + 1 + context.callStack.depth := by omega
  obtain ⟨result, more, houtcome, hends⟩ :=
    Stage.carriesOut_evaluate (Context.nested_of_empty hstack) hroom expression [] #[]
  have hcompleted : Stage.completed (expression.eval context) =
      ⟨.ending result, [], ⟨context, more⟩⟩ := by
    have heval : expression.eval context = ⟨result, context, more⟩ :=
      congrArg (fun outcome ↦ (⟨outcome.1, outcome.2.context, outcome.2.lookups⟩ : Evaluation))
        houtcome
    rw [heval, Stage.completed]
  rw [hcompleted]
  refine ⟨rfl, fun stage hstage ↦ ?_⟩
  have hsound := (Stage.sound_start hstack expression).leadsTo hstage
  have hend : stage.LeadsTo ⟨.ending result, [], ⟨context, more⟩⟩ :=
    Stage.leadsTo_end hends rfl hstage
  refine ⟨hend, hsound.bindings_eq, List.pairwise_map.mpr hsound.nested.distinct,
    fun frame hframe ↦ ?_, hsound.depth_eq.symm, ?_⟩
  · rw [← Context.find?_congr hsound.bindings_eq]
    exact hsound.nested.bound frame hframe
  · rw [← Context.identities_congr hsound.bindings_eq]
    exact hsound.nested.depth_le_card_identities

/-- Four names are bound to expressions with three identities. As many frames are on the stack when
the last of the names is looked up, and closes a cycle. -/
theorem Context.eval_terminates_copied : copied.callStack = .empty ∧ copied.size = 4 ∧
    copied.identities.card = 3 ∧
    ((reference ⟨3⟩ "entry").eval copied).result = .error (.cyclicDependency ["x", "y", "z"]) ∧
    ∃ stage, (Stage.start (reference ⟨3⟩ "entry") copied).LeadsTo stage ∧
      stage.progress.context.callStack.names = ["entry", "x", "y"] ∧
      stage.LeadsTo (.completed ((reference ⟨3⟩ "entry").eval copied)) ∧
      stage.progress.context.callStack.depth ≤ copied.identities.card := by
  have hsizes : copied.size = 4 ∧ copied.identities.card = 3 := by decide +kernel
  have hthird : ∃ stage, (Stage.start (reference ⟨3⟩ "entry") copied).LeadsTo stage ∧
      stage.progress.context.callStack.names = ["entry", "x", "y"] :=
    ⟨_, Stage.LeadsTo.step (.step (.step .refl rfl) rfl) rfl, rfl⟩
  obtain ⟨stage, hstage, hnames⟩ := hthird
  obtain ⟨hend, -, -, -, -, hdepth⟩ :=
    (Expression.eval_terminates rfl (reference ⟨3⟩ "entry")).2 stage hstage
  exact ⟨rfl, hsizes.1, hsizes.2, rfl, stage, hstage, hnames, hend, hdepth⟩

end Formulary
