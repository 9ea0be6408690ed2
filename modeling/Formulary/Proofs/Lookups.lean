import Formulary.Proofs.Dependencies
import Formulary.Proofs.Holdings
import Formulary.Proofs.Inventory
import Formulary.Proofs.Nesting

/-!
# The lookups of an evaluation

The references of an expression can be expanded without computing anything: each is looked up, and
the references of the expression that it is bound to are expanded before the next one, with the name
on the stack (`Context.Expands`). Nothing is expanded where a name is not bound, or is bound to an
expression on the stack (`Context.Accepts`). So the expansion is finite, and there is one.

Main statement: the lookups of an evaluation are those of the expansion, in this order, up to the
first name that is not bound or is bound to an expression on the stack. If there is no such name,
the evaluation has a value and has made them all.
-/

set_option autoImplicit false
set_option relaxedAutoImplicit false

namespace Formulary

namespace Context

/-! ### The expansion -/

/-- Whether the name that is looked up is bound to an expression that is not on the stack. -/
def Accepts (context : Context) (lookup : Lookup) : Prop :=
  ∃ x, context.find? lookup.name = some x ∧ ∀ frame ∈ lookup.stack.frames, frame.expression ≠ x.id

/-- The lookups that expanding names in their order takes, while the names on the given stack are
being resolved. -/
inductive Expands (context : Context) : CallStack → List String → List Lookup → Prop
  | nil {stack : CallStack} : Expands context stack [] []
  /-- Nothing is expanded where a name is not bound, or is bound to an expression on the stack. -/
  | deadEnd {stack : CallStack} {name : String} {names : List String} {lookups : List Lookup}
    (hdead : ¬ context.Accepts ⟨name, stack⟩) (hrest : Expands context stack names lookups) :
    Expands context stack (name :: names) (⟨name, stack⟩ :: lookups)
  /-- Otherwise the references of the expression that is found are expanded before the next name. -/
  | found {stack : CallStack} {name : String} {names : List String} {x : Expression}
    {inner lookups : List Lookup} (hfind : context.find? name = some x)
    (hfree : ∀ frame ∈ stack.frames, frame.expression ≠ x.id)
    (hinner : Expands context (stack.push ⟨name, x.id⟩) x.arena.references inner)
    (hrest : Expands context stack names lookups) :
    Expands context stack (name :: names) (⟨name, stack⟩ :: (inner ++ lookups))

/-- The error that a lookup leads to at once: the name is not bound, or it closes a cycle. -/
def refusal? (context : Context) (lookup : Lookup) : Option EvalError :=
  match context.find? lookup.name with
  | none => some (.notFound lookup.name)
  | some x => (lookup.stack.cycle? x.id lookup.name).map .cyclicDependency

/-- Whether a result and the lookups made are those of going through an expansion up to the first
lookup that leads to an error. -/
inductive Follows (context : Context) {α : Type} (whole : List Lookup) :
    Except EvalError α → List Lookup → Prop
  /-- No lookup leads to an error, and all are made. -/
  | finished {a : α} (haccepts : ∀ lookup ∈ whole, context.Accepts lookup) :
    Follows context whole (.ok a) whole
  /-- The lookups are made up to the first one that leads to an error, which is the result. -/
  | stopped {before behind : List Lookup} {last : Lookup} {error : EvalError}
    (hwhole : whole = before ++ last :: behind)
    (haccepts : ∀ lookup ∈ before, context.Accepts lookup) (hdead : ¬ context.Accepts last)
    (hrefusal : context.refusal? last = some error) :
    Follows context whole (.error error) (before ++ [last])

variable {context : Context} {stack : CallStack} {name : String} {names : List String}
  {lookup : Lookup} {x : Expression}

/-- Names have one expansion. -/
theorem Expands.unique {first second : List Lookup} (hfirst : context.Expands stack names first)
    (hsecond : context.Expands stack names second) : first = second := by
  induction hfirst generalizing second with
  | nil =>
    cases hsecond
    rfl
  | deadEnd hdead hrest ih =>
    cases hsecond with
    | deadEnd hother hbehind => rw [ih hbehind]
    | found hfind hfree hinner hbehind => exact (hdead ⟨_, hfind, hfree⟩).elim
  | found hfind hfree hinner hrest ihinner ih =>
    cases hsecond with
    | deadEnd hdead hbehind => exact (hdead ⟨_, hfind, hfree⟩).elim
    | found hother hagain hwithin hbehind =>
      rw [hfind] at hother
      cases hother
      rw [ihinner hwithin, ih hbehind]

theorem refusal?_eq_none_iff : context.refusal? lookup = none ↔ context.Accepts lookup := by
  cases hfind : context.find? lookup.name with
  | none => simp [refusal?, Accepts, hfind]
  | some x => simp [refusal?, Accepts, hfind, CallStack.cycle?_eq_none_iff]

theorem not_accepts_of_refusal? {error : EvalError} (h : context.refusal? lookup = some error) :
    ¬ context.Accepts lookup := by
  rw [← refusal?_eq_none_iff, h]
  exact Option.some_ne_none error

/-- The first lookup of a list that leads to an error and the lookups before it are determined. -/
theorem eq_of_append_eq_append {before behind other rest : List Lookup} {first second : Lookup}
    (haccepts : ∀ lookup ∈ before, context.Accepts lookup)
    (hothers : ∀ lookup ∈ other, context.Accepts lookup) (hfirst : ¬ context.Accepts first)
    (hsecond : ¬ context.Accepts second)
    (h : before ++ first :: behind = other ++ second :: rest) :
    before = other ∧ first = second := by
  induction before generalizing other with
  | nil =>
    cases other with
    | nil => exact ⟨rfl, (List.cons.inj h).1⟩
    | cons lookup other =>
      rw [← (List.cons.inj h).1] at hothers
      exact (hfirst (hothers first List.mem_cons_self)).elim
  | cons lookup before ih =>
    cases other with
    | nil =>
      rw [(List.cons.inj h).1] at haccepts
      exact (hsecond (haccepts second List.mem_cons_self)).elim
    | cons last other =>
      obtain ⟨rfl, hbehind⟩ := List.cons.inj h
      obtain ⟨rfl, hsame⟩ := ih (List.forall_mem_cons.mp haccepts).2
        (List.forall_mem_cons.mp hothers).2 hbehind
      exact ⟨rfl, hsame⟩

/-- An expansion is followed in one way: the lookups are the same, and the error if there is one. -/
theorem Follows.unique {α : Type} {whole made others : List Lookup}
    {first second : Except EvalError α} (hfirst : context.Follows whole first made)
    (hsecond : context.Follows whole second others) :
    made = others ∧ ∀ error, first = .error error → second = .error error := by
  cases hfirst with
  | finished hall =>
    cases hsecond with
    | finished hagain => exact ⟨rfl, fun error h ↦ by cases h⟩
    | stopped hwhole hbefore hdead hrefusal =>
      rw [hwhole] at hall
      exact (hdead (hall _ (List.mem_append_right _ List.mem_cons_self))).elim
  | stopped hwhole hbefore hdead hrefusal =>
    cases hsecond with
    | finished hall =>
      rw [hwhole] at hall
      exact (hdead (hall _ (List.mem_append_right _ List.mem_cons_self))).elim
    | stopped hagain hothers hother hsame =>
      obtain ⟨rfl, rfl⟩ :=
        eq_of_append_eq_append hbefore hothers hdead hother (hwhole.symm.trans hagain)
      rw [hrefusal] at hsame
      cases hsame
      exact ⟨rfl, fun _ ↦ id⟩

/-! ### Actions that follow an expansion -/

/-- Whether an action that begins with the stack keeps it and follows the expansion. -/
def Traces (context : Context) (stack : CallStack) {α : Type} (whole : List Lookup)
    (action : EvalM α) : Prop :=
  ∀ lookups, ∃ result more made,
    action.outcome ⟨{ context with callStack := stack }, lookups⟩ =
      (result, ⟨{ context with callStack := stack }, more⟩) ∧
    more.toList = lookups.toList ++ made ∧ context.Follows whole result made

variable {α β : Type} {first second whole : List Lookup}

theorem traces_pure (a : α) : context.Traces stack [] (pure a : EvalM α) := fun lookups ↦
  ⟨.ok a, lookups, [], EvalM.outcome_pure a _, (List.append_nil _).symm,
    .finished (List.forall_mem_nil _)⟩

/-- Two actions one after the other follow one expansion after the other. -/
theorem Traces.bind {action : EvalM α} {next : α → EvalM β}
    (hfirst : context.Traces stack first action)
    (hsecond : ∀ a, context.Traces stack second (next a)) :
    context.Traces stack (first ++ second) (action >>= next) := by
  intro lookups
  obtain ⟨result, more, made, houtcome, hmore, hfollows⟩ := hfirst lookups
  -- The second action begins only where the first one has made all its lookups.
  cases hfollows with
  | @finished a haccepts =>
    obtain ⟨result, last, others, hlast, hothers, hrest⟩ := hsecond a more
    refine ⟨result, last, first ++ others, ?_, ?_, ?_⟩
    · rw [EvalM.outcome_bind_of_ok houtcome, hlast]
    · rw [hothers, hmore, List.append_assoc]
    · cases hrest with
      | finished hbehind => exact .finished (List.forall_mem_append.mpr ⟨haccepts, hbehind⟩)
      | @stopped before behind refused error hwhole hbefore hdead hrefusal =>
        rw [← List.append_assoc]
        have hboth : first ++ second = first ++ before ++ refused :: behind := by
          rw [hwhole, List.append_assoc]
        exact .stopped hboth (List.forall_mem_append.mpr ⟨haccepts, hbefore⟩) hdead hrefusal
  | @stopped before behind refused error hwhole hbefore hdead hrefusal =>
    have hboth : first ++ second = before ++ refused :: (behind ++ second) := by
      rw [hwhole, List.append_assoc, List.cons_append]
    exact ⟨.error error, more, _, EvalM.outcome_bind_of_error houtcome next, hmore,
      .stopped hboth hbefore hdead hrefusal⟩

theorem Traces.map {action : EvalM α} (h : context.Traces stack whole action) (f : α → β) :
    context.Traces stack whole (f <$> action) := by
  rw [map_eq_pure_bind, ← List.append_nil whole]
  exact h.bind fun a ↦ traces_pure (f a)

/-! ### Resolving names -/

section Resolve

variable {evaluate : Expression → EvalM Float}

/-- A lookup that leads to an error is the last one. -/
theorem traces_resolve_of_refusal? {error : EvalError}
    (hrefusal : context.refusal? ⟨name, stack⟩ = some error) :
    context.Traces stack [⟨name, stack⟩] (EvalM.resolve evaluate name) := by
  intro lookups
  have hstopped : context.Follows (α := Float) [⟨name, stack⟩] (.error error)
      ([] ++ [⟨name, stack⟩]) :=
    .stopped rfl (List.forall_mem_nil _) (not_accepts_of_refusal? hrefusal) hrefusal
  refine ⟨.error error, lookups.push ⟨name, stack⟩, _, ?_, Array.toList_push .., hstopped⟩
  rw [refusal?] at hrefusal
  cases hfind : context.find? name with
  | none =>
    simp only [hfind] at hrefusal
    cases hrefusal
    have hunbound : Context.find? { context with callStack := stack } name = none := hfind
    exact EvalM.outcome_resolve_of_unbound hunbound lookups
  | some x =>
    simp only [hfind] at hrefusal
    obtain ⟨chain, hcycle, rfl⟩ := Option.map_eq_some_iff.mp hrefusal
    have hbound : Context.find? { context with callStack := stack } name = some x := hfind
    exact EvalM.outcome_resolve_of_cycle hbound hcycle lookups

/-- Any other lookup is followed by the lookups of the expression that is found. -/
theorem traces_resolve_of_found (hfind : context.find? name = some x)
    (hfree : ∀ frame ∈ stack.frames, frame.expression ≠ x.id) {inner : List Lookup}
    (hinner : context.Traces (stack.push ⟨name, x.id⟩) inner (evaluate x)) :
    context.Traces stack (⟨name, stack⟩ :: inner) (EvalM.resolve evaluate name) := by
  intro lookups
  have haccepts : context.Accepts ⟨name, stack⟩ := ⟨x, hfind, hfree⟩
  obtain ⟨result, more, made, houtcome, hmore, hfollows⟩ := hinner (lookups.push ⟨name, stack⟩)
  refine ⟨result, more, ⟨name, stack⟩ :: made, ?_, ?_, ?_⟩
  · have hbound : Context.find? { context with callStack := stack } name = some x := hfind
    rw [EvalM.outcome_resolve_of_free hbound (CallStack.cycle?_eq_none_iff.mpr hfree)]
    exact congrArg (fun inner ↦ (inner.1, { inner.2 with context := inner.2.context.leave }))
      houtcome
  · rw [hmore, Array.toList_push, List.append_assoc, List.singleton_append]
  · cases hfollows with
    | finished hall => exact .finished (List.forall_mem_cons.mpr ⟨haccepts, hall⟩)
    | @stopped before behind last error hwhole hbefore hdead hrefusal =>
      have hall : ⟨name, stack⟩ :: inner = ⟨name, stack⟩ :: before ++ last :: behind :=
        congrArg _ hwhole
      exact .stopped hall (List.forall_mem_cons.mpr ⟨haccepts, hbefore⟩) hdead hrefusal

/-- Assumes: the evaluation of an expression that is found follows an expansion of its references.
Resolving names one after the other follows an expansion of them. -/
theorem exists_traces_mapM (names : List String)
    (h : ∀ name x, context.find? name = some x →
      (∀ frame ∈ stack.frames, frame.expression ≠ x.id) → ∃ inner,
        context.Expands (stack.push ⟨name, x.id⟩) x.arena.references inner ∧
        context.Traces (stack.push ⟨name, x.id⟩) inner (evaluate x)) :
    ∃ whole, context.Expands stack names whole ∧
      context.Traces stack whole (names.mapM (EvalM.resolve evaluate)) := by
  induction names with
  | nil => exact ⟨[], .nil, traces_pure []⟩
  | cons name names ih =>
    obtain ⟨others, hexpands, hothers⟩ := ih
    have hrest (value : Float) : context.Traces stack others
        (List.cons value <$> names.mapM (EvalM.resolve evaluate)) := hothers.map _
    simp only [List.mapM_cons, bind_pure_comp]
    cases hrefusal : context.refusal? ⟨name, stack⟩ with
    | some error =>
      exact ⟨_, .deadEnd (not_accepts_of_refusal? hrefusal) hexpands,
        (traces_resolve_of_refusal? hrefusal).bind hrest⟩
    | none =>
      obtain ⟨x, hfind, hfree⟩ := refusal?_eq_none_iff.mp hrefusal
      obtain ⟨inner, hinner, htraces⟩ := h name x hfind hfree
      exact ⟨_, .found hfind hfree hinner hexpands,
        (traces_resolve_of_found hfind hfree htraces).bind hrest⟩

end Resolve

/-- Assumes: the stack names what the context binds, and the nesting that is left is enough for the
names that are not on it. An evaluation follows an expansion of its references. -/
theorem exists_traces_evaluate (hcontext : context.Compiled)
    (hnested : Nested { context with callStack := stack }) {nesting : Nat}
    (hroom : context.size < nesting + stack.depth) (hx : x.arena.Compiled) :
    ∃ whole, context.Expands stack x.arena.references whole ∧
      context.Traces stack whole (EvalM.evaluate nesting x) := by
  induction nesting generalizing stack x with
  | zero =>
    -- There is no room without nesting: the stack is no deeper than the context is large.
    have hdepth : stack.depth ≤ context.size := hnested.depth_le_size
    omega
  | succ nesting ih =>
    obtain ⟨combine, hcombine⟩ := hx.exists_combine
    have hevaluate : EvalM.evaluate (nesting + 1) x =
        combine <$> x.arena.references.mapM (EvalM.resolve (EvalM.evaluate nesting)) := hcombine _
    have hdeeper : context.size < nesting + (stack.depth + 1) := by omega
    obtain ⟨whole, hexpands, htraces⟩ := exists_traces_mapM x.arena.references fun _ _ hfind hfree ↦
      ih (hnested.enter hfind (CallStack.cycle?_eq_none_iff.mpr hfree)) hdeeper (hcontext hfind)
    rw [hevaluate]
    exact ⟨whole, hexpands, htraces.map combine⟩

end Context

/-- Assumes: no name is being resolved, and all formulas have compiled or are numbers. The lookups
of an evaluation are the expansion of the references of the expression, up to the first lookup of a
name that is not bound or is bound to an expression on the stack. If there is none, they are the
whole expansion, and only then the evaluation has a value. The references of a formula that has
compiled are in the order in which they stand in its text. -/
theorem Expression.eval_follows_expansion {context : Context} (hstack : context.callStack = .empty)
    (hcontext : context.Compiled) {expression : Expression}
    (hexpression : expression.arena.Compiled) :
    (∃ whole, context.Expands .empty expression.arena.references whole ∧
      (∀ other, context.Expands .empty expression.arena.references other → other = whole) ∧
      context.Follows whole (expression.eval context).result
        (expression.eval context).lookups.toList) ∧
    ∀ g text arena, Grammar.compile g text = .ok arena →
      arena.references = ((g.tokens text).filter (Token.isReference g)).map Token.text := by
  refine ⟨?_, fun g text arena h ↦ Grammar.references_of_compile h⟩
  have hempty : { context with callStack := CallStack.empty } = context := by rw [← hstack]
  have hnested : Context.Nested { context with callStack := CallStack.empty } :=
    Context.nested_of_empty rfl
  have hroom : context.size < context.size + 1 + CallStack.empty.depth := by omega
  obtain ⟨whole, hexpands, htraces⟩ :=
    Context.exists_traces_evaluate hcontext hnested hroom hexpression
  refine ⟨whole, hexpands, fun other hother ↦ hother.unique hexpands, ?_⟩
  obtain ⟨result, more, made, houtcome, hmore, hfollows⟩ := htraces #[]
  rw [hempty] at houtcome
  have hresult : (expression.eval context).result = result := congrArg Prod.fst houtcome
  have hlookups : (expression.eval context).lookups = more :=
    congrArg (fun outcome ↦ outcome.2.lookups) houtcome
  rw [hresult, hlookups, hmore]
  exact hfollows

namespace Context

/-- The side of a square and its area. -/
def sideAndArea (square : Arena) : Context :=
  (empty.add "side" ⟨⟨0⟩, .literal 2⟩).add "area" ⟨⟨1⟩, square⟩

/-- The stack while the area is resolved. -/
def inArea : CallStack := CallStack.empty.push ⟨"area", ⟨1⟩⟩

/-- The lookups that resolving the area takes. -/
def ofArea : List Lookup := [⟨"area", .empty⟩, ⟨"side", inArea⟩, ⟨"side", inArea⟩]

/-- The side is looked up twice for each of the two areas, and not at all behind the name that is
not bound. -/
theorem eval_follows_expansion_twice : ∃ square sum : Arena,
    Grammar.standard.compile "side * side" = .ok square ∧
    Grammar.standard.compile "area + area + missing + side" = .ok sum ∧
    (sideAndArea square).callStack = .empty ∧ (sideAndArea square).Compiled ∧
    ((Expression.mk ⟨2⟩ sum).eval (sideAndArea square)).result = .error (.notFound "missing") ∧
    ((Expression.mk ⟨2⟩ sum).eval (sideAndArea square)).lookups.toList =
      ofArea ++ ofArea ++ [⟨"missing", .empty⟩] := by
  have hreferences :
      (Grammar.standard.compile "side * side").toOption.map Arena.references =
        some ["side", "side"] ∧
      (Grammar.standard.compile "area + area + missing + side").toOption.map Arena.references =
        some ["area", "area", "missing", "side"] := by
    decide +kernel
  obtain ⟨square, hsquare, hsides⟩ := exists_of_references hreferences.1
  obtain ⟨sum, hsum, hnames⟩ := exists_of_references hreferences.2
  have hcompiled : (sideAndArea square).Compiled :=
    BindsOnly.add (S := fun x ↦ x.arena.Compiled)
      (BindsOnly.add bindsOnly_empty "side" (.literal 2)) "area" (.text hsquare)
  have harea : (sideAndArea square).find? "area" = some ⟨⟨1⟩, square⟩ := rfl
  have hside : (sideAndArea square).find? "side" = some ⟨⟨0⟩, .literal 2⟩ := rfl
  have hinArea : ∀ frame ∈ inArea.frames, frame.expression ≠ ⟨0⟩ := by decide
  have houtside : ∀ id, ∀ frame ∈ CallStack.empty.frames, frame.expression ≠ id :=
    fun id ↦ List.forall_mem_nil _
  have hrefusal : (sideAndArea square).refusal? ⟨"missing", .empty⟩ =
      some (.notFound "missing") := rfl
  have hmissing := not_accepts_of_refusal? hrefusal
  have hinner : (sideAndArea square).Expands inArea square.references
      [⟨"side", inArea⟩, ⟨"side", inArea⟩] := by
    rw [hsides]
    exact .found hside hinArea .nil (.found hside hinArea .nil .nil)
  have hexpands : (sideAndArea square).Expands .empty sum.references
      (ofArea ++ ofArea ++ [⟨"missing", .empty⟩, ⟨"side", .empty⟩]) := by
    have hrest : (sideAndArea square).Expands .empty ["missing", "side"]
        [⟨"missing", .empty⟩, ⟨"side", .empty⟩] :=
      .deadEnd hmissing (.found hside (houtside _) .nil .nil)
    rw [hnames, List.append_assoc]
    exact .found harea (houtside _) hinner (.found harea (houtside _) hinner hrest)
  have houter : (sideAndArea square).Accepts ⟨"area", .empty⟩ := ⟨_, harea, houtside _⟩
  have hwithin : (sideAndArea square).Accepts ⟨"side", inArea⟩ := ⟨_, hside, hinArea⟩
  have haccepts : ∀ lookup ∈ ofArea ++ ofArea, (sideAndArea square).Accepts lookup := by
    simp [ofArea, houter, hwithin]
  have hstopped : (sideAndArea square).Follows
      (ofArea ++ ofArea ++ [⟨"missing", .empty⟩, ⟨"side", .empty⟩])
      (.error (.notFound "missing") : Except EvalError Float)
      (ofArea ++ ofArea ++ [⟨"missing", .empty⟩]) := .stopped rfl haccepts hmissing hrefusal
  have hformula : (Expression.mk ⟨2⟩ sum).arena.Compiled := .text hsum
  obtain ⟨⟨whole, -, hunique, hfollows⟩, -⟩ :=
    Expression.eval_follows_expansion rfl hcompiled hformula
  rw [← hunique _ hexpands] at hfollows
  obtain ⟨hmade, herror⟩ := hstopped.unique hfollows
  exact ⟨square, sum, hsquare, hsum, rfl, hcompiled, herror _ rfl, hmade.symm⟩

end Context

end Formulary
