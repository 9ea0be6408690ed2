import Formulary.Proofs.CycleDetection
import Formulary.Proofs.Recursion
import Mathlib.Data.Set.Finite.List
import Mathlib.Order.WellFounded

/-!
# The names that an evaluation depends on

An evaluation resolves the references of a formula, from left to right, and then computes with their
values (`Arena.Compiled.exists_combine`). So it succeeds if all of them do, and a name does if it is
bound and its formula does.

The names that are met in this way, directly or through the formulas of other names, are those that
the expression reaches (`Context.Reaches`). Main statement: an evaluation has a value exactly where
all of them are bound and none of them refers to itself, directly or through others. An evaluation
without a context has a value exactly where there are no references, and otherwise misses a context
for the first of them.

Where a bound for the nesting gives a value, the formulas of the references have one under a lesser
bound, so a name that refers to itself has none. Conversely the names that are reached are finitely
many, so if none refers to itself, a bound is found for a name after the names that it refers to.
-/

set_option autoImplicit false
set_option relaxedAutoImplicit false

namespace Formulary

/-! ### References first, and then the value -/

/-- Assumes: two ways to go on that agree on as many results as there are names. -/
theorem mapM_bind_congr {m : Type → Type} [Monad m] [LawfulMonad m] {α β γ : Type} {f : α → m β}
    {names : List α} {k k' : List β → m γ}
    (h : ∀ results, results.length = names.length → k results = k' results) :
    names.mapM f >>= k = names.mapM f >>= k' := by
  induction names generalizing k k' with
  | nil => simp only [List.mapM_nil, pure_bind, h [] rfl]
  | cons name names ih =>
    simp only [List.mapM_cons, bind_assoc, pure_bind]
    refine congrArg (f name >>= ·) (funext fun result ↦ ih fun results hlength ↦ ?_)
    exact h (result :: results) (congrArg (· + 1) hlength)

namespace Tree

mutual

/-- The names that a tree refers to, from left to right and with repetitions. -/
def references : Tree → List String
  | .literal _ => []
  | .reference name => [name]
  | .operation _ operands => referencesAll operands

/-- The names that several trees refer to. -/
def referencesAll : List Tree → List String
  | [] => []
  | tree :: trees => references tree ++ referencesAll trees

end

theorem filterMap_listingAll {trees : List Tree} (h : ∀ tree ∈ trees, ∀ offset,
      (tree.listing offset).filterMap Node.reference? = tree.references) (offset : Nat) :
    (listingAll offset trees).filterMap Node.reference? = referencesAll trees := by
  induction trees generalizing offset with
  | nil => rfl
  | cons tree trees ih =>
    have hothers := ih fun other hother ↦ h other (List.mem_cons_of_mem tree hother)
    rw [listingAll, referencesAll, List.filterMap_append, h tree List.mem_cons_self, hothers]

theorem filterMap_listing (tree : Tree) (offset : Nat) :
    (tree.listing offset).filterMap Node.reference? = tree.references := by
  induction tree generalizing offset with
  | literal value => rfl
  | reference name => rfl
  | operation applied operands ih =>
    rw [listing, references, List.filterMap_append, filterMap_listingAll ih]
    exact List.append_nil _

theorem references_arena (tree : Tree) : tree.arena.references = tree.references :=
  tree.filterMap_listing 0

theorem exists_combineAll {trees : List Tree} (h : ∀ tree ∈ trees, ∃ combine : List Float → Float,
      ∀ {m : Type → Type} [Monad m] [LawfulMonad m] (resolve : String → m Float),
        tree.value resolve = combine <$> tree.references.mapM resolve) :
    ∃ combine : List Float → List Float,
      ∀ {m : Type → Type} [Monad m] [LawfulMonad m] (resolve : String → m Float),
        valueAll resolve trees = combine <$> (referencesAll trees).mapM resolve := by
  induction trees with
  | nil => exact ⟨id, fun resolve ↦ by simp [valueAll, referencesAll]⟩
  | cons tree trees ih =>
    obtain ⟨first, hfirst⟩ := h tree List.mem_cons_self
    obtain ⟨others, hothers⟩ := ih fun other hother ↦ h other (List.mem_cons_of_mem tree hother)
    refine ⟨fun values ↦ first (values.take tree.references.length) ::
      others (values.drop tree.references.length), fun resolve ↦ ?_⟩
    simp only [valueAll, referencesAll, hfirst, hothers, List.mapM_append, map_eq_pure_bind,
      bind_assoc, pure_bind]
    refine mapM_bind_congr fun values hlength ↦ ?_
    simp only [← hlength, List.take_left, List.drop_left]

/-- The value of a tree is computed from the meanings of the names that it refers to, which are
found out one after the other. -/
theorem exists_combine (tree : Tree) : ∃ combine : List Float → Float,
    ∀ {m : Type → Type} [Monad m] [LawfulMonad m] (resolve : String → m Float),
      tree.value resolve = combine <$> tree.references.mapM resolve := by
  induction tree with
  | literal literal => exact ⟨fun _ ↦ literal, fun resolve ↦ by simp [value, references]⟩
  | reference name => exact ⟨fun values ↦ values.headD 0, fun resolve ↦ by simp [value, references]⟩
  | operation applied operands ih =>
    obtain ⟨combine, hcombine⟩ := exists_combineAll ih
    refine ⟨fun values ↦ applied.reducer (combine values), fun resolve ↦ ?_⟩
    rw [value, references, hcombine, bind_pure_comp, Functor.map_map]

end Tree

/-- An evaluation resolves the references of the formula in their order, and computes the value. -/
theorem Arena.Compiled.exists_combine {arena : Arena} (h : arena.Compiled) :
    ∃ combine : List Float → Float, ∀ {m : Type → Type} [Monad m] [LawfulMonad m]
      [MonadExceptOf EvalError m] (resolve : String → m Float),
        arena.evaluate resolve = combine <$> arena.references.mapM resolve := by
  obtain ⟨tree, hwf, rfl⟩ := h.exists_tree
  obtain ⟨combine, hcombine⟩ := tree.exists_combine
  refine ⟨combine, fun resolve ↦ ?_⟩
  rw [hwf.evaluate_arena, hcombine, tree.references_arena]

/-! ### Without a stack, all references must have values -/

namespace UnguardedM

/-- Whether the action has a value. -/
def Succeeds {α : Type} (x : UnguardedM α) : Prop := ∃ a, x.run = some (.ok a)

theorem succeeds_bind_iff {α β : Type} {x : UnguardedM α} {f : α → UnguardedM β} :
    (x >>= f).Succeeds ↔ ∃ a, x.run = some (.ok a) ∧ (f a).Succeeds := by
  constructor
  · rintro ⟨b, h⟩
    rcases cases_of_run_bind h with ⟨a, hx, hf⟩ | ⟨error, -, herror⟩
    · exact ⟨a, hx, b, hf⟩
    · cases herror
  · rintro ⟨a, hx, b, hf⟩
    exact ⟨b, (run_bind_of_ok hx).trans hf⟩

theorem succeeds_map_iff {α β : Type} {x : UnguardedM α} {f : α → β} :
    (f <$> x).Succeeds ↔ x.Succeeds := by
  rw [map_eq_pure_bind, succeeds_bind_iff]
  exact ⟨fun ⟨a, hx, _⟩ ↦ ⟨a, hx⟩, fun ⟨a, hx⟩ ↦ ⟨a, hx, f a, rfl⟩⟩

/-- A sequence of actions has values if each of them has one. -/
theorem succeeds_mapM_iff {α β : Type} {f : α → UnguardedM β} {names : List α} :
    (names.mapM f).Succeeds ↔ ∀ name ∈ names, (f name).Succeeds := by
  induction names with
  | nil => exact ⟨fun _ _ h ↦ (List.not_mem_nil h).elim, fun _ ↦ ⟨[], rfl⟩⟩
  | cons name names ih =>
    rw [List.mapM_cons, succeeds_bind_iff, List.forall_mem_cons, ← ih]
    constructor
    · rintro ⟨b, hb, hothers⟩
      obtain ⟨bs, hbs, -⟩ := succeeds_bind_iff.mp hothers
      exact ⟨⟨b, hb⟩, bs, hbs⟩
    · rintro ⟨⟨b, hb⟩, bs, hbs⟩
      exact ⟨b, hb, succeeds_bind_iff.mpr ⟨bs, hbs, b :: bs, rfl⟩⟩

/-- A name has a value if it is bound to an expression that has one. -/
theorem succeeds_resolve_iff {context : Context} {evaluate : Expression → UnguardedM Float}
    {name : String} : (resolve context evaluate name).Succeeds ↔
      ∃ x, context.find? name = some x ∧ (evaluate x).Succeeds := by
  cases hfind : context.find? name with
  | none =>
    constructor
    · rintro ⟨value, hvalue⟩
      rw [resolve_of_unbound hfind] at hvalue
      cases hvalue
    · rintro ⟨x, hx, -⟩
      cases hx
  | some x =>
    rw [resolve_of_bound hfind]
    refine ⟨fun h ↦ ⟨x, rfl, h⟩, ?_⟩
    rintro ⟨y, hy, h⟩
    cases hy
    exact h

end UnguardedM

namespace Context

variable {context : Context}

/-- Whether the expression has a value under the bound, without a stack. -/
def Settles (context : Context) (bound : Nat) (x : Expression) : Prop :=
  (context.unguarded bound x).Succeeds

theorem not_settles_zero (x : Expression) : ¬ context.Settles 0 x := by
  rintro ⟨value, hvalue⟩
  cases hvalue

theorem Settles.mono {bound greater : Nat} {x : Expression} (h : context.Settles bound x)
    (hle : bound ≤ greater) : context.Settles greater x := by
  obtain ⟨value, hvalue⟩ := h
  exact ⟨value, unguarded_mono hle hvalue⟩

/-- A formula has a value under the next bound if all names that it refers to are bound to
expressions that have values under the bound. -/
theorem settles_succ_iff {x : Expression} (hx : x.arena.Compiled) {bound : Nat} :
    context.Settles (bound + 1) x ↔ ∀ name ∈ x.arena.references,
      ∃ y, context.find? name = some y ∧ context.Settles bound y := by
  obtain ⟨combine, hcombine⟩ := hx.exists_combine
  simp only [Settles, unguarded, hcombine, UnguardedM.succeeds_map_iff,
    UnguardedM.succeeds_mapM_iff, UnguardedM.succeeds_resolve_iff]

/-! ### Names that refer to names -/

/-- Whether the expression that is bound to the one name refers to the other. -/
def Refers (context : Context) (source target : String) : Prop :=
  ∃ x, context.find? source = some x ∧ target ∈ x.arena.references

/-- Whether an expression refers to a name, or to another name whose expression does, and so on. -/
inductive Reaches (context : Context) (expression : Expression) : String → Prop
  | reference {name : String} (h : name ∈ expression.arena.references) :
    Reaches context expression name
  | through {source name : String} (h : Reaches context expression source)
    (hrefers : context.Refers source name) : Reaches context expression name

/-- Whether the expression reaches only names that are bound. -/
def Closed (context : Context) (expression : Expression) : Prop :=
  ∀ name, context.Reaches expression name → ∃ x, context.find? name = some x

/-- Whether no name that the expression reaches refers to itself, directly or through others. -/
def Acyclic (context : Context) (expression : Expression) : Prop :=
  ∀ name, context.Reaches expression name → ¬ Relation.TransGen context.Refers name name

/-! ### A value needs names that are bound and do not refer to themselves -/

section Value

variable (hcontext : context.Compiled)
include hcontext

/-- Assumes: a name whose expression has a value under a bound. The names that it refers to,
directly or through others, have values under lesser bounds. -/
theorem exists_settles_of_refers {source target : String}
    (h : Relation.TransGen context.Refers source target) {x : Expression}
    (hx : context.find? source = some x) {bound : Nat} (hsettles : context.Settles bound x) :
    ∃ y lower, context.find? target = some y ∧ lower < bound ∧ context.Settles lower y := by
  induction h with
  | single hrefers =>
    obtain ⟨z, hz, htarget⟩ := hrefers
    cases hx.symm.trans hz
    cases bound with
    | zero => exact (not_settles_zero x hsettles).elim
    | succ bound =>
      obtain ⟨y, hy, hlower⟩ := (settles_succ_iff (hcontext hx)).mp hsettles _ htarget
      exact ⟨y, bound, hy, Nat.lt_succ_self bound, hlower⟩
  | tail _ hrefers ih =>
    obtain ⟨y, lower, hy, hlt, hlower⟩ := ih
    obtain ⟨z, hz, htarget⟩ := hrefers
    cases hy.symm.trans hz
    cases lower with
    | zero => exact (not_settles_zero y hlower).elim
    | succ lower =>
      obtain ⟨w, hw, hlowest⟩ := (settles_succ_iff (hcontext hy)).mp hlower _ htarget
      exact ⟨w, lower, hw, by omega, hlowest⟩

/-- A name that refers to itself has no value, since it would have one under a lesser bound. -/
theorem not_settles_of_cycle {name : String} (h : Relation.TransGen context.Refers name name)
    {x : Expression} (hx : context.find? name = some x) (bound : Nat) :
    ¬ context.Settles bound x := by
  induction bound using Nat.strongRecOn with
  | ind bound ih =>
    intro hsettles
    obtain ⟨y, lower, hy, hlt, hlower⟩ := exists_settles_of_refers hcontext h hx hsettles
    cases hx.symm.trans hy
    exact ih lower hlt hlower

variable {expression : Expression} (hexpression : expression.arena.Compiled)
include hexpression

/-- Assumes: the expression has a value. So has every name that it reaches. -/
theorem Settles.of_reaches {bound : Nat} (hsettles : context.Settles bound expression)
    {name : String} (h : context.Reaches expression name) :
    ∃ x lower, context.find? name = some x ∧ context.Settles lower x := by
  induction h with
  | reference hname =>
    obtain ⟨x, hx, hlower⟩ :=
      (settles_succ_iff hexpression).mp (hsettles.mono (Nat.le_succ bound)) _ hname
    exact ⟨x, bound, hx, hlower⟩
  | through _ hrefers ih =>
    obtain ⟨x, lower, hx, hlower⟩ := ih
    obtain ⟨y, lowest, hy, -, hlowest⟩ :=
      exists_settles_of_refers hcontext (.single hrefers) hx hlower
    exact ⟨y, lowest, hy, hlowest⟩

/-! ### Names that are bound and do not refer to themselves have values -/

omit hcontext hexpression in
/-- Assumes: each of the names has a value under some bound. One bound will do for all of them. -/
theorem exists_common_bound {names : List String} (h : ∀ name ∈ names,
      ∃ x bound, context.find? name = some x ∧ context.Settles bound x) :
    ∃ bound, ∀ name ∈ names, ∃ x, context.find? name = some x ∧ context.Settles bound x := by
  induction names with
  | nil => exact ⟨0, fun _ h ↦ by cases h⟩
  | cons name names ih =>
    obtain ⟨x, first, hx, hfirst⟩ := h name List.mem_cons_self
    obtain ⟨others, hothers⟩ := ih fun other hother ↦ h other (List.mem_cons_of_mem name hother)
    refine ⟨max first others, fun other hother ↦ ?_⟩
    rcases List.mem_cons.mp hother with rfl | hother
    · exact ⟨x, hx, hfirst.mono (Nat.le_max_left _ _)⟩
    · obtain ⟨y, hy, hsettles⟩ := hothers other hother
      exact ⟨y, hy, hsettles.mono (Nat.le_max_right _ _)⟩

omit hcontext hexpression in
/-- Among the names that an expression reaches, finitely many since they are bound, it can be argued
from the names that a name refers to to the name itself. -/
theorem Acyclic.wellFounded (hclosed : context.Closed expression)
    (hacyclic : context.Acyclic expression) :
    WellFounded fun target source : { name // context.Reaches expression name } ↦
      Relation.TransGen context.Refers source.1 target.1 := by
  have hsubset : { name | context.Reaches expression name } ⊆
      { name | name ∈ context.bindings.keys } := by
    intro name hname
    obtain ⟨x, hx⟩ := hclosed name hname
    exact mem_keys_of_find? hx
  have : Finite { name // context.Reaches expression name } :=
    (List.finite_toSet context.bindings.keys).subset hsubset
  have : IsTrans { name // context.Reaches expression name } fun target source ↦
      Relation.TransGen context.Refers source.1 target.1 := ⟨fun _ _ _ h h' ↦ h'.trans h⟩
  have : Std.Irrefl fun target source : { name // context.Reaches expression name } ↦
      Relation.TransGen context.Refers source.1 target.1 := ⟨fun name ↦ hacyclic name.1 name.2⟩
  exact Finite.wellFounded_of_trans_of_irrefl _

omit hexpression in
/-- Every name that is reached has a value. -/
theorem exists_settles_of_reaches (hclosed : context.Closed expression)
    (hacyclic : context.Acyclic expression) {name : String}
    (h : context.Reaches expression name) :
    ∃ x bound, context.find? name = some x ∧ context.Settles bound x := by
  have hall : ∀ name : { name // context.Reaches expression name },
      ∃ x bound, context.find? name.1 = some x ∧ context.Settles bound x := by
    intro name
    induction name using (hacyclic.wellFounded hclosed).induction with
    | _ name ih =>
      obtain ⟨x, hx⟩ := hclosed name.1 name.2
      have hreferences : ∀ target ∈ x.arena.references,
          ∃ y bound, context.find? target = some y ∧ context.Settles bound y := by
        intro target htarget
        have hrefers : context.Refers name.1 target := ⟨x, hx, htarget⟩
        exact ih ⟨target, name.2.through hrefers⟩ (.single hrefers)
      obtain ⟨bound, hbound⟩ := exists_common_bound hreferences
      exact ⟨x, bound + 1, hx, (settles_succ_iff (hcontext hx)).mpr hbound⟩
  exact hall ⟨name, h⟩

/-- An expression has a value without a stack exactly where all names that it reaches are bound and
none of them refers to itself. -/
theorem exists_settles_iff : (∃ bound, context.Settles bound expression) ↔
    context.Closed expression ∧ context.Acyclic expression := by
  constructor
  · rintro ⟨bound, hsettles⟩
    constructor
    · intro name hname
      obtain ⟨x, -, hx, -⟩ := hsettles.of_reaches hcontext hexpression hname
      exact ⟨x, hx⟩
    · intro name hname hcycle
      obtain ⟨x, lower, hx, hlower⟩ := hsettles.of_reaches hcontext hexpression hname
      exact not_settles_of_cycle hcontext hcycle hx lower hlower
  · rintro ⟨hclosed, hacyclic⟩
    have hreferences : ∀ name ∈ expression.arena.references,
        ∃ x bound, context.find? name = some x ∧ context.Settles bound x :=
      fun name hname ↦ exists_settles_of_reaches hcontext hclosed hacyclic (.reference hname)
    obtain ⟨bound, hbound⟩ := exists_common_bound hreferences
    exact ⟨bound + 1, (settles_succ_iff hexpression).mpr hbound⟩

end Value

end Context

/-! ### Evaluations -/

namespace Expression

variable {expression : Expression}

/-- Without a context, an evaluation has a value or misses a context for the first reference. -/
theorem evalClosed_cases (h : expression.arena.Compiled) :
    (expression.arena.references = [] ∧ ∃ value, expression.evalClosed = .ok value) ∨
      ∃ name names, expression.arena.references = name :: names ∧
        expression.evalClosed = .error (.noContext name) := by
  obtain ⟨combine, hcombine⟩ := h.exists_combine
  rw [evalClosed, hcombine]
  cases expression.arena.references with
  | nil => exact Or.inl ⟨rfl, combine [], rfl⟩
  | cons name names =>
    rw [List.mapM_cons]
    exact Or.inr ⟨name, names, rfl, rfl⟩

/-- Assumes: no name is being resolved, one identity stands for one formula, and all formulas have
compiled or are numbers. An evaluation has a value exactly where all names that the expression
reaches are bound and none of them refers to itself, directly or through others. Without a context
it has a value exactly where the formula has no references, and otherwise the first of them is the
error. -/
theorem eval_isOk_iff {context : Context} (hstack : context.callStack = .empty)
    (hcoherent : context.Coherent) (hcontext : context.Compiled)
    (hexpression : expression.arena.Compiled) :
    ((∃ value, (expression.eval context).result = .ok value) ↔
      context.Closed expression ∧ context.Acyclic expression) ∧
    ((∃ value, expression.evalClosed = .ok value) ↔ expression.arena.references = []) ∧
    ∀ name ∈ expression.arena.references.head?,
      expression.evalClosed = .error (.noContext name) := by
  refine ⟨?_, ?_, ?_⟩
  · have hsettles : (∃ value, (expression.eval context).result = .ok value) ↔
        ∃ bound, context.Settles bound expression := by
      simp only [Context.Settles, UnguardedM.Succeeds]
      rw [exists_comm]
      refine exists_congr fun value ↦ eval_eq_iff hstack hcoherent expression ?_
      intro chain h
      cases h
    rw [hsettles, Context.exists_settles_iff hcontext hexpression]
  · rcases evalClosed_cases hexpression with ⟨hnone, hvalue⟩ | ⟨name, names, hsome, herror⟩
    · exact ⟨fun _ ↦ hnone, fun _ ↦ hvalue⟩
    · rw [hsome, herror]
      constructor
      · rintro ⟨value, hvalue⟩
        cases hvalue
      · intro hnone
        cases hnone
  · intro name hname
    rcases evalClosed_cases hexpression with ⟨hnone, -⟩ | ⟨first, names, hsome, herror⟩
    · rw [hnone] at hname
      cases hname
    · rw [hsome] at hname
      cases hname
      exact herror

end Expression

/-! A square of a side that is bound to a number has a value, and a name that is bound to a sum with
itself has none. -/

namespace Context

/-- The side of a square, and a name that is bound to the given expression. -/
def sideAndLoop (loop : Expression) : Context :=
  (empty.add "side" ⟨⟨0⟩, .literal 2⟩).add "loop" loop

variable {loop : Arena}

theorem find?_sideAndLoop {name : String} {x : Expression}
    (h : (sideAndLoop ⟨⟨1⟩, loop⟩).find? name = some x) :
    name = "side" ∧ x = ⟨⟨0⟩, .literal 2⟩ ∨ name = "loop" ∧ x = ⟨⟨1⟩, loop⟩ := by
  simp only [sideAndLoop, find?_add, find?_empty] at h
  split at h
  · cases h
    exact Or.inr ⟨by simp_all, rfl⟩
  · split at h
    · cases h
      exact Or.inl ⟨by simp_all, rfl⟩
    · cases h

theorem coherent_sideAndLoop : (sideAndLoop ⟨⟨1⟩, loop⟩).Coherent := by
  intro first second x y hx hy hid
  rcases find?_sideAndLoop hx with ⟨-, rfl⟩ | ⟨-, rfl⟩ <;>
    rcases find?_sideAndLoop hy with ⟨-, rfl⟩ | ⟨-, rfl⟩ <;> first | rfl | cases hid

theorem compiled_sideAndLoop (h : loop.Compiled) : (sideAndLoop ⟨⟨1⟩, loop⟩).Compiled := by
  intro name x hx
  rcases find?_sideAndLoop hx with ⟨-, rfl⟩ | ⟨-, rfl⟩
  · exact .literal 2
  · exact h

theorem eq_side_of_reaches {square : Arena} (hsquare : square.references = ["side", "side"])
    {id : ExpressionId} {name : String}
    (h : (sideAndLoop ⟨⟨1⟩, loop⟩).Reaches ⟨id, square⟩ name) : name = "side" := by
  induction h with
  | reference hname =>
    rw [hsquare] at hname
    simpa using hname
  | through _ hrefers ih =>
    obtain ⟨x, hx, htarget⟩ := hrefers
    subst ih
    rcases find?_sideAndLoop hx with ⟨-, rfl⟩ | ⟨hname, -⟩
    · cases htarget
    · exact absurd hname (by decide)

theorem exists_of_references {ε : Type} {result : Except ε Arena} {names : List String}
    (h : result.toOption.map Arena.references = some names) :
    ∃ arena, result = .ok arena ∧ arena.references = names := by
  cases result with
  | error error => cases h
  | ok arena => exact ⟨arena, rfl, Option.some.inj h⟩

theorem eval_isOk_iff_square : ∃ square loop : Arena,
    Grammar.standard.compile "side * side" = .ok square ∧
    Grammar.standard.compile "1 + loop" = .ok loop ∧
    let context := sideAndLoop ⟨⟨1⟩, loop⟩
    context.callStack = .empty ∧ context.Coherent ∧ context.Compiled ∧
    (∃ value, ((Expression.mk ⟨2⟩ square).eval context).result = .ok value) ∧
    (¬ ∃ value, ((Expression.mk ⟨1⟩ loop).eval context).result = .ok value) ∧
    (Expression.mk ⟨2⟩ square).evalClosed = .error (.noContext "side") := by
  have hreferences :
      (Grammar.standard.compile "side * side").toOption.map Arena.references =
        some ["side", "side"] ∧
      (Grammar.standard.compile "1 + loop").toOption.map Arena.references = some ["loop"] := by
    decide +kernel
  obtain ⟨square, hsquare, hsides⟩ := exists_of_references hreferences.1
  obtain ⟨loop, hloop, hself⟩ := exists_of_references hreferences.2
  have hcontext := compiled_sideAndLoop (.text hloop)
  have hclosed : (Expression.mk ⟨2⟩ square).arena.Compiled := .text hsquare
  have hcyclic : (Expression.mk ⟨1⟩ loop).arena.Compiled := .text hloop
  have hvalue := Expression.eval_isOk_iff rfl coherent_sideAndLoop hcontext hclosed
  have hnone := Expression.eval_isOk_iff rfl coherent_sideAndLoop hcontext hcyclic
  refine ⟨square, loop, hsquare, hloop, rfl, coherent_sideAndLoop, hcontext, ?_, ?_, ?_⟩
  · refine hvalue.1.mpr ⟨fun name hname ↦ ?_, fun name hname hcycle ↦ ?_⟩
    · cases eq_side_of_reaches hsides hname
      exact ⟨_, rfl⟩
    · cases eq_side_of_reaches hsides hname
      obtain ⟨name, ⟨x, hx, htarget⟩, -⟩ := Relation.TransGen.head'_iff.mp hcycle
      rcases find?_sideAndLoop hx with ⟨-, rfl⟩ | ⟨hname, -⟩
      · cases htarget
      · exact absurd hname (by decide)
  · intro h
    have hmem : "loop" ∈ loop.references := by rw [hself]; exact List.mem_cons_self
    have hrefers : (sideAndLoop ⟨⟨1⟩, loop⟩).Refers "loop" "loop" := ⟨_, rfl, hmem⟩
    exact (hnone.1.mp h).2 "loop" (.reference hmem) (.single hrefers)
  · refine hvalue.2.2 "side" ?_
    rw [hsides]
    rfl

end Context

end Formulary
