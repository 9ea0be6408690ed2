import Formulary.Proofs.CacheTransparency
import Formulary.Studio

/-!
# How commands and requests run

A command first looks up what it is addressed to and then acts on what it has found. To show
something of what comes of a command, it is enough to show it where something is missing, in which
case nothing has changed, and where everything has been found. Each of the rules below says that for
one way to begin an action; `Studio.withGrammar_of` and its likes say it for requests.
-/

set_option autoImplicit false
set_option relaxedAutoImplicit false

namespace Formulary

namespace WorkspaceM

section Rules

variable {α β : Type} {workspace behind : Workspace} {P : Except Failure β × Workspace → Prop}

theorem run_bind_of_ok {x : WorkspaceM α} {a : α} (h : x.run workspace = (.ok a, behind))
    (f : α → WorkspaceM β) : (x >>= f).run workspace = (f a).run behind := by
  show ExceptT.bindCont f (x.run workspace).1 (x.run workspace).2 = _
  rw [h]
  rfl

theorem run_bind_of_error {x : WorkspaceM α} {failure : Failure}
    (h : x.run workspace = (.error failure, behind)) (f : α → WorkspaceM β) :
    (x >>= f).run workspace = (.error failure, behind) := by
  show ExceptT.bindCont f (x.run workspace).1 (x.run workspace).2 = _
  rw [h]
  rfl

theorem run_get_bind (f : Workspace → WorkspaceM β) :
    (get >>= f).run workspace = (f workspace).run workspace := rfl

theorem run_addressed {address : Address} {compiler : Compiler} {context : Context}
    (hcompiler : workspace.compilers[address.compiler]? = some compiler)
    (hcontext : workspace.contexts[address.context]? = some context)
    (next : Compiler × Context → WorkspaceM β) :
    (addressed address >>= next).run workspace = (next (compiler, context)).run workspace := by
  have h : (addressed address).run workspace = (.ok (compiler, context), workspace) := by
    rw [addressed, run_get_bind, hcompiler, hcontext]
    rfl
  exact run_bind_of_ok h next

theorem addressed_of {address : Address} {next : Compiler × Context → WorkspaceM β}
    (hmissing : ∀ failure, P (.error failure, workspace))
    (hfound : ∀ compiler context, workspace.compilers[address.compiler]? = some compiler →
      workspace.contexts[address.context]? = some context →
        P ((next (compiler, context)).run workspace)) :
    P ((addressed address >>= next).run workspace) := by
  cases hcompiler : workspace.compilers[address.compiler]? with
  | none =>
    have h : (addressed address).run workspace =
        (.error (.noCompiler address.compiler), workspace) := by
      rw [addressed, run_get_bind, hcompiler]
      rfl
    rw [run_bind_of_error h]
    exact hmissing _
  | some compiler =>
    cases hcontext : workspace.contexts[address.context]? with
    | none =>
      have h : (addressed address).run workspace =
          (.error (.noContext address.context), workspace) := by
        rw [addressed, run_get_bind, hcompiler, hcontext]
        rfl
      rw [run_bind_of_error h]
      exact hmissing _
    | some context =>
      rw [run_addressed hcompiler hcontext]
      exact hfound compiler context hcompiler hcontext

theorem kept_of {handle : String} {next : Expression → WorkspaceM β}
    (hmissing : ∀ failure, P (.error failure, workspace))
    (hfound : ∀ expression, workspace.expressions[handle]? = some expression →
      P ((next expression).run workspace)) : P ((kept handle >>= next).run workspace) := by
  cases hexpression : workspace.expressions[handle]? with
  | none =>
    have h : (kept handle).run workspace = (.error (.noExpression handle), workspace) := by
      rw [kept, run_get_bind, hexpression]
      rfl
    rw [run_bind_of_error h]
    exact hmissing _
  | some expression =>
    have h : (kept handle).run workspace = (.ok expression, workspace) := by
      rw [kept, run_get_bind, hexpression]
      rfl
    rw [run_bind_of_ok h]
    exact hfound expression hexpression

theorem ofExcept_of {result : Except Failure α} {next : α → WorkspaceM β}
    (herror : ∀ failure, result = .error failure → P (.error failure, workspace))
    (hok : ∀ a, result = .ok a → P ((next a).run workspace)) :
    P (((MonadExcept.ofExcept result : WorkspaceM α) >>= next).run workspace) := by
  cases result with
  | error failure => exact herror failure rfl
  | ok a => exact hok a rfl

/-- After a compilation, the compiler and the supply are those that it leaves. -/
theorem compiled_of {address : Address} {outcome : Except CompileError α × Compiler × Supply}
    {next : α → WorkspaceM β}
    (herror : ∀ error, outcome.1 = .error error → P (.error (.compile error), { workspace with
      compilers := workspace.compilers.insert address.compiler outcome.2.1
      supply := outcome.2.2 }))
    (hok : ∀ a, outcome.1 = .ok a → P ((next a).run { workspace with
      compilers := workspace.compilers.insert address.compiler outcome.2.1
      supply := outcome.2.2 })) : P ((compiled address outcome >>= next).run workspace) := by
  obtain ⟨result, compiler, supply⟩ := outcome
  cases result with
  | error error => exact herror error rfl
  | ok a => exact hok a rfl

/-- Behind a registration, the compiler is the one that it leaves. -/
theorem run_registered (address : Address) (outcome : Except RegistrationError Unit × Compiler) :
    (registered address outcome).run workspace =
      ((outcome.1.mapError Failure.registration).map fun _ ↦ Answer.done, { workspace with
        compilers := workspace.compilers.insert address.compiler outcome.2 }) := by
  obtain ⟨result, compiler⟩ := outcome
  cases result with
  | error error => rfl
  | ok _ => rfl

end Rules

end WorkspaceM

/-- The workspace with an expression kept under a name, if one is given. -/
def Workspace.keeping (workspace : Workspace) (expression : Expression) :
    Option String → Workspace
  | none => workspace
  | some handle => { workspace with
      expressions := workspace.expressions.insert handle expression }

/-- The workspace with the cache of a compiler emptied. -/
def Workspace.emptying (workspace : Workspace) (name : String) (compiler : Compiler) : Workspace :=
  { workspace with
    compilers := workspace.compilers.insert name { compiler with cache := compiler.cache.clear } }

theorem Workspace.supply_keeping (workspace : Workspace) (expression : Expression)
    (keepAs : Option String) :
    (workspace.keeping expression keepAs).supply = workspace.supply := by
  cases keepAs with
  | none => rfl
  | some handle => rfl

theorem WorkspaceM.run_keep (workspace : Workspace) (expression : Expression)
    (keepAs : Option String) : (keep expression keepAs).run workspace =
      (.ok (.expression expression), workspace.keeping expression keepAs) := by
  cases keepAs with
  | none => rfl
  | some handle => rfl

/-! ### Writing back what is there -/

theorem insert_of_getElem? {β : Type} {map : Std.ExtTreeMap String β} {name : String} {value : β}
    (h : map[name]? = some value) : map.insert name value = map := by
  refine Std.ExtTreeMap.ext_getElem? fun other ↦ ?_
  rw [Std.ExtTreeMap.getElem?_insert]
  split
  · rename_i hname
    rw [← Std.LawfulEqCmp.eq_of_compare hname, h]
  · rfl

/-! ### Requests -/

namespace Studio

variable {studio : Studio}

section Rules

variable {P : Outcome → Prop}

theorem withGrammar_of {name : String} {next : Grammar → Outcome}
    (hmissing : ∀ refusal, P (.error refusal, studio))
    (hfound : ∀ grammar, studio.grammars[name]? = some grammar → P (next grammar)) :
    P (studio.withGrammar name next) := by
  rw [withGrammar]
  cases hgrammar : studio.grammars[name]? with
  | none => exact hmissing _
  | some grammar => exact hfound grammar hgrammar

theorem withCompiler_of {name : String} {next : Compiler → Outcome}
    (hmissing : ∀ refusal, P (.error refusal, studio))
    (hfound : ∀ compiler, studio.workspace.compilers[name]? = some compiler → P (next compiler)) :
    P (studio.withCompiler name next) := by
  rw [withCompiler]
  cases hcompiler : studio.workspace.compilers[name]? with
  | none => exact hmissing _
  | some compiler => exact hfound compiler hcompiler

theorem tryGrammar_of {name : String} {change : Grammar → Except RegistrationError Grammar}
    (hfails : ∀ refusal, P (.error refusal, studio))
    (hkept : ∀ grammar, P (studio.keepGrammar name grammar)) :
    P (studio.tryGrammar name change) := by
  refine withGrammar_of hfails fun grammar _ ↦ ?_
  cases hchange : change grammar with
  | error error => simpa only [hchange] using hfails _
  | ok changed => simpa only [hchange] using hkept changed

end Rules

theorem steps_cons (studio : Studio) (request : Request) (others : List Request) :
    studio.steps (request :: others) =
      ((studio.step request).1 :: ((studio.step request).2.steps others).1,
        ((studio.step request).2.steps others).2) := rfl

theorem steps_append (studio : Studio) (before after : List Request) :
    studio.steps (before ++ after) =
      ((studio.steps before).1 ++ ((studio.steps before).2.steps after).1,
        ((studio.steps before).2.steps after).2) := by
  induction before generalizing studio with
  | nil => rfl
  | cons request before ih => rw [List.cons_append, steps_cons, ih, steps_cons, List.cons_append]

theorem perform_eq (action : WorkspaceM Answer) :
    studio.perform action = ((action.run studio.workspace).1.mapError .failed,
      { studio with workspace := (action.run studio.workspace).2 }) := rfl

end Studio

end Formulary
