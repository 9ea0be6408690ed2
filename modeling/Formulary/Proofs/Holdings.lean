import Formulary.Proofs.Commands
import Formulary.Proofs.Recursion
import Formulary.Proofs.Restoration

/-!
# What a workspace holds

Expressions are held in many places: under names of a workspace, in its contexts, and in the caches
of its compilers (`Workspace.Holds`), and copies go from each of these places to others.

Main statement: a request adds nothing to what is held but copies, and at most one expression that
is drawn from the supply (`Studio.grows_step`). It is shown for any set of expressions which holds
everything at first, one case a command. So all that is ever held was made of numbers or of what
compiles (`Studio.compiled_steps`).
-/

set_option autoImplicit false
set_option relaxedAutoImplicit false

namespace Formulary

/-! ### What is held -/

/-- Whether the workspace holds the expression somewhere. -/
inductive Workspace.Holds (workspace : Workspace) (x : Expression) : Prop
  /-- The expression is kept under a name. -/
  | handle {name : String} (h : workspace.expressions[name]? = some x)
  /-- A context binds a name to the expression. -/
  | binding {name bound : String} {context : Context}
    (hcontext : workspace.contexts[name]? = some context) (h : context.find? bound = some x)
  /-- A compiler has the expression in its cache. -/
  | cache {name text : String} {compiler : Compiler}
    (hcompiler : workspace.compilers[name]? = some compiler)
    (h : (text, x) ∈ compiler.cache.entries)

/-- Whether everything that the context binds is in the set. -/
def Context.BindsOnly (context : Context) (S : Expression → Prop) : Prop :=
  ∀ ⦃name : String⦄ ⦃x : Expression⦄, context.find? name = some x → S x

/-- Whether everything that is in the cache is in the set. -/
def Cache.KeepsOnly (cache : Cache) (S : Expression → Prop) : Prop :=
  ∀ ⦃text : String⦄ ⦃x : Expression⦄, (text, x) ∈ cache.entries → S x

/-- Whether everything that the workspace holds is in the set. -/
def Workspace.HoldsOnly (workspace : Workspace) (S : Expression → Prop) : Prop :=
  ∀ ⦃x : Expression⦄, workspace.Holds x → S x

section Sets

variable {S T : Expression → Prop} {x : Expression}

theorem Context.bindsOnly_empty : Context.empty.BindsOnly S := by
  intro name x h
  rw [find?_empty] at h
  cases h

theorem Context.find?_of_mapError_get {context : Context} {name : String} {ε : Type}
    {f : EvalError → ε} (h : (context.get name).mapError f = .ok x) :
    context.find? name = some x := by
  rw [get] at h
  cases hfind : context.find? name with
  | none =>
    rw [hfind] at h
    cases h
  | some y =>
    rw [hfind] at h
    exact congrArg some (Except.ok.inj h)

theorem Context.BindsOnly.add {context : Context} (h : context.BindsOnly S) (bound : String)
    (hx : S x) : (context.add bound x).BindsOnly S := by
  intro name y hy
  rw [find?_add] at hy
  split at hy
  · cases hy
    exact hx
  · exact h hy

theorem Context.BindsOnly.delete {context : Context} (h : context.BindsOnly S) (unbound : String) :
    (context.delete unbound).BindsOnly S := by
  intro name y hy
  rw [find?_delete] at hy
  split at hy
  · cases hy
  · exact h hy

theorem Cache.keepsOnly_empty (capacity : Nat) : (Cache.empty capacity).KeepsOnly S :=
  fun _ _ h ↦ by cases h

theorem Cache.KeepsOnly.put {cache : Cache} (h : cache.KeepsOnly S) (text : String) (hx : S x) :
    (cache.put text x).KeepsOnly S := by
  intro other y hy
  rcases mem_put hy with hsame | hold
  · cases hsame
    exact hx
  · exact h hold

namespace Workspace.HoldsOnly

variable {workspace : Workspace}

theorem mono (h : workspace.HoldsOnly S) (hsub : ∀ y, S y → T y) : workspace.HoldsOnly T :=
  fun y hy ↦ hsub y (h hy)

theorem context (h : workspace.HoldsOnly S) {name : String} {context : Context}
    (hcontext : workspace.contexts[name]? = some context) : context.BindsOnly S :=
  fun _ _ hy ↦ h (.binding hcontext hy)

theorem cache (h : workspace.HoldsOnly S) {name : String} {compiler : Compiler}
    (hcompiler : workspace.compilers[name]? = some compiler) : compiler.cache.KeepsOnly S :=
  fun _ _ hy ↦ h (.cache hcompiler hy)

theorem setSupply (h : workspace.HoldsOnly S) (supply : Supply) :
    HoldsOnly { workspace with supply := supply } S := by
  intro y hy
  cases hy with
  | handle hy => exact h (.handle hy)
  | binding hcontext hy => exact h (.binding hcontext hy)
  | cache hcompiler hy => exact h (.cache hcompiler hy)

theorem setCompiler (h : workspace.HoldsOnly S) (name : String) {compiler : Compiler}
    (hcache : compiler.cache.KeepsOnly S) :
    HoldsOnly { workspace with compilers := workspace.compilers.insert name compiler } S := by
  intro y hy
  cases hy with
  | handle hy => exact h (.handle hy)
  | binding hcontext hy => exact h (.binding hcontext hy)
  | cache hcompiler hy =>
    rw [Std.ExtTreeMap.getElem?_insert] at hcompiler
    split at hcompiler
    · cases hcompiler
      exact hcache hy
    · exact h (.cache hcompiler hy)

theorem setContext (h : workspace.HoldsOnly S) (name : String) {context : Context}
    (hbinds : context.BindsOnly S) :
    HoldsOnly { workspace with contexts := workspace.contexts.insert name context } S := by
  intro y hy
  cases hy with
  | handle hy => exact h (.handle hy)
  | binding hcontext hy =>
    rw [Std.ExtTreeMap.getElem?_insert] at hcontext
    split at hcontext
    · cases hcontext
      exact hbinds hy
    · exact h (.binding hcontext hy)
  | cache hcompiler hy => exact h (.cache hcompiler hy)

theorem keeping (h : workspace.HoldsOnly S) (hx : S x) (keepAs : Option String) :
    (workspace.keeping x keepAs).HoldsOnly S := by
  cases keepAs with
  | none => exact h
  | some handle =>
    intro y hy
    cases hy with
    | handle hy =>
      rw [Workspace.keeping, Std.ExtTreeMap.getElem?_insert] at hy
      split at hy
      · cases hy
        exact hx
      · exact h (.handle hy)
    | binding hcontext hy => exact h (.binding hcontext hy)
    | cache hcompiler hy => exact h (.cache hcompiler hy)

end Workspace.HoldsOnly

end Sets

/-! ### What a command adds -/

/-- What may be drawn from a supply: nothing, or one expression, which joins those of the set. It is
made of a number or of what compiles. -/
inductive Supply.Draws (supply : Supply) (S : Expression → Prop) :
    (Expression → Prop) → Supply → Prop
  | nothing : Draws supply S S supply
  | one {arena : Arena} (h : arena.Compiled) :
    Draws supply S (fun x ↦ S x ∨ x = (supply.issue arena).1) (supply.issue arena).2

/-- Whether, from a set and a supply, a workspace has been reached that holds nothing else but what
was drawn. -/
def Workspace.Grows (S : Expression → Prop) (supply : Supply) (behind : Workspace) : Prop :=
  ∃ T, supply.Draws S T behind.supply ∧ behind.HoldsOnly T

section Grows

variable {S T : Expression → Prop} {workspace : Workspace}

open WorkspaceM Workspace

theorem Supply.Draws.subset {supply left : Supply} (h : supply.Draws S T left) :
    ∀ x, S x → T x := by
  cases h with
  | nothing => exact fun x hx ↦ hx
  | one harena => exact fun x hx ↦ Or.inl hx

/-- A compiler that compiles a text draws no more than the expression that it answers. -/
theorem Compiler.exists_draws_compile {compiler : Compiler} (h : compiler.cache.KeepsOnly S)
    (supply : Supply) (text : String) :
    ∃ T, supply.Draws S T (compiler.compile supply text).2.2 ∧
      (compiler.compile supply text).2.1.cache.KeepsOnly T ∧
      ∀ x, (compiler.compile supply text).1 = .ok x → T x := by
  rcases compile_cases compiler supply text with ⟨x, hfind, hcompile⟩ | ⟨error, -, -, hcompile⟩ |
    ⟨arena, -, harena, hcompile⟩
  · have hx : S x := h (Cache.mem_of_find? hfind)
    rw [hcompile]
    exact ⟨S, .nothing, h.put text hx, fun y hy ↦ Except.ok.inj hy ▸ hx⟩
  · rw [hcompile]
    exact ⟨S, .nothing, h, fun y hy ↦ by cases hy⟩
  · have hold : compiler.cache.KeepsOnly fun x ↦ S x ∨ x = (supply.issue arena).1 :=
      fun _ _ hy ↦ Or.inl (h hy)
    rw [hcompile]
    exact ⟨_, .one (.text harena), hold.put text (Or.inr rfl),
      fun y hy ↦ Or.inr (Except.ok.inj hy).symm⟩

theorem grows_compile (h : workspace.HoldsOnly S) (address : Address) (text : String)
    (keepAs : Option String) :
    Grows S workspace.supply ((perform address (.compile text keepAs)).run workspace).2 := by
  refine addressed_of (P := fun outcome ↦ Grows S workspace.supply outcome.2)
    (fun _ ↦ ⟨S, .nothing, h⟩) fun compiler context hcompiler _ ↦ ?_
  obtain ⟨T, hdraws, hcache, hresult⟩ :=
    Compiler.exists_draws_compile (h.cache hcompiler) workspace.supply text
  have hT := h.mono hdraws.subset
  show Grows S workspace.supply ((compiled address (compiler.compile workspace.supply text) >>=
    fun expression ↦ keep expression keepAs).run workspace).2
  refine compiled_of (P := fun outcome ↦ Grows S workspace.supply outcome.2)
    (fun _ _ ↦ ⟨T, hdraws, (hT.setCompiler _ hcache).setSupply _⟩) fun x hx ↦ ?_
  rw [run_keep]
  refine ⟨T, ?_, ((hT.setCompiler _ hcache).setSupply _).keeping (hresult x hx) keepAs⟩
  rw [supply_keeping]
  exact hdraws

theorem grows_compileAndAdd (h : workspace.HoldsOnly S) (address : Address) (name text : String) :
    Grows S workspace.supply ((perform address (.compileAndAdd name text)).run workspace).2 := by
  refine addressed_of (P := fun outcome ↦ Grows S workspace.supply outcome.2)
    (fun _ ↦ ⟨S, .nothing, h⟩) fun compiler context hcompiler hcontext ↦ ?_
  obtain ⟨T, hdraws, hcache, hresult⟩ :=
    Compiler.exists_draws_compile (h.cache hcompiler) workspace.supply text
  have hT := h.mono hdraws.subset
  have hbehind := (hT.setCompiler address.compiler hcache).setSupply
    (compiler.compile workspace.supply text).2.2
  show Grows S workspace.supply ((compiled address
    (compiler.compileAndAdd workspace.supply context name text) >>= fun context ↦ do
      setContext address.context context
      return Answer.size context.size).run workspace).2
  refine compiled_of (P := fun outcome ↦ Grows S workspace.supply outcome.2)
    (fun _ _ ↦ ⟨T, hdraws, hbehind⟩) fun next hnext ↦ ?_
  obtain ⟨x, hx, rfl⟩ := Context.exists_of_compileAndAdd_eq_ok hnext
  have hcontext : context.BindsOnly T := fun _ _ hy ↦ hT (.binding hcontext hy)
  exact ⟨T, hdraws, hbehind.setContext address.context (hcontext.add name (hresult x hx))⟩

theorem grows_issue (h : workspace.HoldsOnly S) {arena : Arena} (harena : arena.Compiled)
    (keepAs : Option String) :
    Grows S workspace.supply ({ workspace with
      supply := (workspace.supply.issue arena).2 }.keeping (workspace.supply.issue arena).1
        keepAs) := by
  have hgrown : workspace.HoldsOnly fun x ↦ S x ∨ x = (workspace.supply.issue arena).1 :=
    h.mono fun x hx ↦ Or.inl hx
  refine ⟨_, ?_, (hgrown.setSupply _).keeping (Or.inr rfl) keepAs⟩
  rw [supply_keeping]
  exact .one harena

theorem grows_built (h : workspace.HoldsOnly S) (grammar : Grammar) (text : String)
    (keepAs : Option String) :
    Grows S workspace.supply ((Studio.built grammar text keepAs).run workspace).2 := by
  rw [Studio.built, run_get_bind]
  cases hcompile : grammar.compile text with
  | error error =>
    rw [Compiler.build_eq_error hcompile]
    exact ⟨S, .nothing, h⟩
  | ok arena =>
    rw [Compiler.build_eq_ok hcompile]
    show Grows S workspace.supply ((keep (workspace.supply.issue arena).1 keepAs).run
      { workspace with supply := (workspace.supply.issue arena).2 }).2
    rw [run_keep]
    exact grows_issue h (.text hcompile) keepAs

theorem grows_registered (h : workspace.HoldsOnly S) (address : Address) (compiler : Compiler)
    (change : Grammar → Except RegistrationError Grammar) :
    Grows S workspace.supply
      ((registered address (compiler.tryGrammar change)).run workspace).2 := by
  rw [run_registered]
  refine ⟨S, .nothing, h.setCompiler _ ?_⟩
  rw [Compiler.cache_tryGrammar]
  exact Cache.keepsOnly_empty _

/-- Assumes: what an action leaves when it has found what it is addressed to. -/
theorem grows_addressed (h : workspace.HoldsOnly S) {address : Address}
    {next : Compiler × Context → WorkspaceM Answer}
    (hnext : ∀ compiler context, workspace.compilers[address.compiler]? = some compiler →
      workspace.contexts[address.context]? = some context →
        Grows S workspace.supply ((next (compiler, context)).run workspace).2) :
    Grows S workspace.supply ((addressed address >>= next).run workspace).2 :=
  addressed_of (P := fun outcome ↦ Grows S workspace.supply outcome.2)
    (fun _ ↦ ⟨S, .nothing, h⟩) hnext

/-- A command adds at most one expression to those that are held, and takes it from the supply. -/
theorem grows_perform (h : workspace.HoldsOnly S) (address : Address) (command : Command) :
    Grows S workspace.supply ((perform address command).run workspace).2 := by
  have hsame : Grows S workspace.supply workspace := ⟨S, .nothing, h⟩
  cases command with
  | newCompiler grammar capacity =>
    exact ⟨S, .nothing, h.setCompiler _ (Cache.keepsOnly_empty capacity)⟩
  | newContext => exact ⟨S, .nothing, h.setContext _ Context.bindsOnly_empty⟩
  | literal value keepAs =>
    have hrun : (perform address (.literal value keepAs)).run workspace =
        (keep (workspace.supply.issue (.literal value)).1 keepAs).run { workspace with
          supply := (workspace.supply.issue (.literal value)).2 } := rfl
    rw [hrun, run_keep]
    exact grows_issue h (.literal value) keepAs
  | compile text keepAs => exact grows_compile h address text keepAs
  | build text keepAs =>
    exact grows_addressed h fun compiler _ _ _ ↦ grows_built h compiler.grammar text keepAs
  | registerOperator o =>
    exact grows_addressed h fun compiler _ _ _ ↦
      grows_registered h address compiler (·.registerOperator o)
  | registerFunction f =>
    exact grows_addressed h fun compiler _ _ _ ↦
      grows_registered h address compiler (·.registerFunction f)
  | removeFunction name =>
    exact grows_addressed h fun compiler _ _ _ ↦
      ⟨S, .nothing, h.setCompiler _ (Cache.keepsOnly_empty compiler.cache.capacity)⟩
  | touchGrammar =>
    exact grows_addressed h fun compiler _ _ _ ↦
      ⟨S, .nothing, h.setCompiler _ (Cache.keepsOnly_empty compiler.cache.capacity)⟩
  | function name => exact grows_addressed h fun _ _ _ _ ↦ hsame
  | lex text => exact grows_addressed h fun _ _ _ _ ↦ hsame
  | tree handle =>
    exact kept_of (P := fun outcome ↦ Grows S workspace.supply outcome.2) (fun _ ↦ hsame)
      fun _ _ ↦ hsame
  | add name handle =>
    refine grows_addressed h fun _ context _ hcontext ↦ ?_
    exact kept_of (P := fun outcome ↦ Grows S workspace.supply outcome.2) (fun _ ↦ hsame)
      fun x hx ↦ ⟨S, .nothing, h.setContext _ ((h.context hcontext).add name (h (.handle hx)))⟩
  | setValue name value =>
    refine grows_addressed h fun _ context _ hcontext ↦ ?_
    have hgrown : workspace.HoldsOnly fun x ↦
        S x ∨ x = (workspace.supply.issue (.literal value)).1 := h.mono fun x hx ↦ Or.inl hx
    exact ⟨_, .one (.literal value), (hgrown.setSupply _).setContext address.context
      ((hgrown.context hcontext).add name (Or.inr rfl))⟩
  | compileAndAdd name text => exact grows_compileAndAdd h address name text
  | delete name =>
    exact grows_addressed h fun _ context _ hcontext ↦
      ⟨S, .nothing, h.setContext _ ((h.context hcontext).delete name)⟩
  | contains name => exact grows_addressed h fun _ _ _ _ ↦ hsame
  | size => exact grows_addressed h fun _ _ _ _ ↦ hsame
  | get name keepAs =>
    refine grows_addressed h fun _ context _ hcontext ↦ ?_
    refine ofExcept_of (P := fun outcome ↦ Grows S workspace.supply outcome.2)
      (fun _ _ ↦ hsame) fun x hx ↦ ?_
    rw [run_keep]
    refine ⟨S, ?_, h.keeping (h.context hcontext (Context.find?_of_mapError_get hx)) keepAs⟩
    rw [supply_keeping]
    exact .nothing
  | copyContext copyAs =>
    exact grows_addressed h fun _ context _ hcontext ↦
      ⟨S, .nothing, h.setContext copyAs (h.context hcontext)⟩
  | eval handle =>
    refine grows_addressed h fun _ context _ hcontext ↦ ?_
    refine kept_of (P := fun outcome ↦ Grows S workspace.supply outcome.2) (fun _ ↦ hsame)
      fun x _ ↦ ⟨S, .nothing, h.setContext _ ?_⟩
    rw [x.context_eval]
    exact h.context hcontext
  | evalClosed handle =>
    refine grows_addressed h fun _ _ _ _ ↦ ?_
    refine kept_of (P := fun outcome ↦ Grows S workspace.supply outcome.2) (fun _ ↦ hsame)
      fun x _ ↦ ?_
    exact ofExcept_of (P := fun outcome ↦ Grows S workspace.supply outcome.2)
      (fun _ _ ↦ hsame) fun _ _ ↦ hsame

/-- A request adds at most one expression to those that are held, and takes it from the supply. -/
theorem Studio.grows_step {studio : Studio} (h : studio.workspace.HoldsOnly S) (request : Request) :
    Grows S studio.workspace.supply (studio.step request).2.workspace := by
  have hsame : Grows S studio.workspace.supply studio.workspace := ⟨S, .nothing, h⟩
  let P : Outcome → Prop := fun outcome ↦ Grows S studio.workspace.supply outcome.2.workspace
  have hmissing : ∀ refusal, P (.error refusal, studio) := fun _ ↦ hsame
  cases request with
  | command address command => exact grows_perform h address command
  | newGrammar name grammar => exact hsame
  | copyGrammar name copyAs => exact withGrammar_of (P := P) hmissing fun _ _ ↦ hsame
  | takeGrammar compiler copyAs => exact withCompiler_of (P := P) hmissing fun _ _ ↦ hsame
  | registerOperator name o => exact tryGrammar_of (P := P) hmissing fun _ ↦ hsame
  | registerFunction name f => exact tryGrammar_of (P := P) hmissing fun _ ↦ hsame
  | removeFunction name function => exact withGrammar_of (P := P) hmissing fun _ _ ↦ hsame
  | newCompiler name compiler capacity =>
    exact withGrammar_of (P := P) hmissing fun _ _ ↦
      ⟨S, .nothing, h.setCompiler _ (Cache.keepsOnly_empty capacity)⟩
  | replaceGrammar name compiler =>
    exact withGrammar_of (P := P) hmissing fun _ _ ↦
      withCompiler_of (P := P) hmissing fun owner _ ↦
        ⟨S, .nothing, h.setCompiler _ (Cache.keepsOnly_empty owner.cache.capacity)⟩
  | build name text keepAs =>
    exact withGrammar_of (P := P) hmissing fun grammar _ ↦ grows_built h grammar text keepAs
  | copyExpression handle copyAs =>
    refine kept_of (P := fun outcome ↦ Grows S studio.workspace.supply outcome.2) (fun _ ↦ hsame)
      fun x hx ↦ ?_
    rw [run_keep]
    exact ⟨S, .nothing, h.keeping (h (.handle hx)) (some copyAs)⟩

end Grows

/-! ### From the beginning on -/

theorem Workspace.not_holds_initial (draw : Float) (x : Expression) :
    ¬ (Workspace.initial draw).Holds x := by
  intro hx
  cases hx with
  | handle h => simp [Workspace.initial] at h
  | binding hcontext h =>
    rw [Workspace.initial, Std.ExtTreeMap.getElem?_insert] at hcontext
    split at hcontext
    · cases hcontext
      cases h
    · simp at hcontext
  | cache hcompiler h =>
    rw [Workspace.initial, Std.ExtTreeMap.getElem?_insert] at hcompiler
    split at hcompiler
    · cases hcompiler
      cases h
    · simp at hcompiler

/-- Everything that a workspace comes to hold was made of a number or of what compiles. -/
theorem Studio.compiled_steps {studio : Studio}
    (h : studio.workspace.HoldsOnly fun x ↦ x.arena.Compiled) (requests : List Request) :
    (studio.steps requests).2.workspace.HoldsOnly fun x ↦ x.arena.Compiled := by
  induction requests generalizing studio with
  | nil => exact h
  | cons request others ih =>
    obtain ⟨T, hdraws, hT⟩ := Studio.grows_step h request
    refine ih (hT.mono fun x hx ↦ ?_)
    generalize (studio.step request).2.workspace.supply = left at hdraws
    cases hdraws with
    | nothing => exact hx
    | one harena =>
      rcases hx with hold | rfl
      · exact hold
      · exact harena

end Formulary
