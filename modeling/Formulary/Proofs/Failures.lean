import Formulary.Proofs.Commands
import Formulary.Proofs.Restoration

/-!
# Failures leave no trace

A command or a request fails if it is refused, or if it evaluates an expression that has no value.

Main statement: every request that fails, but for the registrations with a compiler, can be left out
of a run. The other requests are answered as before, and what is behind the run is the same. A
registration with a compiler that fails empties the cache of the compiler, and that is all.

What carries it is that behind a command that fails, the workspace is as it was
(`Workspace.undone_perform`). A command writes back what it has found, also when it fails, and that
changes nothing.
-/

set_option autoImplicit false
set_option relaxedAutoImplicit false

namespace Formulary

/-! ### Commands that fail -/

/-- Whether the answer tells of an evaluation without a value. -/
def Answer.hasFailed : Answer → Bool
  | .evaluation outcome => !outcome.result.isOk
  | _ => false

/-- Whether there is no answer, or one that tells of an evaluation without a value. -/
def failed {ε : Type} : Except ε Answer → Bool
  | .error _ => true
  | .ok answer => answer.hasFailed

@[simp] theorem failed_mapError {ε ε' : Type} (result : Except ε Answer) (f : ε → ε') :
    failed (result.mapError f) = failed result := by
  cases result with
  | error error => rfl
  | ok answer => rfl

/-- Whether the command extends the grammar of a compiler. -/
def Command.registers : Command → Bool
  | .registerOperator _ => true
  | .registerFunction _ => true
  | _ => false

/-- What an outcome must be to leave no trace: behind a failure, the state is as it was. -/
def Undone {σ ε : Type} (state : σ) (outcome : Except ε Answer × σ) : Prop :=
  failed outcome.1 = true → outcome.2 = state

section Undone

variable {σ ε : Type} {state : σ} {workspace : Workspace}

open WorkspaceM

theorem undone_self (result : Except ε Answer) : Undone state (result, state) := fun _ ↦ rfl

theorem undone_ok {answer : Answer} (h : answer.hasFailed = false) (behind : σ) :
    Undone state ((.ok answer : Except ε Answer), behind) := by
  intro hfailed
  rw [failed, h] at hfailed
  cases hfailed

theorem Workspace.undone_keep (behind : Workspace) (expression : Expression)
    (keepAs : Option String) : Undone workspace ((keep expression keepAs).run behind) := by
  rw [run_keep]
  exact undone_ok rfl _

theorem Compiler.compile_eq_error_of_compileAndAdd {compiler : Compiler} {supply : Supply}
    {context : Context} {name text : String} {error : CompileError}
    (h : (compiler.compileAndAdd supply context name text).1 = .error error) :
    (compiler.compile supply text).1 = .error error := by
  rw [compileAndAdd] at h
  cases hresult : (compiler.compile supply text).1 with
  | error other =>
    simp only [hresult, Except.map] at h
    exact congrArg Except.error (Except.error.inj h)
  | ok expression =>
    simp only [hresult, Except.map] at h
    cases h

/-- Assumes: an action that begins with a compilation, from which it cannot fail any more. A text
that does not compile leaves the compiler and the supply as they are. -/
theorem Workspace.undone_compiled {α : Type} {address : Address} {compiler : Compiler}
    {text : String} {outcome : Except CompileError α × Compiler × Supply}
    {next : α → WorkspaceM Answer}
    (hcompiler : workspace.compilers[address.compiler]? = some compiler)
    (houtcome : outcome.2 = (compiler.compile workspace.supply text).2)
    (herror : ∀ error, outcome.1 = .error error →
      (compiler.compile workspace.supply text).1 = .error error)
    (hnext : ∀ a behind, Undone workspace ((next a).run behind)) :
    Undone workspace ((compiled address outcome >>= next).run workspace) := by
  refine compiled_of (P := Undone workspace) (fun error hfails ↦ ?_) fun a _ ↦ hnext a _
  rcases Compiler.compile_cases compiler workspace.supply text with ⟨x, -, hcompile⟩ |
    ⟨_, -, -, hcompile⟩ | ⟨arena, -, -, hcompile⟩
  · have h := herror error hfails
    rw [hcompile] at h
    cases h
  · rw [houtcome, hcompile, insert_of_getElem? hcompiler]
    exact undone_self _
  · have h := herror error hfails
    rw [hcompile] at h
    cases h

theorem Workspace.undone_built (grammar : Grammar) (text : String) (keepAs : Option String) :
    Undone workspace ((Studio.built grammar text keepAs).run workspace) := by
  rw [Studio.built, run_get_bind]
  exact ofExcept_of (P := Undone workspace) (fun _ _ ↦ undone_self _)
    fun built _ ↦ undone_keep _ built.1 keepAs

/-- Assumes: what an action leaves when it has found what it is addressed to. -/
theorem Workspace.undone_addressed {address : Address}
    {next : Compiler × Context → WorkspaceM Answer}
    (hnext : ∀ compiler context, workspace.compilers[address.compiler]? = some compiler →
      workspace.contexts[address.context]? = some context →
        Undone workspace ((next (compiler, context)).run workspace)) :
    Undone workspace ((addressed address >>= next).run workspace) :=
  addressed_of (P := Undone workspace) (fun _ ↦ undone_self _) hnext

/-- A command that fails changes nothing, unless it is a registration. -/
theorem Workspace.undone_perform {command : Command} (h : command.registers = false)
    (address : Address) : Undone workspace ((perform address command).run workspace) := by
  cases command with
  | newCompiler grammar capacity => exact undone_ok rfl _
  | newContext => exact undone_ok rfl _
  | literal value keepAs => exact undone_keep _ _ keepAs
  | compile text keepAs =>
    exact undone_addressed fun compiler _ hcompiler _ ↦
      undone_compiled hcompiler rfl (fun _ h ↦ h) fun x behind ↦
        undone_keep behind x keepAs
  | build text keepAs =>
    exact undone_addressed fun compiler _ _ _ ↦ undone_built compiler.grammar text keepAs
  | registerOperator o => cases h
  | registerFunction f => cases h
  | removeFunction name => exact undone_addressed fun _ _ _ _ ↦ undone_ok rfl _
  | touchGrammar => exact undone_addressed fun _ _ _ _ ↦ undone_ok rfl _
  | function name => exact undone_addressed fun _ _ _ _ ↦ undone_self _
  | lex text => exact undone_addressed fun _ _ _ _ ↦ undone_self _
  | tree handle =>
    exact kept_of (P := Undone workspace) (fun _ ↦ undone_self _) fun _ _ ↦ undone_self _
  | add name handle =>
    refine undone_addressed fun _ _ _ _ ↦ ?_
    exact kept_of (P := Undone workspace) (fun _ ↦ undone_self _) fun _ _ ↦ undone_ok rfl _
  | setValue name value => exact undone_addressed fun _ _ _ _ ↦ undone_ok rfl _
  | compileAndAdd name text =>
    refine undone_addressed fun compiler _ hcompiler _ ↦ ?_
    exact undone_compiled hcompiler rfl
      (fun _ h ↦ Compiler.compile_eq_error_of_compileAndAdd h) fun _ _ ↦ undone_ok rfl _
  | delete name => exact undone_addressed fun _ _ _ _ ↦ undone_ok rfl _
  | contains name => exact undone_addressed fun _ _ _ _ ↦ undone_self _
  | size => exact undone_addressed fun _ _ _ _ ↦ undone_self _
  | get name keepAs =>
    refine undone_addressed fun _ _ _ _ ↦ ?_
    exact ofExcept_of (P := Undone workspace) (fun _ _ ↦ undone_self _)
      fun x _ ↦ undone_keep _ x keepAs
  | copyContext copyAs => exact undone_addressed fun _ _ _ _ ↦ undone_ok rfl _
  | eval handle =>
    refine undone_addressed fun _ context _ hcontext ↦ ?_
    refine kept_of (P := Undone workspace) (fun _ ↦ undone_self _) fun x _ _ ↦ ?_
    show { workspace with
      contexts := workspace.contexts.insert address.context (x.eval context).context } = workspace
    rw [x.context_eval, insert_of_getElem? hcontext]
  | evalClosed handle =>
    refine undone_addressed fun _ _ _ _ ↦ ?_
    refine kept_of (P := Undone workspace) (fun _ ↦ undone_self _) fun _ _ ↦ ?_
    exact ofExcept_of (P := Undone workspace) (fun _ _ ↦ undone_self _) fun _ _ ↦ undone_self _

/-- Assumes: a registration, and what it is addressed to. If it fails, the cache of the compiler is
empty behind it, and nothing else has changed. -/
theorem Workspace.run_of_registers {address : Address} {command : Command} {compiler : Compiler}
    {context : Context} (h : command.registers = true)
    (hcompiler : workspace.compilers[address.compiler]? = some compiler)
    (hcontext : workspace.contexts[address.context]? = some context)
    (hfails : failed ((perform address command).run workspace).1 = true) :
    ((perform address command).run workspace).2 =
      workspace.emptying address.compiler compiler := by
  have htry : ∀ change : Grammar → Except RegistrationError Grammar,
      failed ((registered address (compiler.tryGrammar change)).run workspace).1 = true →
        ((registered address (compiler.tryGrammar change)).run workspace).2 =
          workspace.emptying address.compiler compiler := by
    intro change hrun
    rw [run_registered, Compiler.tryGrammar] at hrun ⊢
    cases hchange : change compiler.grammar with
    | error error => rfl
    | ok grammar =>
      rw [hchange] at hrun
      cases hrun
  cases command with
  | registerOperator o =>
    rw [perform, run_addressed hcompiler hcontext] at hfails ⊢
    exact htry (·.registerOperator o) hfails
  | registerFunction f =>
    rw [perform, run_addressed hcompiler hcontext] at hfails ⊢
    exact htry (·.registerFunction f) hfails
  | _ => cases h

theorem Workspace.supply_of_registers {command : Command} (h : command.registers = true)
    (address : Address) :
    ((perform address command).run workspace).2.supply = workspace.supply := by
  cases command with
  | registerOperator o =>
    refine addressed_of (P := fun outcome ↦ outcome.2.supply = workspace.supply) (fun _ ↦ rfl)
      fun compiler _ _ _ ↦ ?_
    exact congrArg (fun outcome ↦ outcome.2.supply)
      (run_registered address (compiler.registerOperator o))
  | registerFunction f =>
    refine addressed_of (P := fun outcome ↦ outcome.2.supply = workspace.supply) (fun _ ↦ rfl)
      fun compiler _ _ _ ↦ ?_
    exact congrArg (fun outcome ↦ outcome.2.supply)
      (run_registered address (compiler.registerFunction f))
  | _ => cases h

end Undone

/-! ### Requests that are refused -/

/-- Whether the request extends the grammar of a compiler. -/
def Request.registers : Request → Bool
  | .command _ asked => asked.registers
  | _ => false

namespace Studio

variable {studio : Studio}

theorem undone_of_workspace {action : WorkspaceM Answer}
    (h : Undone studio.workspace (action.run studio.workspace)) :
    Undone studio (studio.perform action) := by
  intro hfailed
  rw [perform_eq] at hfailed ⊢
  rw [failed_mapError] at hfailed
  exact congrArg (fun behind ↦ { studio with workspace := behind }) (h hfailed)

/-- A request that is refused changes nothing, unless it extends the grammar of a compiler. -/
theorem undone_step {request : Request} (h : request.registers = false) :
    Undone studio (studio.step request) := by
  let P : Outcome → Prop := Undone studio
  have hself : ∀ refusal, P (.error refusal, studio) := fun _ ↦ undone_self _
  cases request with
  | command address command => exact undone_of_workspace (Workspace.undone_perform h address)
  | newGrammar name grammar => exact undone_ok rfl _
  | copyGrammar name copyAs =>
    exact withGrammar_of (P := P) hself fun _ _ ↦ undone_ok rfl _
  | takeGrammar compiler copyAs => exact withCompiler_of (P := P) hself fun _ _ ↦ undone_ok rfl _
  | registerOperator name o => exact tryGrammar_of (P := P) hself fun _ ↦ undone_ok rfl _
  | registerFunction name f => exact tryGrammar_of (P := P) hself fun _ ↦ undone_ok rfl _
  | removeFunction name function => exact withGrammar_of (P := P) hself fun _ _ ↦ undone_ok rfl _
  | newCompiler name compiler capacity =>
    exact withGrammar_of (P := P) hself fun _ _ ↦ undone_ok rfl _
  | replaceGrammar name compiler =>
    exact withGrammar_of (P := P) hself fun _ _ ↦
      withCompiler_of (P := P) hself fun _ _ ↦ undone_ok rfl _
  | build name text keepAs =>
    exact withGrammar_of (P := P) hself fun grammar _ ↦
      undone_of_workspace (Workspace.undone_built grammar text keepAs)
  | copyExpression handle copyAs =>
    exact undone_of_workspace (WorkspaceM.kept_of (P := Undone studio.workspace)
      (fun _ ↦ undone_self _) fun x _ ↦ Workspace.undone_keep _ x (some copyAs))

/-! ### Runs without the failures -/

/-- Whether those requests of a run that are marked fail in it, and none of them is a registration
with a compiler. -/
def Omits (studio : Studio) : List (Request × Bool) → Prop
  | [] => True
  | (request, isMarked) :: others =>
    (isMarked = true → request.registers = false ∧ failed (studio.step request).1 = true) ∧
      (studio.step request).2.Omits others

instance decidableOmits : (studio : Studio) → (run : List (Request × Bool)) →
    Decidable (studio.Omits run)
  | _, [] => isTrue trivial
  | studio, (request, _) :: others =>
    have := decidableOmits (studio.step request).2 others
    inferInstanceAs (Decidable (_ ∧ _))

/-- The answers to those requests of a run that are not marked. -/
def answersLeft (studio : Studio) (run : List (Request × Bool)) : List (Except Refusal Answer) :=
  (((studio.steps (run.map Prod.fst)).1.zip run).filter (!·.2.2)).map Prod.fst

theorem answersLeft_cons (studio : Studio) (request : Request) (isMarked : Bool)
    (others : List (Request × Bool)) : studio.answersLeft ((request, isMarked) :: others) =
      if isMarked = true then (studio.step request).2.answersLeft others
      else (studio.step request).1 :: (studio.step request).2.answersLeft others := by
  cases isMarked with
  | true => rfl
  | false => rfl

/-- Without the requests that are marked, the others are answered as before. -/
theorem steps_filter_of_omits {run : List (Request × Bool)} (h : studio.Omits run) :
    studio.steps ((run.filter (!·.2)).map Prod.fst) =
      (studio.answersLeft run, (studio.steps (run.map Prod.fst)).2) := by
  induction run generalizing studio with
  | nil => rfl
  | cons entry others ih =>
    obtain ⟨request, isMarked⟩ := entry
    obtain ⟨hmarked, hothers⟩ := h
    have hlater := ih hothers
    rw [List.map_cons, steps_cons, answersLeft_cons]
    cases isMarked with
    | true =>
      obtain ⟨hregisters, hfailed⟩ := hmarked rfl
      have hsame : (studio.step request).2 = studio := undone_step hregisters hfailed
      rw [hsame] at hlater ⊢
      exact hlater
    | false =>
      rw [List.filter_cons_of_pos rfl, List.map_cons, steps_cons, hlater]
      rfl

/-- Whatever has happened before, any of the requests that fail can be left out of a run, but for
registrations with a compiler: the others are answered as before, and the same is behind them. A
registration with a compiler that fails leaves everything as it is but the cache of the compiler,
which is empty behind it. -/
theorem failures_leave_no_trace (studio : Studio) :
    (∀ run, studio.Omits run → studio.steps ((run.filter (!·.2)).map Prod.fst) =
      (studio.answersLeft run, (studio.steps (run.map Prod.fst)).2)) ∧
    ∀ address command compiler context, command.registers = true →
      studio.workspace.compilers[address.compiler]? = some compiler →
      studio.workspace.contexts[address.context]? = some context →
      failed (studio.step (.command address command)).1 = true →
      (studio.step (.command address command)).2 =
        { studio with workspace := studio.workspace.emptying address.compiler compiler } := by
  refine ⟨fun run h ↦ steps_filter_of_omits h,
    fun address command compiler context hregisters hcompiler hcontext hfails ↦ ?_⟩
  rw [step, perform_eq] at hfails ⊢
  rw [failed_mapError] at hfails
  exact congrArg (fun behind ↦ { studio with workspace := behind })
    (Workspace.run_of_registers hregisters hcompiler hcontext hfails)

/-- A formula that does not compile, one that has no value, and a name that no grammar takes can be
left out, between two uses of one text. A parenthesis that is registered as an operator of the
compiler empties the cache. -/
theorem failures_leave_no_trace_between_hits :
    let address : Address := ⟨"c0", "x0"⟩
    let run : List (Request × Bool) := [(.command address (.compile "x" (some "a")), false),
      (.command address (.compile "(" none), true), (.command address (.eval "a"), true),
      (.newGrammar "g" .standard, false), (.registerFunction "g" ⟨"1", 0, .nullary 0⟩, true),
      (.command address (.compile "x" none), false)]
    Studio.initial.Omits run ∧ Studio.initial.steps ((run.filter (!·.2)).map Prod.fst) =
      (Studio.initial.answersLeft run, (Studio.initial.steps (run.map Prod.fst)).2) ∧
    (Studio.initial.step (.command address (.registerOperator ⟨"(", 1, .left, (· + ·)⟩))).2 =
      { Studio.initial with workspace := Studio.initial.workspace.emptying "c0" .standard } := by
  intro address run
  have homits : Studio.initial.Omits run := by decide +kernel
  have hcompiler : Studio.initial.workspace.compilers["c0"]? = some .standard :=
    Std.ExtTreeMap.getElem?_insert_self
  have hcontext : Studio.initial.workspace.contexts["x0"]? = some .empty :=
    Std.ExtTreeMap.getElem?_insert_self
  have hnoTrace := failures_leave_no_trace Studio.initial
  exact ⟨homits, hnoTrace.1 run homits,
    hnoTrace.2 address (.registerOperator ⟨"(", 1, .left, (· + ·)⟩) .standard .empty rfl hcompiler
      hcontext (by decide +kernel)⟩

end Studio

end Formulary
