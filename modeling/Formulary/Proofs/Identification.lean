import Formulary.Proofs.Failures
import Formulary.Proofs.Holdings

/-!
# Identities stand for formulas

Main statement: after any requests, wherever two expressions of one identity are held, they are the
same formula. What is made anew has an identity that nothing has had before, and what fails uses up
none. Identities are kept in machine words, which tell them apart as long as not all words have been
handed out.

What carries it is that every identity that is held was handed out (`Workspace.Identified`). Since
a request adds at most one expression to those that are held, with the next identity of the supply,
that lasts (`Workspace.Identified.grows`); no command needs to be looked at again.
-/

set_option autoImplicit false
set_option relaxedAutoImplicit false

namespace Formulary

open Workspace

/-! ### Identities that are held -/

/-- Whether what the workspace holds is identified: every identity was handed out, and expressions
of one identity are the same formula. -/
structure Workspace.Identified (workspace : Workspace) : Prop where
  handedOut : workspace.HoldsOnly fun x ↦ workspace.supply.HandedOut x.id
  arena_eq : ∀ ⦃x y : Expression⦄, workspace.Holds x → workspace.Holds y → x.id = y.id →
    x.arena = y.arena

section Identified

variable {workspace behind : Workspace} {studio : Studio}

theorem Supply.HandedOut.issue {supply : Supply} {id : ExpressionId} (h : supply.HandedOut id)
    (arena : Arena) : (supply.issue arena).2.HandedOut id := Nat.lt_succ_of_lt h

/-- The expression that is drawn has an identity that nothing has had before. -/
theorem Workspace.Identified.grows (h : workspace.Identified)
    (hgrows : Grows workspace.Holds workspace.supply behind) : behind.Identified := by
  obtain ⟨T, hdraws, hT⟩ := hgrows
  generalize hleft : behind.supply = left at hdraws
  cases hdraws with
  | nothing =>
    refine ⟨fun x hx ↦ ?_, fun x y hx hy ↦ h.arena_eq (hT hx) (hT hy)⟩
    rw [hleft]
    exact h.handedOut (hT hx)
  | @one arena _ =>
    have hnew : ∀ x, workspace.Holds x → x.id ≠ (workspace.supply.issue arena).1.id :=
      fun x hx hsame ↦ workspace.supply.not_handedOut_issue arena (hsame ▸ h.handedOut hx)
    refine ⟨fun x hx ↦ ?_, fun x y hx hy hsame ↦ ?_⟩
    · rw [hleft]
      rcases hT hx with hold | rfl
      · exact (h.handedOut hold).issue arena
      · exact Nat.lt_succ_self _
    · rcases hT hx with hx | rfl <;> rcases hT hy with hy | rfl
      · exact h.arena_eq hx hy hsame
      · exact (hnew x hx hsame).elim
      · exact (hnew y hy hsame.symm).elim
      · rfl

theorem Workspace.Grows.next_le {S : Expression → Prop} {supply : Supply}
    (h : Grows S supply behind) : supply.next ≤ behind.supply.next := by
  obtain ⟨T, hdraws, -⟩ := h
  generalize behind.supply = left at hdraws
  cases hdraws with
  | nothing => exact Nat.le_refl _
  | one harena => exact Nat.le_succ _

theorem Workspace.identified_initial (draw : Float) : (Workspace.initial draw).Identified :=
  ⟨fun x hx ↦ (not_holds_initial draw x hx).elim,
    fun x _ hx ↦ (not_holds_initial draw x hx).elim⟩

theorem Studio.identified_steps (h : studio.workspace.Identified) (requests : List Request) :
    (studio.steps requests).2.workspace.Identified := by
  induction requests generalizing studio with
  | nil => exact h
  | cons request others ih => exact ih (h.grows (Studio.grows_step (fun _ hx ↦ hx) request))

theorem Studio.next_le_steps (studio : Studio) (requests : List Request) :
    studio.workspace.supply.next ≤ (studio.steps requests).2.workspace.supply.next := by
  induction requests generalizing studio with
  | nil => exact Nat.le_refl _
  | cons request others ih =>
    have hstep := Studio.grows_step (S := studio.workspace.Holds) (fun _ hx ↦ hx) request
    exact Nat.le_trans hstep.next_le (ih (studio.step request).2)

/-- What a context of the workspace binds is identified. -/
theorem Workspace.Identified.coherent (h : workspace.Identified) {name : String}
    {context : Context} (hcontext : workspace.contexts[name]? = some context) :
    context.Coherent :=
  fun _ _ _ _ hx hy ↦ h.arena_eq (.binding hcontext hx) (.binding hcontext hy)

end Identified

/-! ### What is made anew -/

/-- Whether the command makes an expression: a number becomes one, or a text that is not in the
cache that is asked for it. -/
def Workspace.Makes (workspace : Workspace) (address : Address) : Command → Prop
  | .literal _ _ => True
  | .setValue _ _ => True
  | .build _ _ => True
  | .compile text _ => ∀ compiler, workspace.compilers[address.compiler]? = some compiler →
    compiler.cache.find? text = none
  | .compileAndAdd _ text => ∀ compiler, workspace.compilers[address.compiler]? = some compiler →
    compiler.cache.find? text = none
  | _ => False

/-- Whether the expression is what comes of the command, as its answer or bound to its name. -/
def Workspace.Yields (behind : Workspace) (address : Address) (answer : Answer) (x : Expression) :
    Command → Prop
  | .setValue name _ => ∃ context, behind.contexts[address.context]? = some context ∧
    context.find? name = some x
  | .compileAndAdd name _ => ∃ context, behind.contexts[address.context]? = some context ∧
    context.find? name = some x
  | _ => answer = .expression x

/-- Whether the request makes an expression. -/
def Studio.Makes (studio : Studio) : Request → Prop
  | .command address command => studio.workspace.Makes address command
  | .build _ _ _ => True
  | _ => False

/-- Whether the expression is what comes of the request. -/
def Studio.Yields (behind : Studio) (answer : Answer) (x : Expression) : Request → Prop
  | .command address command => behind.workspace.Yields address answer x command
  | _ => answer = .expression x

section Makes

variable {workspace : Workspace} {studio : Studio}

open WorkspaceM

/-- Whether the outcome, if there is an answer, is the next expression of a supply. -/
def Supply.Made (supply : Supply) (yields : Answer → Workspace → Expression → Prop)
    (outcome : Except Failure Answer × Workspace) : Prop :=
  ∀ answer, outcome.1 = .ok answer → ∃ arena,
    yields answer outcome.2 (supply.issue arena).1 ∧ outcome.2.supply = (supply.issue arena).2

theorem Supply.made_error {supply : Supply} {yields : Answer → Workspace → Expression → Prop}
    (failure : Failure) (behind : Workspace) : supply.Made yields (.error failure, behind) :=
  fun _ h ↦ by cases h

theorem Workspace.made_keep {supply : Supply} (arena : Arena) (behind : Workspace)
    (keepAs : Option String) (h : behind.supply = (supply.issue arena).2) :
    supply.Made (fun answer _ x ↦ answer = .expression x)
      ((keep (supply.issue arena).1 keepAs).run behind) := by
  rw [run_keep]
  intro answer hanswer
  refine ⟨arena, (Except.ok.inj hanswer).symm, ?_⟩
  rw [supply_keeping]
  exact h

theorem Workspace.made_built (grammar : Grammar) (text : String) (keepAs : Option String) :
    workspace.supply.Made (fun answer _ x ↦ answer = .expression x)
      ((Studio.built grammar text keepAs).run workspace) := by
  rw [Studio.built, run_get_bind]
  cases hcompile : grammar.compile text with
  | error error =>
    rw [Compiler.build_eq_error hcompile]
    exact Supply.made_error _ _
  | ok arena =>
    rw [Compiler.build_eq_ok hcompile]
    exact made_keep arena { workspace with supply := (workspace.supply.issue arena).2 } keepAs rfl

theorem Workspace.made_bound {supply : Supply} {address : Address} {name : String} {size : Nat}
    (arena : Arena) (context : Context) {behind : Workspace}
    (hcontext : behind.contexts[address.context]? =
      some (context.add name (supply.issue arena).1))
    (hsupply : behind.supply = (supply.issue arena).2) :
    supply.Made (fun _ behind x ↦ ∃ context, behind.contexts[address.context]? = some context ∧
      context.find? name = some x) (.ok (.size size), behind) := by
  refine fun _ _ ↦ ⟨arena, ⟨_, hcontext, ?_⟩, hsupply⟩
  rw [Context.find?_add, if_pos rfl]

/-- A command that makes an expression makes the next one of the supply. -/
theorem Workspace.made_perform {address : Address} {command : Command}
    (hmakes : workspace.Makes address command) :
    workspace.supply.Made (fun answer behind x ↦ behind.Yields address answer x command)
      ((perform address command).run workspace) := by
  cases command with
  | literal value keepAs =>
    exact made_keep (.literal value)
      { workspace with supply := (workspace.supply.issue (.literal value)).2 } keepAs rfl
  | build text keepAs =>
    exact addressed_of (P := Supply.Made _ _) (fun _ ↦ Supply.made_error _ _)
      fun compiler _ _ _ ↦ made_built compiler.grammar text keepAs
  | setValue name value =>
    refine addressed_of (P := Supply.Made _ _) (fun _ ↦ Supply.made_error _ _)
      fun _ context _ _ ↦ ?_
    exact made_bound (.literal value) context Std.ExtTreeMap.getElem?_insert_self rfl
  | compile text keepAs =>
    refine addressed_of (P := Supply.Made _ _) (fun _ ↦ Supply.made_error _ _)
      fun compiler context hcompiler _ ↦ ?_
    show Supply.Made _ _ ((compiled address (compiler.compile workspace.supply text) >>=
      fun expression ↦ keep expression keepAs).run workspace)
    have hfind := hmakes compiler hcompiler
    rcases Compiler.compile_cases compiler workspace.supply text with ⟨x, hhit, -⟩ |
      ⟨error, -, -, hcompile⟩ | ⟨arena, -, -, hcompile⟩
    · rw [hfind] at hhit
      cases hhit
    · rw [hcompile]
      exact Supply.made_error _ _
    · rw [hcompile]
      exact made_keep arena _ keepAs rfl
  | compileAndAdd name text =>
    refine addressed_of (P := Supply.Made _ _) (fun _ ↦ Supply.made_error _ _)
      fun compiler context hcompiler _ ↦ ?_
    show Supply.Made _ _ ((compiled address
      (compiler.compileAndAdd workspace.supply context name text) >>= fun context ↦ do
        setContext address.context context
        return Answer.size context.size).run workspace)
    have hfind := hmakes compiler hcompiler
    rw [Compiler.compileAndAdd]
    rcases Compiler.compile_cases compiler workspace.supply text with ⟨x, hhit, -⟩ |
      ⟨error, -, -, hcompile⟩ | ⟨arena, -, -, hcompile⟩
    · rw [hfind] at hhit
      cases hhit
    · rw [hcompile]
      exact Supply.made_error _ _
    · rw [hcompile]
      exact made_bound arena context Std.ExtTreeMap.getElem?_insert_self rfl
  | _ => cases hmakes

/-- A request that makes an expression makes the next one of the supply. -/
theorem Studio.exists_made {request : Request} {answer : Answer} {behind : Studio}
    (hmakes : studio.Makes request) (hstep : studio.step request = (.ok answer, behind)) :
    ∃ arena, behind.Yields answer (studio.workspace.supply.issue arena).1 request ∧
      behind.workspace.supply = (studio.workspace.supply.issue arena).2 := by
  have hperform : ∀ {action : WorkspaceM Answer} {yields : Answer → Workspace → Expression → Prop},
      studio.workspace.supply.Made yields (action.run studio.workspace) →
      studio.perform action = (.ok answer, behind) → ∃ arena,
        yields answer behind.workspace (studio.workspace.supply.issue arena).1 ∧
        behind.workspace.supply = (studio.workspace.supply.issue arena).2 := by
    intro action yields hmade hrun
    rw [perform_eq] at hrun
    obtain ⟨hanswer, rfl⟩ := Prod.mk.inj hrun
    cases hresult : (action.run studio.workspace).1 with
    | error failure =>
      rw [hresult] at hanswer
      cases hanswer
    | ok result =>
      rw [hresult] at hanswer
      cases hanswer
      exact hmade answer hresult
  cases request with
  | command address command => exact hperform (Workspace.made_perform hmakes) hstep
  | build name text keepAs =>
    rw [step, withGrammar] at hstep
    cases hgrammar : studio.grammars[name]? with
    | none =>
      rw [hgrammar] at hstep
      cases congrArg Prod.fst hstep
    | some grammar =>
      rw [hgrammar] at hstep
      exact hperform (Workspace.made_built grammar text keepAs) hstep
  | _ => cases hmakes

/-- A request that is refused uses up no identity. -/
theorem Studio.supply_step_of_error {request : Request} {refusal : Refusal} {behind : Studio}
    (hstep : studio.step request = (.error refusal, behind)) :
    behind.workspace.supply = studio.workspace.supply := by
  cases hregisters : request.registers with
  | false =>
    have hfailed : failed (studio.step request).1 = true := by
      rw [hstep]
      rfl
    have hsame := undone_step hregisters hfailed
    rw [hstep] at hsame
    exact congrArg (fun studio ↦ studio.workspace.supply) hsame
  | true =>
    cases request with
    | command address command =>
      rw [← congrArg (fun outcome ↦ outcome.2.workspace.supply) hstep]
      exact Workspace.supply_of_registers hregisters address
    | _ => cases hregisters

end Makes

/-! ### Identities in machine words -/

/-- Assumes: fewer identities handed out than there are machine words, by requests of any kind from
the beginning on. What is held anywhere and has the same word for its identity is the same formula.
A request that makes an expression takes one identity, and its word is that of nothing that is held
now or was held before; a request that is refused takes none. -/
theorem Studio.word_identifies_formula (draw : Float) (requests : List Request)
    (h : ((Studio.initial draw).steps requests).2.workspace.supply.next < UInt64.size) :
    let studio := ((Studio.initial draw).steps requests).2
    (∀ x y, studio.workspace.Holds x → studio.workspace.Holds y → x.id.word = y.id.word →
      x.arena = y.arena) ∧
    (∀ request answer behind, studio.Makes request → studio.step request = (.ok answer, behind) →
      ∃ x, behind.Yields answer x request ∧
        (∀ earlier y, earlier <+: requests →
          ((Studio.initial draw).steps earlier).2.workspace.Holds y →
            x.id.word ≠ y.id.word) ∧
        behind.workspace.supply.next = studio.workspace.supply.next + 1) ∧
    ∀ request refusal behind, studio.step request = (.error refusal, behind) →
      behind.workspace.supply = studio.workspace.supply := by
  intro studio
  have hidentified : studio.workspace.Identified :=
    Studio.identified_steps (Workspace.identified_initial draw) requests
  have hword : ∀ x, studio.workspace.Holds x → x.id.number < UInt64.size :=
    fun x hx ↦ Nat.lt_trans (hidentified.handedOut hx) h
  refine ⟨fun x y hx hy hsame ↦ ?_, fun request answer behind hmakes hstep ↦ ?_,
    fun _ _ _ hstep ↦ supply_step_of_error hstep⟩
  · exact hidentified.arena_eq hx hy
      (ExpressionId.eq_of_word_eq (hword x hx) (hword y hy) hsame)
  · obtain ⟨arena, hyields, hsupply⟩ := exists_made hmakes hstep
    refine ⟨_, hyields, fun earlier y hearlier hy hsame ↦ ?_, by rw [hsupply]; rfl⟩
    obtain ⟨later, hrequests⟩ := hearlier
    have hnext : ((Studio.initial draw).steps earlier).2.workspace.supply.next ≤
        studio.workspace.supply.next := by
      show _ ≤ ((Studio.initial draw).steps requests).2.workspace.supply.next
      rw [← hrequests, steps_append]
      exact next_le_steps _ later
    have hold : studio.workspace.supply.HandedOut y.id :=
      Nat.lt_of_lt_of_le ((identified_steps (identified_initial draw) earlier).handedOut hy) hnext
    have hid := ExpressionId.eq_of_word_eq h (Nat.lt_trans hold h) hsame
    exact studio.workspace.supply.not_handedOut_issue arena (hid ▸ hold)

/-- One expression under two names, once by way of a context: both have one word and one formula,
and a number that becomes an expression has another word. -/
theorem Studio.word_identifies_formula_copied :
    let address : Address := ⟨"c0", "x0"⟩
    let studio := (Studio.initial.steps [.command address (.compile "1 + 2" (some "a")),
      .command address (.add "x" "a"), .command address (.get "x" (some "b"))]).2
    studio.workspace.supply.next < UInt64.size ∧ ∃ x y made : Expression,
      studio.workspace.expressions["a"]? = some x ∧ studio.workspace.expressions["b"]? = some y ∧
      x.id.word = y.id.word ∧ x.arena = y.arena ∧
      (studio.step (.command address (.literal 1 none))).1 = .ok (.expression made) ∧
      made.id.word ≠ x.id.word := by
  intro address studio
  have hfew : studio.workspace.supply.next < UInt64.size := by decide +kernel
  obtain ⟨hidentifies, hmakes, -⟩ := word_identifies_formula default
    [.command address (.compile "1 + 2" (some "a")), .command address (.add "x" "a"),
      .command address (.get "x" (some "b"))] hfew
  have hids : (studio.workspace.expressions["a"]?).map Expression.id = some ⟨0⟩ ∧
      (studio.workspace.expressions["b"]?).map Expression.id = some ⟨0⟩ := by decide +kernel
  obtain ⟨x, hx, hxid⟩ := Option.map_eq_some_iff.mp hids.1
  obtain ⟨y, hy, hyid⟩ := Option.map_eq_some_iff.mp hids.2
  have hword : x.id.word = y.id.word := by rw [hxid, hyid]
  obtain ⟨made, hmade, hnew, -⟩ := hmakes (.command address (.literal 1 none)) _ _ trivial rfl
  exact ⟨hfew, x, y, made, hx, hy, hword, hidentifies x y (.handle hx) (.handle hy) hword,
    congrArg Except.ok hmade, hnew _ x (List.prefix_refl _) (.handle hx)⟩

end Formulary
