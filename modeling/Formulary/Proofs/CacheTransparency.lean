import Formulary.Compiler
import Formulary.Proofs.Identity

/-!
# The cache of a compiler is not observable

A session (`Compiler.Session`) is a compiler in use: texts are compiled, some of them are bound to
names in contexts, and the grammar is changed. Beside it stands a session without a cache
(`Compiler.Uncached`), which compiles every text anew under the grammar as it is.

Main statement: the same calls have the same answers in both, whatever the grammar at first and the
capacity of the cache, and lead to the same grammar and to contexts that are alike; what a text
compiles to behind them is what it is built to under the current grammar.

What carries it is that a cache keeps nothing but what its texts compile to (`Compiler.Faithful`).
Every call keeps that, and keeps the two sessions at the same point
(`Compiler.Session.Follows.step`).
-/

set_option autoImplicit false
set_option relaxedAutoImplicit false

namespace Formulary

namespace Cache

theorem mem_of_find? {cache : Cache} {text : String} {expression : Expression}
    (h : cache.find? text = some expression) : (text, expression) ∈ cache.entries := by
  obtain ⟨before, after, hentries, -⟩ := List.lookup_eq_some_iff.mp h
  rw [hentries]
  exact List.mem_append_right before List.mem_cons_self

/-- An entry behind the use of a text is the one of that text or was there before. -/
theorem mem_put {cache : Cache} {text : String} {expression : Expression}
    {entry : String × Expression} (h : entry ∈ (cache.put text expression).entries) :
    entry = (text, expression) ∨ entry ∈ cache.entries := by
  rcases List.mem_cons.mp (List.mem_of_mem_take h) with hfirst | hother
  · exact Or.inl hfirst
  · exact Or.inr (List.mem_filter.mp hother).1

end Cache

namespace Compiler

/-! ### What a cache may keep -/

/-- Whether the cache keeps nothing but what its texts compile to under the grammar. -/
def Faithful (compiler : Compiler) : Prop :=
  ∀ entry ∈ compiler.cache.entries,
    compiler.grammar.compile entry.1 = .ok (Expression.arena entry.2)

theorem faithful_new (grammar : Grammar) (capacity : Nat) : (new grammar capacity).Faithful :=
  fun _ h ↦ by cases h

/-- After an access to the grammar the cache keeps nothing. -/
theorem faithful_modifyGrammar (compiler : Compiler) (change : Grammar → Grammar) :
    (compiler.modifyGrammar change).Faithful :=
  fun _ h ↦ by cases h

/-- A registration drops what was compiled before it, also when it fails. -/
theorem cache_tryGrammar (compiler : Compiler)
    (change : Grammar → Except RegistrationError Grammar) :
    (compiler.tryGrammar change).2.cache = compiler.cache.clear := by
  rw [tryGrammar]
  cases change compiler.grammar with
  | error error => rfl
  | ok grammar => rfl

section Compile

variable {compiler : Compiler}

theorem Faithful.put (h : compiler.Faithful) {text : String} {expression : Expression}
    (hcompile : compiler.grammar.compile text = .ok expression.arena) :
    Faithful { compiler with cache := compiler.cache.put text expression } := by
  intro entry hentry
  rcases Cache.mem_put hentry with rfl | hold
  · exact hcompile
  · exact h entry hold

theorem build_eq_error {grammar : Grammar} {text : String} {error : CompileError}
    (h : grammar.compile text = .error error) (supply : Supply) :
    build grammar supply text = .error error := by
  rw [build, h]
  rfl

theorem build_eq_ok {grammar : Grammar} {text : String} {arena : Arena}
    (h : grammar.compile text = .ok arena) (supply : Supply) :
    build grammar supply text = .ok (supply.issue arena) := by
  rw [build, h]
  rfl

/-- The formula that a text is built to is what it compiles to. -/
theorem map_arena_build (grammar : Grammar) (supply : Supply) (text : String) :
    (build grammar supply text).map (fun built ↦ built.1.arena) = grammar.compile text := by
  cases hcompile : grammar.compile text with
  | error error => rw [build_eq_error hcompile]; rfl
  | ok arena => rw [build_eq_ok hcompile]; rfl

/-- A text is found in the cache, does not compile, or is compiled anew. -/
theorem compile_cases (compiler : Compiler) (supply : Supply) (text : String) :
    (∃ expression, compiler.cache.find? text = some expression ∧
      compiler.compile supply text =
        (.ok expression, { compiler with cache := compiler.cache.put text expression }, supply)) ∨
    (∃ error, compiler.cache.find? text = none ∧ compiler.grammar.compile text = .error error ∧
      compiler.compile supply text = (.error error, compiler, supply)) ∨
    ∃ arena, compiler.cache.find? text = none ∧ compiler.grammar.compile text = .ok arena ∧
      compiler.compile supply text = (.ok (supply.issue arena).1,
        { compiler with cache := compiler.cache.put text (supply.issue arena).1 },
        (supply.issue arena).2) := by
  rw [compile]
  cases hfind : compiler.cache.find? text with
  | some expression => exact Or.inl ⟨expression, rfl, rfl⟩
  | none =>
    cases hcompile : compiler.grammar.compile text with
    | error error =>
      rw [build_eq_error hcompile]
      exact Or.inr (Or.inl ⟨error, rfl, rfl, rfl⟩)
    | ok arena =>
      rw [build_eq_ok hcompile]
      exact Or.inr (Or.inr ⟨arena, rfl, rfl, rfl⟩)

/-- Assumes: a faithful cache. A text that does not compile changes nothing, and any other has an
expression with the formula that it compiles to; the grammar stays, and so does faithfulness. -/
theorem Faithful.compile_cases (h : compiler.Faithful) (supply : Supply) (text : String) :
    (∃ error, compiler.grammar.compile text = .error error ∧
      compiler.compile supply text = (.error error, compiler, supply)) ∨
    ∃ expression behind left, compiler.grammar.compile text = .ok (Expression.arena expression) ∧
      compiler.compile supply text = (.ok expression, behind, left) ∧
      Compiler.grammar behind = compiler.grammar ∧ behind.Faithful := by
  rcases Compiler.compile_cases compiler supply text with ⟨expression, hfind, hsession⟩ |
    ⟨error, -, hcompile, hsession⟩ | ⟨arena, -, hcompile, hsession⟩
  · have hcompile := h _ (Cache.mem_of_find? hfind)
    exact Or.inr ⟨expression, _, supply, hcompile, hsession, rfl, h.put hcompile⟩
  · exact Or.inl ⟨error, hcompile, hsession⟩
  · exact Or.inr ⟨_, _, _, hcompile, hsession, rfl, h.put hcompile⟩

end Compile

/-! ### Sessions -/

/-- A use of a compiler. The contexts in which compiled texts are bound are numbered. -/
inductive Call
  | compile (text : String)
  | compileAndAdd (context : Nat) (name text : String)
  | registerOperator (o : Operator)
  | registerFunction (f : NamedFunction)
  | modifyGrammar (change : Grammar → Grammar)

/-- What a call answers, but for identities. -/
inductive Answer
  | compiled (result : Except CompileError Arena)
  | added (result : Except CompileError Unit)
  | registered (result : Except RegistrationError Unit)
  | modified

/-- The answers to calls that are made one after the other, and the state behind them. -/
def run {State : Type} (step : State → Call → Answer × State) :
    State → List Call → List Answer × State
  | state, [] => ([], state)
  | state, call :: calls =>
    let (answer, next) := step state call
    let (answers, last) := run step next calls
    (answer :: answers, last)

/-- The contexts after one of them has changed. -/
def setContext (contexts : Nat → Context) (index : Nat) (context : Context) : Nat → Context :=
  fun other ↦ if other = index then context else contexts other

/-- A compiler in use, with the identities that are left and the contexts. -/
structure Session where
  compiler : Compiler
  supply : Supply
  contexts : Nat → Context

/-- Makes a call. A text that does not compile is not bound. -/
def Session.step (session : Session) : Call → Answer × Session
  | .compile text =>
    let (result, compiler, supply) := session.compiler.compile session.supply text
    (.compiled (result.map Expression.arena), ⟨compiler, supply, session.contexts⟩)
  | .compileAndAdd index name text =>
    match session.compiler.compileAndAdd session.supply (session.contexts index) name text with
    | (.error error, compiler, supply) =>
      (.added (.error error), ⟨compiler, supply, session.contexts⟩)
    | (.ok context, compiler, supply) =>
      (.added (.ok ()), ⟨compiler, supply, setContext session.contexts index context⟩)
  | .registerOperator o =>
    let (result, compiler) := session.compiler.registerOperator o
    (.registered result, { session with compiler := compiler })
  | .registerFunction f =>
    let (result, compiler) := session.compiler.registerFunction f
    (.registered result, { session with compiler := compiler })
  | .modifyGrammar change =>
    (.modified, { session with compiler := session.compiler.modifyGrammar change })

/-- A grammar in use without a compiler: nothing that was compiled is kept. -/
structure Uncached where
  grammar : Grammar
  supply : Supply
  contexts : Nat → Context

/-- Lets the grammar try a change. -/
def Uncached.register (uncached : Uncached) (result : Except RegistrationError Grammar) :
    Answer × Uncached :=
  match result with
  | .error error => (.registered (.error error), uncached)
  | .ok grammar => (.registered (.ok ()), { uncached with grammar := grammar })

/-- Makes a call. Every text is built anew. -/
def Uncached.step (uncached : Uncached) : Call → Answer × Uncached
  | .compile text =>
    match build uncached.grammar uncached.supply text with
    | .error error => (.compiled (.error error), uncached)
    | .ok (expression, supply) =>
      (.compiled (.ok expression.arena), { uncached with supply := supply })
  | .compileAndAdd index name text =>
    match build uncached.grammar uncached.supply text with
    | .error error => (.added (.error error), uncached)
    | .ok (expression, supply) =>
      (.added (.ok ()), ⟨uncached.grammar, supply, setContext uncached.contexts index
        ((uncached.contexts index).add name expression)⟩)
  | .registerOperator o => uncached.register (uncached.grammar.registerOperator o)
  | .registerFunction f => uncached.register (uncached.grammar.registerFunction f)
  | .modifyGrammar change => (.modified, { uncached with grammar := change uncached.grammar })

/-! ### One call, and all calls -/

/-- Whether the sessions are at the same point: one grammar, contexts that are alike, and a cache
that keeps nothing but what its texts compile to. -/
structure Session.Follows (session : Session) (uncached : Uncached) : Prop where
  grammar : session.compiler.grammar = uncached.grammar
  faithful : session.compiler.Faithful
  contexts : ∀ index, (session.contexts index).Alike (uncached.contexts index)

section Follows

variable {session : Session} {uncached : Uncached}

theorem Session.Follows.compile (h : session.Follows uncached) (text : String) :
    (session.step (.compile text)).1 = (uncached.step (.compile text)).1 ∧
      (session.step (.compile text)).2.Follows (uncached.step (.compile text)).2 := by
  rcases h.faithful.compile_cases session.supply text with ⟨error, hcompile, hsession⟩ |
    ⟨expression, behind, left, hcompile, hsession, hgrammar, hfaithful⟩
  · rw [h.grammar] at hcompile
    simp only [step, hsession, Uncached.step, build_eq_error hcompile]
    exact ⟨rfl, h.grammar, h.faithful, h.contexts⟩
  · rw [h.grammar] at hcompile hgrammar
    simp only [step, hsession, Uncached.step, build_eq_ok hcompile]
    exact ⟨rfl, hgrammar, hfaithful, h.contexts⟩

theorem Session.Follows.compileAndAdd (h : session.Follows uncached) (index : Nat)
    (name text : String) :
    (session.step (.compileAndAdd index name text)).1 =
        (uncached.step (.compileAndAdd index name text)).1 ∧
      (session.step (.compileAndAdd index name text)).2.Follows
        (uncached.step (.compileAndAdd index name text)).2 := by
  rcases h.faithful.compile_cases session.supply text with ⟨error, hcompile, hsession⟩ |
    ⟨expression, behind, left, hcompile, hsession, hgrammar, hfaithful⟩
  · rw [h.grammar] at hcompile
    simp only [step, Compiler.compileAndAdd, hsession, Uncached.step, build_eq_error hcompile,
      Except.map]
    exact ⟨trivial, h.grammar, h.faithful, h.contexts⟩
  · rw [h.grammar] at hcompile hgrammar
    simp only [step, Compiler.compileAndAdd, hsession, Uncached.step, build_eq_ok hcompile,
      Except.map]
    refine ⟨trivial, hgrammar, hfaithful, fun other ↦ ?_⟩
    by_cases hindex : other = index
    · simp only [setContext, if_pos hindex]
      exact (h.contexts index).add name rfl
    · simp only [setContext, if_neg hindex]
      exact h.contexts other

/-- A registration has the same outcome, and what was compiled before it is dropped. -/
theorem Session.Follows.register (h : session.Follows uncached)
    (change : Grammar → Except RegistrationError Grammar) :
    Answer.registered (session.compiler.tryGrammar change).1 =
        (uncached.register (change uncached.grammar)).1 ∧
      Session.Follows { session with compiler := (session.compiler.tryGrammar change).2 }
        (uncached.register (change uncached.grammar)).2 := by
  rw [tryGrammar, h.grammar]
  cases hchange : change uncached.grammar with
  | error error => exact ⟨rfl, h.grammar, faithful_modifyGrammar _ _, h.contexts⟩
  | ok grammar => exact ⟨rfl, rfl, faithful_modifyGrammar _ _, h.contexts⟩

/-- A call has the same answer in both sessions, and they are at the same point behind it. -/
theorem Session.Follows.step (h : session.Follows uncached) (call : Call) :
    (session.step call).1 = (uncached.step call).1 ∧
      (session.step call).2.Follows (uncached.step call).2 := by
  cases call with
  | compile text => exact h.compile text
  | compileAndAdd index name text => exact h.compileAndAdd index name text
  | registerOperator o => exact h.register (·.registerOperator o)
  | registerFunction f => exact h.register (·.registerFunction f)
  | modifyGrammar change =>
    exact ⟨rfl, congrArg change h.grammar, faithful_modifyGrammar _ _, h.contexts⟩

theorem Session.Follows.run (h : session.Follows uncached) (calls : List Call) :
    (run Session.step session calls).1 = (run Uncached.step uncached calls).1 ∧
      (run Session.step session calls).2.Follows (run Uncached.step uncached calls).2 := by
  induction calls generalizing session uncached with
  | nil => exact ⟨rfl, h⟩
  | cons call calls ih =>
    obtain ⟨hanswer, hnext⟩ := h.step call
    obtain ⟨hanswers, hlast⟩ := ih hnext
    exact ⟨List.cons_eq_cons.mpr ⟨hanswer, hanswers⟩, hlast⟩

end Follows

/-- Whatever the grammar and the capacity at first, a compiler answers calls as if it had no cache,
and has the same grammar and contexts behind them. A text then compiles to what it is built to under
the current grammar, or fails with the same error. -/
theorem run_agrees_with_uncached (grammar : Grammar) (capacity : Nat) (supply other : Supply)
    (contexts : Nat → Context) (calls : List Call) :
    (run Session.step ⟨new grammar capacity, supply, contexts⟩ calls).1 =
        (run Uncached.step ⟨grammar, other, contexts⟩ calls).1 ∧
      let session := (run Session.step ⟨new grammar capacity, supply, contexts⟩ calls).2
      let uncached := (run Uncached.step ⟨grammar, other, contexts⟩ calls).2
      session.compiler.grammar = uncached.grammar ∧
        (∀ index, (session.contexts index).Alike (uncached.contexts index)) ∧
        ∀ text left, (session.compiler.compile session.supply text).1.map Expression.arena =
          (build session.compiler.grammar left text).map fun built ↦ built.1.arena := by
  have hstart : Session.Follows ⟨new grammar capacity, supply, contexts⟩
      ⟨grammar, other, contexts⟩ :=
    ⟨rfl, faithful_new grammar capacity, fun index ↦ .refl (contexts index)⟩
  obtain ⟨hanswers, hlast⟩ := hstart.run calls
  refine ⟨hanswers, hlast.grammar, hlast.contexts, fun text left ↦ ?_⟩
  rw [map_arena_build]
  rcases hlast.faithful.compile_cases _ text with ⟨error, hcompile, hsession⟩ |
    ⟨expression, behind, left, hcompile, hsession, -⟩
  · rw [hsession, hcompile]
    rfl
  · rw [hsession, hcompile]
    rfl

end Compiler

end Formulary
