import Formulary.Proofs.CacheTransparency
import Formulary.Proofs.Lexing
import Formulary.Proofs.Refusals

/-!
# A formula uses what its grammar knows

The lexer and the assembly ask one table in different ways: the one whether a text is a symbol, the
other which operator it means. Every operator token that is cut off a text has an operator in the
grammar (`Lexer.Runs.operator?_of_mem`), so no text fails to compile because an operator is unknown
(`Grammar.compile_ne_unknownOperator`). The operations of what compiles are those of the operators
and the functions of the grammar (`Grammar.provides_of_compile`).
-/

set_option autoImplicit false
set_option relaxedAutoImplicit false

namespace Formulary

/-! ### Operator tokens -/

namespace Lexer

variable {g : Grammar} {c : Char} {rest left text : List Char} {token : Token} {outcome : LexerRun}

theorem Cuts.operator?_of_kind (h : Cuts g c rest token left) (hkind : token.kind = .operator) :
    ∃ o, g.operator? token.text = some o := by
  cases h with
  | number => cases hkind
  | identifier => cases hkind
  | @symbol symbol length hpos hsymbol =>
    cases symbol with
    | operator o =>
      refine ⟨o, ?_⟩
      rw [Grammar.operator?, hsymbol]
      rfl
    | openParen => cases hkind
    | closeParen => cases hkind
    | comma => cases hkind

/-- Every token of a run is one that can be cut off. -/
theorem Runs.exists_cuts (h : Runs g text outcome) (htoken : token ∈ outcome.tokens) :
    ∃ c rest left, Cuts g c rest token left := by
  induction h with
  | ended => cases htoken
  | failed => cases htoken
  | token hblanks hc hcut hrest ih =>
    rcases List.mem_cons.mp htoken with rfl | hother
    · exact ⟨_, _, _, cuts_of_cutToken_eq_ok hcut⟩
    · exact ih hother

/-- Every operator token means an operator of the grammar. -/
theorem Runs.operator?_of_mem (h : Runs g text outcome) (htoken : token ∈ outcome.tokens)
    (hkind : token.kind = .operator) : ∃ o, g.operator? token.text = some o := by
  obtain ⟨c, rest, left, hcuts⟩ := h.exists_cuts htoken
  exact hcuts.operator?_of_kind hkind

end Lexer

/-! ### No operator is unknown -/

/-- No text fails to compile because an operator is unknown. -/
theorem Grammar.compile_ne_unknownOperator (g : Grammar) (input symbol : String) :
    g.compile input ≠ .error (.unknownOperator symbol) := by
  intro h
  cases refusal_of_compile_eq_error h with
  | token htokens hread hrefuses =>
    cases hrefuses with
    | unknownOperator hsymbol =>
      have hmem : ⟨.operator, symbol⟩ ∈ g.tokens input := by
        rw [htokens]
        exact List.mem_append_right _ List.mem_cons_self
      obtain ⟨o, ho⟩ := (Lexer.runs_run g input.toList).operator?_of_mem hmem rfl
      rw [hsymbol] at ho
      cases ho
    | missingOperands h => cases h
  | missingOperands h => cases h

/-- Neither does a text fail to compile with a compiler because of that. -/
theorem Compiler.compile_ne_unknownOperator (compiler : Compiler) (supply : Supply)
    (text symbol : String) :
    (compiler.compile supply text).1 ≠ .error (.unknownOperator symbol) := by
  intro h
  rcases compile_cases compiler supply text with ⟨x, -, hcompile⟩ | ⟨error, -, herror, hcompile⟩ |
    ⟨arena, -, -, hcompile⟩
  · rw [hcompile] at h
    cases h
  · rw [hcompile] at h
    cases h
    exact compiler.grammar.compile_ne_unknownOperator text symbol herror
  · rw [hcompile] at h
    cases h

/-! ### The operations of a formula -/

/-- Whether the operation is that of an operator or of a function of the grammar. -/
inductive Grammar.Provides (g : Grammar) : Operation → Prop
  | operator {symbol : String} {o : Operator} (h : g.operator? symbol = some o) :
    Provides g o.operation
  | function {name : String} {f : NamedFunction} (h : g.function? name = some f) :
    Provides g f.operation

/-- Whether all operations of a table of nodes are those of the grammar. -/
def Grammar.ProvidesAll (g : Grammar) (nodes : Array Node) : Prop :=
  ∀ applied children, .operation applied children ∈ nodes → g.Provides applied

/-- Whether everything that waits for operands is of the grammar. -/
def Grammar.ProvidesPending (g : Grammar) (pending : List Pending) : Prop :=
  ∀ waiting ∈ pending, ∀ operation ∈ waiting.operation?, g.Provides operation

section Provides

variable {g : Grammar} {nodes : Array Node} {pending : List Pending} {forest next : Forest}

theorem Grammar.ProvidesAll.push (h : g.ProvidesAll nodes) {node : Node}
    (hnode : ∀ applied children, node = .operation applied children → g.Provides applied) :
    g.ProvidesAll (nodes.push node) := by
  intro applied children hmem
  rcases Array.mem_push.mp hmem with hold | hnew
  · exact h applied children hold
  · exact hnode applied children hnew.symm

theorem Grammar.ProvidesAll.apply (h : g.ProvidesAll forest.nodes) {operation : Operation}
    (hoperation : g.Provides operation) (happly : forest.apply operation = .ok next) :
    g.ProvidesAll next.nodes := by
  rw [Forest.apply] at happly
  split at happly
  · cases happly
  · cases happly
    refine h.push fun applied children hsame ↦ ?_
    cases hsame
    exact hoperation

theorem Grammar.ProvidesPending.tail {waiting : Pending}
    (h : g.ProvidesPending (waiting :: pending)) : g.ProvidesPending pending :=
  fun other hother ↦ h other (List.mem_cons_of_mem waiting hother)

theorem Grammar.ProvidesPending.cons (h : g.ProvidesPending pending) {waiting : Pending}
    (hwaiting : ∀ operation ∈ waiting.operation?, g.Provides operation) :
    g.ProvidesPending (waiting :: pending) :=
  List.forall_mem_cons.mpr ⟨hwaiting, h⟩

namespace Assembly

variable {assembly reduced : Assembly}

/-- Whether all operations of an assembly are those of the grammar. -/
structure Uses (g : Grammar) (assembly : Assembly) : Prop where
  nodes : g.ProvidesAll assembly.forest.nodes
  pending : g.ProvidesPending assembly.pending

theorem uses_of_reduceWhile {due : Pending → Option Operation}
    (hdue : ∀ waiting operation, due waiting = some operation →
      waiting.operation? = some operation)
    (hnodes : g.ProvidesAll forest.nodes) (hpending : g.ProvidesPending pending)
    (h : reduceWhile due forest pending = .ok reduced) : reduced.Uses g := by
  refine keeps_of_reduceWhile_eq_ok (P := Uses g) ?_ h ⟨hnodes, hpending⟩
  intro forest applied waiting operation others hwaiting happly hbefore
  have hoperation : g.Provides operation :=
    hbefore.pending waiting List.mem_cons_self operation (hdue waiting operation hwaiting)
  exact ⟨hbefore.nodes.apply hoperation happly, hbefore.pending.tail⟩

theorem Uses.reduceGroup (h : assembly.Uses g) (hreduced : assembly.reduceGroup = .ok reduced) :
    reduced.Uses g :=
  uses_of_reduceWhile (fun _ _ hdue ↦ hdue) h.nodes h.pending hreduced

/-- With every token that is taken, the operations remain those of the grammar. -/
theorem Takes.uses {token : Token} {next : Assembly} (h : Takes g assembly token next)
    (huses : assembly.Uses g) : next.Uses g := by
  cases h with
  | literal hvalue => exact ⟨huses.nodes.push (fun _ _ hsame ↦ by cases hsame), huses.pending⟩
  | reference hname => exact ⟨huses.nodes.push (fun _ _ hsame ↦ by cases hsame), huses.pending⟩
  | function hname =>
    refine ⟨huses.nodes, huses.pending.cons fun operation hoperation ↦ ?_⟩
    cases hoperation
    exact .function hname
  | operator hsymbol hreduced =>
    have hbefore := uses_of_reduceWhile operation?_of_dueBefore huses.nodes huses.pending hreduced
    refine ⟨hbefore.nodes, hbefore.pending.cons fun operation hoperation ↦ ?_⟩
    cases hoperation
    exact .operator hsymbol
  | openParen => exact ⟨huses.nodes, huses.pending.cons fun _ hoperation ↦ by cases hoperation⟩
  | comma hreduced => exact huses.reduceGroup hreduced
  | closeGroup hreduced hgroup =>
    have hgroup := huses.reduceGroup hreduced
    exact ⟨hgroup.nodes, hgroup.pending.tail⟩
  | @closeCall _ _ _ f _ hreduced happly =>
    have hgroup := huses.reduceGroup hreduced
    have hf : g.Provides f.operation := hgroup.pending.tail (.function f) List.mem_cons_self _ rfl
    exact ⟨hgroup.nodes.apply hf happly, hgroup.pending.tail.tail⟩

end Assembly

/-- The operations of what compiles are those of the grammar. -/
theorem Grammar.provides_of_compile {input : String} {arena : Arena}
    (h : g.compile input = .ok arena) : g.ProvidesAll arena.nodes := by
  obtain ⟨-, assembly, hfold, hfinish⟩ := exists_of_compile_eq_ok h
  have hstart : Assembly.empty.Uses g :=
    ⟨fun _ _ hmem ↦ (Array.not_mem_empty _ hmem).elim,
      fun _ hmem ↦ (List.not_mem_nil hmem).elim⟩
  have huses : assembly.Uses g :=
    Assembly.keeps_of_foldlM_eq_ok (P := fun _ assembly ↦ assembly.Uses g)
      (fun htakes ↦ htakes.uses) [] hstart hfold
  exact (huses.reduceGroup (Assembly.exists_of_finish_eq_ok hfinish)).nodes

end Provides

end Formulary
