import Formulary.Grammar.Standard
import Formulary.Proofs.PostOrder

/-!
# What an assembly does with a token

Carrying out waiting operations is applying them one after the other to the forest
(`Assembly.reduceWhile_eq`), and what each of them keeps is kept by all of them
(`Assembly.keeps_of_reduceWhile_eq_ok`). With that, everything that an assembly can do with a token
that it takes is listed once (`Assembly.Takes`, `Assembly.takes_of_take_eq_ok`), and a property of
assemblies is followed through a formula by one look at each entry of the list.

Main statement: whatever text a formula has, its arena is in post-order. The forest of every
assembly lists well-formed trees (`Forest.Lists`), since operands are always taken from the end of
the forest, and at the end it lists one (`Grammar.exists_tree_of_compile`).
-/

set_option autoImplicit false
set_option relaxedAutoImplicit false

namespace Formulary

/-- A computation in two steps succeeds when both of its steps do. -/
theorem exists_of_bind_eq_ok {ε α β : Type} {x : Except ε α} {f : α → Except ε β} {b : β}
    (h : x >>= f = .ok b) : ∃ a, x = .ok a ∧ f a = .ok b := by
  cases x with
  | error error => cases h
  | ok a => exact ⟨a, rfl, h⟩

theorem exists_of_isOk {ε α : Type} {x : Except ε α} (h : x.isOk = true) : ∃ a, x = .ok a := by
  cases x with
  | error error => cases h
  | ok a => exact ⟨a, rfl⟩

namespace Forest

/-- Applies operations one after the other. -/
def applyAll (forest : Forest) (operations : List Operation) : Except CompileError Forest :=
  operations.foldlM apply forest

@[simp] theorem applyAll_nil (forest : Forest) : forest.applyAll [] = .ok forest := rfl

theorem applyAll_cons (forest : Forest) (operation : Operation) (operations : List Operation) :
    forest.applyAll (operation :: operations) =
      forest.apply operation >>= fun forest ↦ forest.applyAll operations := rfl

theorem applyAll_append (forest : Forest) (first second : List Operation) :
    forest.applyAll (first ++ second) =
      forest.applyAll first >>= fun forest ↦ forest.applyAll second := List.foldlM_append

end Forest

namespace Assembly

/-! ### Carrying out what waits -/

section Reducing

variable (due : Pending → Option Operation) (forest : Forest)

/-- Carrying out waiting operations applies those that are due, up to the first that is not. -/
theorem reduceWhile_eq (pending : List Pending) : reduceWhile due forest pending =
    (fun forest ↦ ⟨forest, pending.dropWhile fun waiting ↦ (due waiting).isSome⟩) <$>
      forest.applyAll ((pending.takeWhile fun waiting ↦ (due waiting).isSome).filterMap due) := by
  induction pending generalizing forest with
  | nil => rfl
  | cons waiting others ih =>
    cases hdue : due waiting with
    | none => simp [reduceWhile, hdue, Functor.map, Except.map]
    | some operation =>
      simp only [reduceWhile, hdue, Option.isSome_some, List.dropWhile_cons_of_pos,
        List.takeWhile_cons_of_pos, List.filterMap_cons, Forest.applyAll_cons, map_bind]
      exact congrArg _ (funext fun forest ↦ ih forest)

/-- Assumes: waiting operations were carried out. They were applied to the forest, and what still
waits is what waited behind them. -/
theorem exists_of_reduceWhile_eq_ok {pending : List Pending} {assembly : Assembly}
    (h : reduceWhile due forest pending = .ok assembly) :
    ∃ operations, forest.applyAll operations = .ok assembly.forest ∧
      assembly.pending = pending.dropWhile fun waiting ↦ (due waiting).isSome := by
  rw [reduceWhile_eq] at h
  obtain ⟨reduced, happly, hsame⟩ := exists_of_bind_eq_ok h
  cases hsame
  exact ⟨_, happly, rfl⟩

end Reducing

/-- Assumes: a property of assemblies that stays true when what waits next is due and carried out.
It is true when waiting operations were carried out. -/
theorem keeps_of_reduceWhile_eq_ok {due : Pending → Option Operation} {P : Assembly → Prop}
    (hstep : ∀ {forest applied : Forest} {waiting : Pending} {operation : Operation}
      {others : List Pending}, due waiting = some operation → forest.apply operation = .ok applied →
      P ⟨forest, waiting :: others⟩ → P ⟨applied, others⟩)
    {forest : Forest} {pending : List Pending} {reduced : Assembly}
    (h : reduceWhile due forest pending = .ok reduced) (hstart : P ⟨forest, pending⟩) :
    P reduced := by
  induction pending generalizing forest with
  | nil =>
    cases h
    exact hstart
  | cons waiting others ih =>
    rw [reduceWhile] at h
    cases hwaiting : due waiting with
    | none =>
      rw [hwaiting] at h
      cases h
      exact hstart
    | some operation =>
      rw [hwaiting] at h
      obtain ⟨applied, happly, hrest⟩ := exists_of_bind_eq_ok h
      exact ih hrest (hstep hwaiting happly hstart)

/-- What is due before an operator is the operation that is waiting. -/
theorem operation?_of_dueBefore {next : Operator} (waiting : Pending) (operation : Operation)
    (h : waiting.dueBefore next = some operation) : waiting.operation? = some operation := by
  cases waiting with
  | operator o =>
    simp only [Pending.dueBefore] at h
    split at h
    · exact h
    · cases h
  | function f => cases h
  | openParen => cases h

/-- Whether what waits is what waits at the start of an expression that is not an operand of
another: nothing, or an open parenthesis next. -/
def AtStart (pending : List Pending) : Prop :=
  pending = [] ∨ ∃ others, pending = .openParen :: others

/-- After a group is carried out, the start of the expression has been reached. -/
theorem atStart_of_reduceGroup_eq_ok {assembly reduced : Assembly}
    (h : assembly.reduceGroup = .ok reduced) : AtStart reduced.pending := by
  obtain ⟨-, -, hpending⟩ := exists_of_reduceWhile_eq_ok _ _ h
  cases hrest : reduced.pending with
  | nil => exact Or.inl rfl
  | cons waiting others =>
    have hhead := List.head?_dropWhile_not (fun waiting ↦ (Pending.operation? waiting).isSome)
      assembly.pending
    rw [← hpending, hrest] at hhead
    cases waiting with
    | operator o => cases hhead
    | function f => cases hhead
    | openParen => exact Or.inr ⟨others, rfl⟩

/-- Assumes: the operators that wait next are due. They are applied, and then the others are looked
at. -/
theorem reduceWhile_append {due : Pending → Option Operation} {waiting : List Operator}
    (hdue : ∀ o ∈ waiting, due (.operator o) = some o.operation) {forest next : Forest}
    (happly : forest.applyAll (waiting.map Operator.operation) = .ok next)
    (pending : List Pending) :
    reduceWhile due forest (waiting.map Pending.operator ++ pending) =
      reduceWhile due next pending := by
  induction waiting generalizing forest with
  | nil =>
    cases happly
    rfl
  | cons o waiting ih =>
    obtain ⟨middle, hfirst, hrest⟩ := exists_of_bind_eq_ok happly
    have hothers := ih (fun other hother ↦ hdue other (List.mem_cons_of_mem o hother)) hrest
    rw [List.map_cons, List.cons_append, reduceWhile]
    simp only [hdue o List.mem_cons_self, hfirst]
    exact hothers

/-- Assumes: only operators wait in an expression. At its end they are applied. -/
theorem reduceGroup_of_applyAll {waiting : List Operator} {forest next : Forest}
    (happly : forest.applyAll (waiting.map Operator.operation) = .ok next) {outer : List Pending}
    (houter : AtStart outer) :
    reduceGroup ⟨forest, waiting.map Pending.operator ++ outer⟩ = .ok ⟨next, outer⟩ := by
  rw [reduceGroup, reduceWhile_append (fun _ _ ↦ rfl) happly]
  rcases houter with rfl | ⟨others, rfl⟩ <;> rfl

/-! ### Taking a token -/

/-- What an assembly can do with a token, and what becomes of the assembly. -/
inductive Takes (g : Grammar) (assembly : Assembly) : Token → Assembly → Prop
  /-- A number becomes a tree. -/
  | literal {text : String} {value : Float} (hvalue : Numeral.value? text = some value) :
    Takes g assembly ⟨.number, text⟩ (assembly.plant (.literal value))
  /-- A name that is not the name of a function becomes a tree. -/
  | reference {name : String} (hname : g.function? name = none) :
    Takes g assembly ⟨.identifier, name⟩ (assembly.plant (.reference name))
  /-- The name of a function waits. -/
  | function {name : String} {f : NamedFunction} (hname : g.function? name = some f) :
    Takes g assembly ⟨.identifier, name⟩ (assembly.wait (.function f))
  /-- An operator waits, after the operations that are due before it. -/
  | operator {symbol : String} {o : Operator} {reduced : Assembly}
    (hsymbol : g.operator? symbol = some o)
    (hreduced : reduceWhile (Pending.dueBefore o) assembly.forest assembly.pending = .ok reduced) :
    Takes g assembly ⟨.operator, symbol⟩ (reduced.wait (.operator o))
  /-- An open parenthesis waits. -/
  | openParen {text : String} : Takes g assembly ⟨.openParen, text⟩ (assembly.wait .openParen)
  /-- A comma completes the argument before it. -/
  | comma {text : String} {forest : Forest} {others : List Pending}
    (hreduced : assembly.reduceGroup = .ok ⟨forest, .openParen :: others⟩) :
    Takes g assembly ⟨.comma, text⟩ ⟨forest, .openParen :: others⟩
  /-- A closing parenthesis completes a group. -/
  | closeGroup {text : String} {forest : Forest} {others : List Pending}
    (hreduced : assembly.reduceGroup = .ok ⟨forest, .openParen :: others⟩)
    (hgroup : ∀ f before, others ≠ .function f :: before) :
    Takes g assembly ⟨.closeParen, text⟩ ⟨forest, others⟩
  /-- A closing parenthesis completes the arguments of a function, which is applied. -/
  | closeCall {text : String} {forest applied : Forest} {f : NamedFunction} {others : List Pending}
    (hreduced : assembly.reduceGroup = .ok ⟨forest, .openParen :: .function f :: others⟩)
    (happly : forest.apply f.operation = .ok applied) :
    Takes g assembly ⟨.closeParen, text⟩ ⟨applied, others⟩

section Taking

variable {g : Grammar} {input text : String} {assembly next : Assembly}

theorem takes_of_takeComma_eq_ok (h : assembly.takeComma input = .ok next) :
    Takes g assembly ⟨.comma, text⟩ next := by
  obtain ⟨⟨forest, pending⟩, hreduced, hrest⟩ := exists_of_bind_eq_ok h
  rcases atStart_of_reduceGroup_eq_ok hreduced with hpending | ⟨others, hpending⟩
  · cases hpending
    cases hrest
  · cases hpending
    cases hrest
    exact .comma hreduced

theorem takes_of_takeCloseParen_eq_ok (h : assembly.takeCloseParen input = .ok next) :
    Takes g assembly ⟨.closeParen, text⟩ next := by
  obtain ⟨⟨forest, pending⟩, hreduced, hrest⟩ := exists_of_bind_eq_ok h
  rcases atStart_of_reduceGroup_eq_ok hreduced with hpending | ⟨others, hpending⟩
  · cases hpending
    cases hrest
  · cases hpending
    cases others with
    | nil =>
      cases hrest
      exact .closeGroup hreduced (fun _ _ hsame ↦ by cases hsame)
    | cons waiting others =>
      cases waiting with
      | operator o =>
        cases hrest
        exact .closeGroup hreduced (fun _ _ hsame ↦ by cases hsame)
      | openParen =>
        cases hrest
        exact .closeGroup hreduced (fun _ _ hsame ↦ by cases hsame)
      | function f =>
        obtain ⟨applied, happly, hsame⟩ := exists_of_bind_eq_ok hrest
        cases hsame
        exact .closeCall hreduced happly

/-- An assembly that takes a token does one of the listed things. -/
theorem takes_of_take_eq_ok {token : Token} (h : assembly.take g input token = .ok next) :
    Takes g assembly token next := by
  obtain ⟨kind, text⟩ := token
  cases kind with
  | number =>
    simp only [take] at h
    split at h
    · cases h
    · rename_i value hvalue
      cases h
      exact .literal hvalue
  | identifier =>
    simp only [take] at h
    split at h
    · rename_i hname
      cases h
      exact .reference hname
    · rename_i f hname
      cases h
      exact .function hname
  | operator =>
    simp only [take] at h
    split at h
    · cases h
    · rename_i o hsymbol
      obtain ⟨reduced, hreduced, hsame⟩ := exists_of_bind_eq_ok h
      cases hsame
      exact .operator hsymbol hreduced
  | openParen =>
    cases h
    exact .openParen
  | closeParen => exact takes_of_takeCloseParen_eq_ok h
  | comma => exact takes_of_takeComma_eq_ok h

end Taking

/-- Assumes: a property of the tokens that were read and the assembly, which stays true with every
token that is taken. It is true when a list of tokens was taken. -/
theorem keeps_of_foldlM_eq_ok {g : Grammar} {input : String} {P : List Token → Assembly → Prop}
    (hstep : ∀ {read : List Token} {assembly : Assembly} {token : Token} {next : Assembly},
      Takes g assembly token next → P read assembly → P (read ++ [token]) next)
    (read : List Token) {tokens : List Token} {assembly last : Assembly} (hstart : P read assembly)
    (h : tokens.foldlM (take g input) assembly = .ok last) : P (read ++ tokens) last := by
  induction tokens generalizing read assembly with
  | nil =>
    cases h
    rwa [List.append_nil]
  | cons token tokens ih =>
    obtain ⟨next, htake, hrest⟩ := exists_of_bind_eq_ok h
    have hlast := ih _ (hstep (takes_of_take_eq_ok htake) hstart) hrest
    rwa [List.append_assoc, List.singleton_append] at hlast

/-! ### The end of a formula -/

/-- A formula is complete when, with everything carried out, one tree is left. -/
theorem exists_of_finish_eq_ok {assembly : Assembly} {input : String} {arena : Arena}
    (h : assembly.finish input = .ok arena) :
    assembly.reduceGroup = .ok ⟨⟨arena.nodes, [arena.root]⟩, []⟩ := by
  obtain ⟨⟨⟨nodes, roots⟩, pending⟩, hreduced, hrest⟩ := exists_of_bind_eq_ok h
  rcases atStart_of_reduceGroup_eq_ok hreduced with hpending | ⟨others, hpending⟩
  · cases hpending
    match roots with
    | [] => cases hrest
    | [root] =>
      cases hrest
      exact hreduced
    | _ :: _ :: _ => cases hrest
  · cases hpending
    cases hrest

/-- A formula of which one tree is left is that tree. -/
theorem finish_of_reduceGroup {assembly : Assembly} {tree : Tree}
    (h : assembly.reduceGroup = .ok ⟨.ofTrees [tree], []⟩) (input : String) :
    assembly.finish input = .ok tree.arena := by
  rw [finish, h, Forest.ofTrees_singleton]
  rfl

end Assembly

/-- A text that compiles is cut into tokens without an error, and an assembly takes all of them. -/
theorem Grammar.exists_of_compile_eq_ok {g : Grammar} {input : String} {arena : Arena}
    (h : g.compile input = .ok arena) : (Lexer.run g (.ofText input)).failure = none ∧
      ∃ assembly : Assembly, (Lexer.run g (.ofText input)).tokens.foldlM (Assembly.take g input)
        .empty = .ok assembly ∧ assembly.finish input = .ok arena := by
  obtain ⟨assembly, hfold, hrest⟩ := exists_of_bind_eq_ok h
  cases hfailure : (Lexer.run g (.ofText input)).failure with
  | none =>
    rw [hfailure] at hrest
    exact ⟨rfl, assembly, hfold, hrest⟩
  | some error =>
    rw [hfailure] at hrest
    cases hrest

/-- A text whose tokens an assembly takes compiles to what the assembly is completed to. -/
theorem Grammar.compile_of_foldlM {g : Grammar} {input : String} {assembly : Assembly}
    (hfailure : (Lexer.run g (.ofText input)).failure = none)
    (hfold : (Lexer.run g (.ofText input)).tokens.foldlM (Assembly.take g input) .empty =
      .ok assembly) : g.compile input = assembly.finish input := by
  rw [compile]
  simp only [hfold, hfailure]
  rfl

/-! ### Forests list well-formed trees -/

namespace Forest

/-- Whether the forest lists well-formed trees. -/
def Lists (forest : Forest) : Prop :=
  ∃ trees : List Tree, (∀ tree ∈ trees, tree.WellFormed) ∧ forest = ofTrees trees

theorem lists_empty : empty.Lists := ⟨[], fun _ h ↦ (List.not_mem_nil h).elim, rfl⟩

theorem Lists.plant_literal {forest : Forest} (h : forest.Lists) (value : Float) :
    (forest.plant (.literal value)).Lists := by
  obtain ⟨trees, hwf, rfl⟩ := h
  refine ⟨_, ?_, Forest.plant_literal trees value⟩
  intro tree htree
  rcases List.mem_append.mp htree with htree | htree
  · exact hwf tree htree
  · exact List.mem_singleton.mp htree ▸ .literal value

theorem Lists.plant_reference {forest : Forest} (h : forest.Lists) (name : String) :
    (forest.plant (.reference name)).Lists := by
  obtain ⟨trees, hwf, rfl⟩ := h
  refine ⟨_, ?_, Forest.plant_reference trees name⟩
  intro tree htree
  rcases List.mem_append.mp htree with htree | htree
  · exact hwf tree htree
  · exact List.mem_singleton.mp htree ▸ .reference name

theorem Lists.apply {forest next : Forest} {operation : Operation} (h : forest.Lists)
    (happly : forest.apply operation = .ok next) : next.Lists := by
  obtain ⟨trees, hwf, rfl⟩ := h
  obtain ⟨kept, operands, rfl, hlength, rfl⟩ := exists_of_apply_ofTrees happly
  refine ⟨_, ?_, rfl⟩
  intro tree htree
  rcases List.mem_append.mp htree with htree | htree
  · exact hwf tree (List.mem_append_left operands htree)
  · rw [List.mem_singleton.mp htree]
    exact .operation hlength fun operand hoperand ↦
      hwf operand (List.mem_append_right kept hoperand)

theorem Lists.reduceWhile {due : Pending → Option Operation} {forest : Forest}
    {pending : List Pending} {reduced : Assembly} (h : forest.Lists)
    (hreduced : Assembly.reduceWhile due forest pending = .ok reduced) : reduced.forest.Lists :=
  Assembly.keeps_of_reduceWhile_eq_ok (P := fun assembly ↦ assembly.forest.Lists)
    (fun _ happly hlists ↦ hlists.apply happly) hreduced h

end Forest

theorem Assembly.Takes.lists {g : Grammar} {assembly next : Assembly} {token : Token}
    (h : Takes g assembly token next) (hlists : assembly.forest.Lists) : next.forest.Lists := by
  cases h with
  | literal hvalue => exact hlists.plant_literal _
  | reference hname => exact hlists.plant_reference _
  | function hname => exact hlists
  | operator hsymbol hreduced =>
    have hforest := hlists.reduceWhile hreduced
    exact hforest
  | openParen => exact hlists
  | comma hreduced => exact hlists.reduceWhile hreduced
  | closeGroup hreduced hgroup =>
    have hforest := hlists.reduceWhile hreduced
    exact hforest
  | closeCall hreduced happly => exact (hlists.reduceWhile hreduced).apply happly

namespace Grammar

/-- The arena of a text that compiles lists a well-formed tree. -/
theorem exists_tree_of_compile {g : Grammar} {input : String} {arena : Arena}
    (h : g.compile input = .ok arena) : ∃ tree : Tree, tree.WellFormed ∧ arena = tree.arena := by
  obtain ⟨-, assembly, hfold, hfinish⟩ := exists_of_compile_eq_ok h
  have hlists : assembly.forest.Lists :=
    Assembly.keeps_of_foldlM_eq_ok (P := fun _ assembly ↦ assembly.forest.Lists)
      (fun htakes ↦ htakes.lists) [] Forest.lists_empty hfold
  obtain ⟨trees, hwf, hforest⟩ := hlists.reduceWhile (Assembly.exists_of_finish_eq_ok hfinish)
  obtain ⟨hnodes, hroots⟩ := Forest.mk.inj hforest
  have hlength := congrArg List.length hroots
  simp only [List.length_singleton, List.length_reverse, Tree.length_roots] at hlength
  obtain ⟨tree, rfl⟩ := List.length_eq_one_iff.mp hlength.symm
  refine ⟨tree, hwf tree List.mem_cons_self, ?_⟩
  obtain ⟨nodes, root⟩ := arena
  simp only [Tree.roots, List.reverse_singleton, List.cons.injEq, and_true, Nat.zero_add] at hroots
  simp only [Tree.listingAll, List.append_nil] at hnodes
  rw [Tree.arena, hnodes, hroots]

/-- The arena of every text that compiles is in post-order, however the text is written. -/
theorem isPostOrder_of_compile {g : Grammar} {input : String} {arena : Arena}
    (h : g.compile input = .ok arena) : arena.IsPostOrder := by
  obtain ⟨tree, hwf, rfl⟩ := exists_tree_of_compile h
  exact hwf.isPostOrder_arena

/-- A text with its operands before its operations, and with functions that have no parentheses:
the sum of `2` and `x` and the number `pi` become the operands of `atan2`. -/
theorem isPostOrder_of_compile_operands_first :
    ∃ arena, standard.compile "2 x atan2 pi +" = .ok arena ∧ arena.IsPostOrder := by
  have hcompiles : (standard.compile "2 x atan2 pi +").isOk = true := by decide +kernel
  cases h : standard.compile "2 x atan2 pi +" with
  | error error =>
    rw [h] at hcompiles
    cases hcompiles
  | ok arena => exact ⟨arena, rfl, isPostOrder_of_compile h⟩

end Grammar

end Formulary
