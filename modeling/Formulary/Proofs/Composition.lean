import Formulary.Proofs.Juxtaposition
import Formulary.Proofs.Refusals
import Formulary.Proofs.Writing

/-!
# Formulas made of formulas

An open parenthesis separates what is read behind it from what waits before it. An assembly that
takes tokens on its own takes them behind a parenthesis as well (`Assembly.inside`), and does the
same there: nothing that is carried out reaches the trees below or what waits before the parenthesis
(`Assembly.reduceWhile_inside`, `Assembly.Takes.inside`). So a text that compiles is an argument
wherever one may stand (`Grammar.exists_isArgument_of_compile`), however it is written.

Main statement: a group has the arena of the text in it; an operator between two groups joins their
arenas (`Arena.join`); and the call of a function joins the arenas of its arguments if they are as
many as it takes, and is refused otherwise.
-/

set_option autoImplicit false
set_option relaxedAutoImplicit false

namespace Formulary

/-! ### Joining arenas -/

/-- The node behind `offset` other nodes in a table. -/
def Node.shift (offset : Nat) : Node → Node
  | .operation applied children => .operation applied (children.map (offset + ·))
  | node => node

namespace Arena

/-- The nodes of formulas, one formula after the other, when the first of them gets the index
`offset`. -/
def nodesFrom (offset : Nat) : List Arena → List Node
  | [] => []
  | arena :: arenas =>
    arena.nodes.toList.map (Node.shift offset) ++ nodesFrom (offset + arena.nodes.size) arenas

/-- The indices that the roots of the formulas have then. -/
def rootsFrom (offset : Nat) : List Arena → List Nat
  | [] => []
  | arena :: arenas => (offset + arena.root) :: rootsFrom (offset + arena.nodes.size) arenas

/-- The formula that applies an operation to formulas: their nodes one formula after the other, and
then the operation on their roots. -/
def join (operation : Operation) (arenas : List Arena) : Arena :=
  ⟨(nodesFrom 0 arenas ++ [Node.operation operation (rootsFrom 0 arenas)]).toArray,
    (nodesFrom 0 arenas).length⟩

end Arena

namespace Tree

theorem map_add_roots (offset base : Nat) (trees : List Tree) :
    (roots base trees).map (offset + ·) = roots (offset + base) trees := by
  induction trees generalizing base with
  | nil => rfl
  | cons tree trees ih =>
    have hroot : offset + (base + tree.size - 1) = offset + base + tree.size - 1 := by
      have hsize := tree.size_pos
      omega
    rw [roots, roots, List.map_cons, ih, hroot, Nat.add_assoc]

theorem map_shift_listingAll_of_forall {offset : Nat} {trees : List Tree}
    (h : ∀ tree ∈ trees, ∀ base,
      (tree.listing base).map (Node.shift offset) = tree.listing (offset + base)) (base : Nat) :
    (listingAll base trees).map (Node.shift offset) = listingAll (offset + base) trees := by
  induction trees generalizing base with
  | nil => rfl
  | cons tree trees ih =>
    have hothers := ih (fun other hother ↦ h other (List.mem_cons_of_mem tree hother))
    rw [listingAll, listingAll, List.map_append, h tree List.mem_cons_self, hothers, Nat.add_assoc]

/-- The nodes of a tree behind other nodes of a table. -/
theorem map_shift_listing (offset : Nat) (tree : Tree) (base : Nat) :
    (tree.listing base).map (Node.shift offset) = tree.listing (offset + base) := by
  induction tree generalizing base with
  | literal value => rfl
  | reference name => rfl
  | operation applied operands ih =>
    rw [listing, listing, List.map_append, map_shift_listingAll_of_forall ih, ← map_add_roots]
    rfl

theorem map_shift_listingAll (offset : Nat) (trees : List Tree) (base : Nat) :
    (listingAll base trees).map (Node.shift offset) = listingAll (offset + base) trees :=
  map_shift_listingAll_of_forall (fun tree _ ↦ tree.map_shift_listing offset) base

theorem nodesFrom_map_arena (offset : Nat) (trees : List Tree) :
    Arena.nodesFrom offset (trees.map arena) = listingAll offset trees := by
  induction trees generalizing offset with
  | nil => rfl
  | cons tree trees ih =>
    have hnodes : tree.arena.nodes.toList.map (Node.shift offset) = tree.listing offset :=
      map_shift_listing offset tree 0
    rw [List.map_cons, Arena.nodesFrom, hnodes, size_nodes_arena, ih, listingAll]

theorem rootsFrom_map_arena (offset : Nat) (trees : List Tree) :
    Arena.rootsFrom offset (trees.map arena) = roots offset trees := by
  induction trees generalizing offset with
  | nil => rfl
  | cons tree trees ih =>
    have hroot : offset + tree.arena.root = offset + tree.size - 1 :=
      (Nat.add_sub_assoc tree.size_pos offset).symm
    rw [List.map_cons, Arena.rootsFrom, hroot, size_nodes_arena, ih, roots]

/-- Joining the arenas of trees lists the operation on these trees. -/
theorem join_map_arena (operation : Operation) (trees : List Tree) :
    Arena.join operation (trees.map arena) = (Tree.operation operation trees).arena := by
  rw [Arena.join, nodesFrom_map_arena, rootsFrom_map_arena, arena, listing, size,
    length_listingAll, Nat.add_sub_cancel]

end Tree

/-! ### Behind an open parenthesis -/

namespace Forest

/-- The forest with the trees of another forest below its trees. -/
def above (forest kept : Forest) : Forest :=
  ⟨kept.nodes ++ forest.nodes.map (Node.shift kept.nodes.size),
    forest.roots.map (kept.nodes.size + ·) ++ kept.roots⟩

theorem plant_above (forest kept : Forest) (node : Node) : (forest.plant node).above kept =
    (forest.above kept).plant (node.shift kept.nodes.size) := by
  simp [plant, above]

/-- An operation that can be applied takes no operands from the trees below. -/
theorem apply_above {forest next : Forest} {operation : Operation}
    (h : forest.apply operation = .ok next) (kept : Forest) :
    (forest.above kept).apply operation = .ok (next.above kept) := by
  by_cases hfew : forest.roots.length < operation.arity
  · rw [(apply_eq_error_iff forest operation _).mpr ⟨hfew, rfl⟩] at h
    cases h
  · have hplenty : ¬ (forest.above kept).roots.length < operation.arity := by
      simp only [above, List.length_append, List.length_map]
      omega
    have hshort : operation.arity ≤ (forest.roots.map (kept.nodes.size + ·)).length := by
      rw [List.length_map]
      omega
    simp only [apply, if_neg hfew] at h
    cases h
    simp only [apply, if_neg hplenty, plant_above]
    simp only [above, List.take_append_of_le_length hshort, List.drop_append_of_le_length hshort,
      List.map_take, List.map_drop, List.map_reverse, Node.shift]

/-- The last trees of a forest stand above the others. -/
theorem ofTrees_append (kept trees : List Tree) :
    ofTrees (kept ++ trees) = (ofTrees trees).above (ofTrees kept) := by
  have hsize : (ofTrees kept).nodes.size = Tree.sizeAll kept := Tree.length_listingAll kept 0
  have hnodes := Tree.map_shift_listingAll (Tree.sizeAll kept) trees 0
  have hroots := Tree.map_add_roots (Tree.sizeAll kept) 0 trees
  rw [above, hsize]
  simp only [ofTrees, Tree.listingAll_append, Tree.roots_append, List.map_toArray, hnodes,
    List.append_toArray, List.map_reverse, hroots, List.reverse_append, Nat.zero_add, Nat.add_zero]

end Forest

namespace Assembly

/-- The assembly behind an open parenthesis: the trees of `kept` are below its trees, and the
parenthesis and `others` wait behind what waits in it. -/
def inside (assembly : Assembly) (kept : Forest) (others : List Pending) : Assembly :=
  ⟨assembly.forest.above kept, assembly.pending ++ .openParen :: others⟩

section Inside

variable {g : Grammar} {input : String} {assembly next : Assembly} {token : Token}

/-- What is carried out stops at the parenthesis, and is the same up to there. -/
theorem reduceWhile_inside {due : Pending → Option Operation} (hdue : due .openParen = none)
    {forest : Forest} {pending : List Pending} (h : reduceWhile due forest pending = .ok next)
    (kept : Forest) (others : List Pending) :
    reduceWhile due (forest.above kept) (pending ++ .openParen :: others) =
      .ok (next.inside kept others) := by
  induction pending generalizing forest with
  | nil =>
    cases h
    rw [List.nil_append, reduceWhile, hdue]
    rfl
  | cons waiting pending ih =>
    rw [reduceWhile] at h
    rw [List.cons_append, reduceWhile]
    cases hwaiting : due waiting with
    | none =>
      rw [hwaiting] at h
      cases h
      rfl
    | some operation =>
      rw [hwaiting] at h
      obtain ⟨applied, happly, hrest⟩ := exists_of_bind_eq_ok h
      simp only [Forest.apply_above happly kept]
      exact ih hrest

theorem reduceGroup_inside (h : assembly.reduceGroup = .ok next) (kept : Forest)
    (others : List Pending) :
    (assembly.inside kept others).reduceGroup = .ok (next.inside kept others) :=
  reduceWhile_inside rfl h kept others

/-- A token that is taken is taken behind the parenthesis as well. -/
theorem Takes.inside (h : Takes g assembly token next) (input : String) (kept : Forest)
    (others : List Pending) :
    take g input (assembly.inside kept others) token = .ok (next.inside kept others) := by
  cases h with
  | literal hvalue =>
    simp only [take, hvalue, Assembly.inside, plant, Forest.plant_above]
    rfl
  | reference hname =>
    simp only [take, hname, Assembly.inside, plant, Forest.plant_above]
    rfl
  | function hname =>
    simp only [take, hname]
    rfl
  | operator hsymbol hreduced =>
    have hcarried := reduceWhile_inside rfl hreduced kept others
    simp only [take, hsymbol, takeOperator, Assembly.inside, hcarried]
    rfl
  | openParen => rfl
  | comma hreduced => exact takeComma_of_reduceGroup (reduceGroup_inside hreduced kept others)
  | @closeGroup text forest before hreduced hgroup =>
    refine (takeCloseParen_of_reduceGroup (reduceGroup_inside hreduced kept others)).trans
      (applyFunction_of_ne ?_)
    intro f behind hfunction
    -- The parenthesis behind which the assembly stands is not the name of a function.
    cases before with
    | nil => cases hfunction
    | cons waiting before =>
      cases hfunction
      exact hgroup f before rfl
  | @closeCall text forest applied f before hreduced happly =>
    have hclose : takeCloseParen (assembly.inside kept others) input =
        applyFunction ⟨forest.above kept, .function f :: (before ++ .openParen :: others)⟩ :=
      takeCloseParen_of_reduceGroup (reduceGroup_inside hreduced kept others)
    refine hclose.trans ?_
    simp only [applyFunction, Forest.apply_above happly kept]
    rfl

/-- Tokens that are taken are taken behind the parenthesis as well. -/
theorem foldlM_inside {tokens : List Token}
    (h : tokens.foldlM (take g input) assembly = .ok next) (outerInput : String) (kept : Forest)
    (others : List Pending) : tokens.foldlM (take g outerInput) (assembly.inside kept others) =
      .ok (next.inside kept others) := by
  induction tokens generalizing assembly with
  | nil =>
    cases h
    rfl
  | cons token tokens ih =>
    obtain ⟨middle, htake, hrest⟩ := exists_of_bind_eq_ok h
    rw [List.foldlM_cons, (takes_of_take_eq_ok htake).inside outerInput kept others]
    exact ih hrest

end Inside

end Assembly

/-- A formula of which another number of trees than one is left is refused. -/
theorem Assembly.finish_of_length_ne_one {assembly : Assembly} {forest : Forest}
    (h : assembly.reduceGroup = .ok ⟨forest, []⟩) (hcount : forest.roots.length ≠ 1)
    (input : String) :
    assembly.finish input = .error (.leftoverOperands forest.roots.length) := by
  rw [finish, h]
  obtain ⟨nodes, _ | ⟨root, _ | ⟨second, roots⟩⟩⟩ := forest
  · rfl
  · exact (hcount rfl).elim
  · rfl

/-! ### Texts that compile, as arguments -/

namespace Grammar

variable {g : Grammar}

/-- A text that compiles is an argument wherever one may stand, with the tree that its arena
lists. -/
theorem exists_isArgument_of_compile {t : String} {arena : Arena} (h : g.compile t = .ok arena) :
    ∃ tree : Tree, arena = tree.arena ∧ ∀ input, IsArgument g input (g.tokens t) tree := by
  obtain ⟨-, assembly, hread, hfinish⟩ := exists_of_compile_eq_ok h
  obtain ⟨tree, -, rfl⟩ := exists_tree_of_compile h
  refine ⟨tree, rfl, fun input kept others ↦ ?_⟩
  have hstart : Assembly.inside .empty (.ofTrees kept) others =
      ⟨.ofTrees kept, .openParen :: others⟩ := by
    have happend := Forest.ofTrees_append kept []
    rw [List.append_nil] at happend
    exact congrArg (Assembly.mk · (.openParen :: others)) happend.symm
  have hfold := Assembly.foldlM_inside hread input (.ofTrees kept) others
  rw [hstart] at hfold
  refine ⟨_, hfold, ?_⟩
  have hreduced := Assembly.exists_of_finish_eq_ok hfinish
  rw [← Forest.ofTrees_singleton] at hreduced
  rw [Assembly.reduceGroup_inside hreduced, Forest.ofTrees_append]
  rfl

/-- Arguments that compile are read as the trees that their arenas list. -/
theorem exists_isArgument_of_forall_compile {arguments : List (String × Arena)}
    (h : ∀ argument ∈ arguments, g.compile argument.1 = .ok argument.2) :
    ∃ read : List (List Token × Tree),
      read.map Prod.fst = (arguments.map Prod.fst).map g.tokens ∧
      arguments.map Prod.snd = (read.map Prod.snd).map Tree.arena ∧
      ∀ argument ∈ read, ∀ input, IsArgument g input argument.1 argument.2 := by
  induction arguments with
  | nil => exact ⟨[], rfl, rfl, List.forall_mem_nil _⟩
  | cons argument arguments ih =>
    obtain ⟨hargument, hothers⟩ := List.forall_mem_cons.mp h
    obtain ⟨tree, harena, htree⟩ := exists_isArgument_of_compile hargument
    obtain ⟨read, htokens, harenas, hread⟩ := ih hothers
    refine ⟨(g.tokens argument.1, tree) :: read, ?_, ?_, List.forall_mem_cons.mpr ⟨htree, hread⟩⟩
    · rw [List.map_cons, htokens, List.map_cons, List.map_cons]
    · rw [List.map_cons, harena, harenas, List.map_cons, List.map_cons]

/-! ### The tokens of pieces -/

/-- Whether each of the pieces is cut into tokens without an error, and these are the tokens of all
of them, one piece after the other. -/
structure CutsInto (g : Grammar) (pieces : List String) (tokens : List Token) : Prop where
  lexes : ∀ piece ∈ pieces, (Lexer.run g (.ofText piece)).failure = none
  flatMap_tokens : pieces.flatMap g.tokens = tokens

namespace CutsInto

variable {pieces others : List String} {tokens behind : List Token}

theorem nil : g.CutsInto [] [] := ⟨List.forall_mem_nil _, rfl⟩

theorem of_stands {token : Token} (h : token.Stands g) : g.CutsInto [token.text] [token] where
  lexes := List.forall_mem_singleton.mpr (congrArg LexerRun.failure (Lexer.run_of_stands h))
  flatMap_tokens :=
    (List.flatMap_singleton _ _).trans (congrArg LexerRun.tokens (Lexer.run_of_stands h))

theorem of_compile {t : String} {arena : Arena} (h : g.compile t = .ok arena) :
    g.CutsInto [t] (g.tokens t) where
  lexes := List.forall_mem_singleton.mpr (exists_of_compile_eq_ok h).1
  flatMap_tokens := List.flatMap_singleton _ _

theorem append (h : g.CutsInto pieces tokens) (hothers : g.CutsInto others behind) :
    g.CutsInto (pieces ++ others) (tokens ++ behind) where
  lexes := List.forall_mem_append.mpr ⟨h.lexes, hothers.lexes⟩
  flatMap_tokens := by rw [List.flatMap_append, h.flatMap_tokens, hothers.flatMap_tokens]

theorem group (hg : g.Consistent) (h : g.CutsInto pieces tokens) :
    g.CutsInto ("(" :: (pieces ++ [")"]))
      (⟨.openParen, "("⟩ :: (tokens ++ [⟨.closeParen, ")"⟩])) :=
  (of_stands hg.stands_openParen).append (h.append (of_stands hg.stands_closeParen))

/-- Arguments with commas between them. -/
theorem exists_intersperse (hg : g.Consistent) {arguments : List (String × Arena)}
    (h : ∀ argument ∈ arguments, g.compile argument.1 = .ok argument.2) :
    ∃ inner, g.CutsInto ((arguments.map Prod.fst).intersperse ",") inner ∧
      Separated ((arguments.map Prod.fst).map g.tokens) inner := by
  induction arguments with
  | nil => exact ⟨[], nil, .none⟩
  | cons first others ih =>
    obtain ⟨hfirst, hothers⟩ := List.forall_mem_cons.mp h
    cases others with
    | nil => exact ⟨_, of_compile hfirst, .one _⟩
    | cons second others =>
      obtain ⟨inner, hcuts, hseparated⟩ := ih hothers
      have hcomma := of_stands hg.stands_comma
      exact ⟨_, (of_compile hfirst).append (hcomma.append hcuts),
        hseparated.cons (List.cons_ne_nil _ _) "," _⟩

/-- A text of pieces is cut into the tokens of the pieces. -/
theorem text (h : g.CutsInto pieces tokens) (hg : g.Consistent) {text : String}
    (hpieces : Pieces pieces text.toList) :
    (Lexer.run g (.ofText text)).failure = none ∧ g.tokens text = tokens := by
  have hrun : Lexer.run g (.ofText text) = _ := Lexer.run_of_pieces hg hpieces h.lexes
  exact ⟨congrArg LexerRun.failure hrun, (congrArg LexerRun.tokens hrun).trans h.flatMap_tokens⟩

end CutsInto

/-! ### Whole texts -/

theorem compile_of_foldlM_eq_error {input : String} {error : CompileError}
    (h : (g.tokens input).foldlM (Assembly.take g input) .empty = .error error) :
    g.compile input = .error error := by
  rw [compile]
  exact congrArg (· >>= _) h

section Whole

variable {input : String} {first second : List Token} {left right : Tree}

/-- An operand that is the whole text has the arena of its tree. -/
theorem compile_of_isOperand (hlexes : (Lexer.run g (.ofText input)).failure = none) {tree : Tree}
    (h : IsOperand g input (g.tokens input) tree) : g.compile input = .ok tree.arena := by
  have hread := h [] [] fun f others hfunction ↦ by cases hfunction
  rw [compile_of_foldlM hlexes hread]
  exact Assembly.finish_of_reduceGroup rfl input

/-- An operator between two operands that are the whole text has the arena of their trees. -/
theorem compile_of_binary (hlexes : (Lexer.run g (.ofText input)).failure = none)
    {symbol : String} {o : Operator} (ho : g.operator? symbol = some o)
    (htokens : g.tokens input = first ++ ⟨.operator, symbol⟩ :: second)
    (hfirst : IsOperand g input first left) (hsecond : IsOperand g input second right) :
    g.compile input = .ok (Tree.operation o.operation [left, right]).arena := by
  have hread : (g.tokens input).foldlM (Assembly.take g input) .empty =
      .ok ⟨.ofTrees [left, right], [.operator o]⟩ := by
    have hleft := hfirst [] [] fun f others hfunction ↦ by cases hfunction
    have hright := hsecond [left] [.operator o] fun f others hfunction ↦ by cases hfunction
    have htake : Assembly.take g input ⟨.ofTrees [left], []⟩ ⟨.operator, symbol⟩ =
        .ok ⟨.ofTrees [left], [.operator o]⟩ := by
      simp only [Assembly.take, ho]
      rfl
    rw [htokens, List.foldlM_append]
    refine (congrArg (· >>= _) hleft).trans ?_
    show List.foldlM (Assembly.take g input) ⟨.ofTrees [left], []⟩ _ = _
    rw [List.foldlM_cons, htake]
    exact hright
  have happly : (Forest.ofTrees [left, right]).apply o.operation =
      .ok (.ofTrees [.operation o.operation [left, right]]) := Forest.apply_ofTrees rfl []
  rw [compile_of_foldlM hlexes hread]
  refine Assembly.finish_of_reduceGroup ?_ input
  simp only [Assembly.reduceGroup, Assembly.reduceWhile, Pending.operation?, happly]
  rfl

/-- The call of a function that is the whole text applies it to its arguments, if they are as many
as it takes, and is refused otherwise. -/
theorem compile_of_call (hlexes : (Lexer.run g (.ofText input)).failure = none) {name : String}
    {f : NamedFunction} (hname : g.function? name = some f) {arguments : List (List Token × Tree)}
    (h : ∀ argument ∈ arguments, IsArgument g input argument.1 argument.2) {inner : List Token}
    (hinner : Separated (arguments.map Prod.fst) inner)
    (htokens : g.tokens input =
      ⟨.identifier, name⟩ :: ⟨.openParen, "("⟩ :: (inner ++ [⟨.closeParen, ")"⟩])) :
    (arguments.length = f.arity → g.compile input =
      .ok (Tree.operation f.operation (arguments.map Prod.snd)).arena) ∧
    (arguments.length < f.arity → g.compile input =
      .error (.missingOperands f.operation.label f.arity arguments.length)) ∧
    (f.arity < arguments.length → g.compile input =
      .error (.leftoverOperands (arguments.length - f.arity + 1))) := by
  have hread : (g.tokens input).foldlM (Assembly.take g input) .empty =
      Assembly.applyFunction ⟨.ofTrees (arguments.map Prod.snd), [.function f]⟩ := by
    rw [htokens]
    exact foldlM_call hname h hinner "(" ")" [] []
  refine ⟨fun hcount ↦ ?_, fun hfew ↦ ?_, fun hmany ↦ ?_⟩
  · refine compile_of_isOperand hlexes ?_
    rw [htokens]
    exact isOperand_call hname hcount h hinner "(" ")"
  · have hlength : (arguments.map Prod.snd).length = arguments.length := List.length_map _
    have happly : (Forest.ofTrees (arguments.map Prod.snd)).apply f.operation =
        .error (.missingOperands f.operation.label f.arity arguments.length) := by
      have hfewTrees : (arguments.map Prod.snd).length < f.operation.arity := by rwa [hlength]
      rw [Forest.apply_ofTrees_eq_error hfewTrees, hlength]
      rfl
    refine compile_of_foldlM_eq_error (hread.trans ?_)
    simp only [Assembly.applyFunction, happly]
    rfl
  · obtain ⟨kept, operands, hsplit, hkept, hoperands⟩ :
        ∃ kept operands : List Tree, arguments.map Prod.snd = kept ++ operands ∧
          kept.length = arguments.length - f.arity ∧ operands.length = f.operation.arity := by
      refine ⟨_, _, (List.take_append_drop (arguments.length - f.arity) _).symm, ?_, ?_⟩
      · rw [List.length_take, List.length_map]
        exact Nat.min_eq_left (Nat.sub_le _ _)
      · rw [List.length_drop, List.length_map]
        exact Nat.sub_sub_self (Nat.le_of_lt hmany)
    have hroots : (Forest.ofTrees (kept ++ [.operation f.operation operands])).roots.length =
        arguments.length - f.arity + 1 := by
      rw [Forest.length_roots_ofTrees, List.length_append, hkept, List.length_singleton]
    have happly : Assembly.applyFunction ⟨.ofTrees (arguments.map Prod.snd), [.function f]⟩ =
        .ok ⟨.ofTrees (kept ++ [.operation f.operation operands]), []⟩ := by
      simp only [Assembly.applyFunction, hsplit, Forest.apply_ofTrees hoperands]
      rfl
    rw [compile_of_foldlM hlexes (hread.trans happly), ← hroots]
    refine Assembly.finish_of_length_ne_one rfl ?_ input
    rw [hroots]
    omega

end Whole

/-- Assumes: a reachable grammar, texts that compile on their own, and a text that is made of them
with whitespace between its parts. A group of one of them has its arena. An operator between two
groups has the arena that joins theirs. The call of a function has the arena that joins those of the
arguments if they are as many as the function takes. With fewer arguments, operands are missing, and
with more, the others are left over beside the call. -/
theorem Reachable.compile_of_pieces {g : Grammar} (hg : g.Reachable) :
    (∀ t arena text, g.compile t = .ok arena → Pieces ["(", t, ")"] text.toList →
      g.compile text = .ok arena) ∧
    (∀ t u symbol o first second text, g.compile t = .ok first → g.compile u = .ok second →
      g.operator? symbol = some o →
      Pieces ["(", t, ")", symbol, "(", u, ")"] text.toList →
      g.compile text = .ok (.join o.operation [first, second])) ∧
    (∀ (name : String) (f : NamedFunction) (arguments : List (String × Arena)) (text : String),
      g.function? name = some f →
      (∀ argument ∈ arguments, g.compile argument.1 = .ok argument.2) →
      Pieces (name :: "(" :: ((arguments.map Prod.fst).intersperse "," ++ [")"])) text.toList →
      (arguments.length = f.arity →
        g.compile text = .ok (.join f.operation (arguments.map Prod.snd))) ∧
      (arguments.length < f.arity → g.compile text =
        .error (.missingOperands (name ++ "()") f.arity arguments.length)) ∧
      (f.arity < arguments.length → g.compile text =
        .error (.leftoverOperands (arguments.length - f.arity + 1)))) := by
  have hg := hg.consistent
  refine ⟨?_, ?_, ?_⟩
  · intro t arena text ht hpieces
    obtain ⟨tree, rfl, htree⟩ := exists_isArgument_of_compile ht
    obtain ⟨hlexes, htokens⟩ := ((CutsInto.of_compile ht).group hg).text hg hpieces
    refine compile_of_isOperand hlexes ?_
    rw [htokens]
    exact (htree text).isOperand "(" ")"
  · intro t u symbol o first second text ht hu ho hpieces
    obtain ⟨left, rfl, hleft⟩ := exists_isArgument_of_compile ht
    obtain ⟨right, rfl, hright⟩ := exists_isArgument_of_compile hu
    have hsymbol := CutsInto.of_stands (hg.stands_operator ho)
    have hcuts := ((CutsInto.of_compile ht).group hg).append
      (hsymbol.append ((CutsInto.of_compile hu).group hg))
    obtain ⟨hlexes, htokens⟩ := hcuts.text hg hpieces
    have hjoin := Tree.join_map_arena o.operation [left, right]
    rw [List.map_cons, List.map_singleton] at hjoin
    rw [hjoin]
    exact compile_of_binary hlexes ho htokens ((hleft text).isOperand "(" ")")
      ((hright text).isOperand "(" ")")
  · intro name f arguments text hname harguments hpieces
    obtain ⟨read, hread, harenas, hargument⟩ := exists_isArgument_of_forall_compile harguments
    obtain ⟨inner, hcuts, hseparated⟩ := CutsInto.exists_intersperse hg harguments
    have hidentifier := Token.stands_identifier g (hg.function_name _ _ hname).2
    have hcall := (CutsInto.of_stands hidentifier).append (hcuts.group hg)
    obtain ⟨hlexes, htokens⟩ := hcall.text hg hpieces
    rw [← hread] at hseparated
    have hcount : read.length = arguments.length := by
      have hlength := congrArg List.length hread
      simpa only [List.length_map] using hlength
    have hlabel : f.operation.label = name ++ "()" := by
      rw [NamedFunction.operation, (hg.function_name _ _ hname).1]
    have hwhole := compile_of_call hlexes hname (fun argument hread ↦ hargument argument hread text)
      hseparated htokens
    rwa [hcount, hlabel, ← Tree.join_map_arena, ← harenas] at hwhole

/-- Texts with their operators behind the operands, as groups and as one, two or three arguments. -/
theorem compile_of_pieces_postfix :
    standard.Reachable ∧ ∃ sum turn : Arena,
      standard.compile "1 2 +" = .ok sum ∧ standard.compile "y 2 atan2" = .ok turn ∧
      standard.compile " ( 1 2 + )" = .ok sum ∧
      standard.compile " ( 1 2 + ) - ( y 2 atan2 )" =
        .ok (.join difference.operation [sum, turn]) ∧
      standard.compile " atan2 ( 1 2 + , y 2 atan2 )" =
        .ok (.join angle.operation [sum, turn]) ∧
      standard.compile " atan2 ( 1 2 + )" = .error (.missingOperands "atan2()" 2 1) ∧
      standard.compile " atan2 ( 1 2 + , y 2 atan2 , 1 2 + )" = .error (.leftoverOperands 2) := by
  have hpieces {pieces : List String} {text : String}
      (h : (pieces.flatMap fun piece ↦ ' ' :: piece.toList) = text.toList) :
      Pieces pieces text.toList := h ▸ pieces_flatMap pieces
  obtain ⟨sum, hsum⟩ := exists_of_isOk (show (standard.compile "1 2 +").isOk = true by
    decide +kernel)
  obtain ⟨turn, hturn⟩ := exists_of_isOk (show (standard.compile "y 2 atan2").isOk = true by
    decide +kernel)
  obtain ⟨hgroup, hbinary, hcall⟩ := Reachable.compile_of_pieces .standard
  have hangle : standard.function? "atan2" = some angle := rfl
  have htwo : ∀ argument ∈ [("1 2 +", sum), ("y 2 atan2", turn)],
      standard.compile argument.1 = .ok argument.2 :=
    List.forall_mem_cons.mpr ⟨hsum, List.forall_mem_singleton.mpr hturn⟩
  have hthree : ∀ argument ∈ [("1 2 +", sum), ("y 2 atan2", turn), ("1 2 +", sum)],
      standard.compile argument.1 = .ok argument.2 :=
    List.forall_mem_cons.mpr ⟨hsum, List.forall_mem_cons.mpr
      ⟨hturn, List.forall_mem_singleton.mpr hsum⟩⟩
  refine ⟨.standard, sum, turn, hsum, hturn, ?_, ?_, ?_, ?_, ?_⟩
  · exact hgroup _ _ _ hsum (hpieces (by decide +kernel))
  · exact hbinary _ _ "-" difference _ _ _ hsum hturn rfl (hpieces (by decide +kernel))
  · have hcommas : Pieces ["atan2", "(", "1 2 +", ",", "y 2 atan2", ")"]
        " atan2 ( 1 2 + , y 2 atan2 )".toList := hpieces (by decide +kernel)
    exact (hcall _ _ _ _ hangle htwo hcommas).1 rfl
  · have hone : ∀ argument ∈ [("1 2 +", sum)], standard.compile argument.1 = .ok argument.2 :=
      List.forall_mem_singleton.mpr hsum
    have hcommas : Pieces ["atan2", "(", "1 2 +", ")"] " atan2 ( 1 2 + )".toList :=
      hpieces (by decide +kernel)
    exact (hcall _ _ _ _ hangle hone hcommas).2.1 Nat.one_lt_two
  · have hcommas : Pieces ["atan2", "(", "1 2 +", ",", "y 2 atan2", ",", "1 2 +", ")"]
        " atan2 ( 1 2 + , y 2 atan2 , 1 2 + )".toList := hpieces (by decide +kernel)
    exact (hcall _ _ _ _ hangle hthree hcommas).2.2 (Nat.lt_add_one 2)

end Grammar

end Formulary
