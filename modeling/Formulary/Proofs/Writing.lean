import Formulary.Proofs.DecimalNumeral
import Formulary.Proofs.Operands

/-!
# Reading what is written

An expression (`Term`) is written as tokens in infix notation. An operator that stands as an operand
of another needs parentheses unless precedence and associativity say that it does not
(`Place.Admits`), and any operand may have more parentheses than it needs (`Writes`).

Main statement: a text that is written so, with whitespace between the tokens, compiles to the
listing of the tree of the expression.

While an operand is read, the operators on its right edge wait with their left operands in the
forest. Carried out, they make the operand one tree; and all of them bind at least as tightly as
some operator that its place admits, so they are carried out before the operator that follows the
operand (`Reads`). What waits before a place leaves the operand to every operator that the place
admits (`Place.Free`).
-/

set_option autoImplicit false
set_option relaxedAutoImplicit false

namespace Formulary

open Text

/-! ### Expressions and how they are written -/

/-- An expression over a grammar: a decimal numeral, a name that is not the name of a function, a
registered operator with two operands, or a registered function with as many arguments as it
takes. -/
inductive Term (g : Grammar)
  | numeral (written : Numeral.Written)
  | reference (name : String) (hname : Grammar.isIdentifier name = true)
    (hfree : g.function? name = none)
  | binary (o : Operator) (ho : g.operator? o.symbol = some o) (left right : Term g)
  | call (f : NamedFunction) (hf : g.function? f.name = some f) (arguments : Fin f.arity → Term g)

/-- The tree that an expression stands for. -/
def Term.tree {g : Grammar} : Term g → Tree
  | .numeral written => .literal written.value
  | .reference name _ _ => .reference name
  | .binary o _ left right => .operation o.operation [left.tree, right.tree]
  | .call f _ arguments => .operation f.operation (List.ofFn fun i ↦ (arguments i).tree)

/-- Where an expression stands: alone, between parentheses or commas, or as an operand. -/
inductive Place
  | whole
  | leftOf (o : Operator)
  | rightOf (o : Operator)

/-- Whether the operator may stand in the place without parentheses around it and its operands. As
the left operand of `o` it must bind more tightly than `o`, or equally tightly if `o` associates to
the left; as the right operand, more tightly, or equally tightly if it associates to the right. -/
def Place.Admits : Place → Operator → Prop
  | .whole, _ => True
  | .leftOf o, p => o.precedence < p.precedence ∨
    p.precedence = o.precedence ∧ o.associativity = .left
  | .rightOf o, p => o.precedence < p.precedence ∨
    p.precedence = o.precedence ∧ p.associativity = .right

/-- Lists of tokens with a comma between each and the next. -/
def commaSeparated : List (List Token) → List Token
  | [] => []
  | [tokens] => tokens
  | tokens :: others => tokens ++ ⟨.comma, ","⟩ :: commaSeparated others

/-- Whether the tokens write the expression in a place. There are parentheses around an operator
that its place does not admit, and there may be parentheses around anything. -/
inductive Writes {g : Grammar} : Place → Term g → List Token → Prop
  | numeral {place : Place} (written : Numeral.Written) :
    Writes place (.numeral written) [⟨.number, written.text⟩]
  | reference {place : Place} {name : String} (hname : Grammar.isIdentifier name = true)
    (hfree : g.function? name = none) :
    Writes place (.reference name hname hfree) [⟨.identifier, name⟩]
  | binary {place : Place} {o : Operator} (ho : g.operator? o.symbol = some o) {left right : Term g}
    {first second : List Token} (hplace : place.Admits o) (hleft : Writes (.leftOf o) left first)
    (hright : Writes (.rightOf o) right second) :
    Writes place (.binary o ho left right) (first ++ ⟨.operator, o.symbol⟩ :: second)
  | call {place : Place} {f : NamedFunction} (hf : g.function? f.name = some f)
    {arguments : Fin f.arity → Term g} {tokens : Fin f.arity → List Token}
    (harguments : ∀ i, Writes .whole (arguments i) (tokens i)) :
    Writes place (.call f hf arguments) (⟨.identifier, f.name⟩ :: ⟨.openParen, "("⟩ ::
      (commaSeparated (List.ofFn tokens) ++ [⟨.closeParen, ")"⟩]))
  | group {place : Place} {term : Term g} {tokens : List Token} (h : Writes .whole term tokens) :
    Writes place term (⟨.openParen, "("⟩ :: (tokens ++ [⟨.closeParen, ")"⟩]))

/-! ### What is carried out before an operator -/

section Operators

variable {o p q : Operator}

theorem Operator.bindsBefore_iff : o.bindsBefore p = true ↔ (Place.leftOf p).Admits o := by
  simp [bindsBefore, Place.Admits]

theorem Operator.not_bindsBefore_iff : o.bindsBefore p = false ↔ (Place.rightOf o).Admits p := by
  have hside : p.associativity = .right ↔ p.associativity ≠ .left := by
    cases p.associativity <;> simp
  simp only [bindsBefore, Place.Admits, Bool.or_eq_false_iff, decide_eq_false_iff_not,
    Bool.and_eq_false_imp, beq_iff_eq, beq_eq_false_iff_ne, hside]
  constructor
  · rintro ⟨hle, hequal⟩
    by_cases heq : o.precedence = p.precedence
    · exact Or.inr ⟨heq.symm, hequal heq⟩
    · exact Or.inl (by omega)
  · rintro (hlt | ⟨heq, hassociativity⟩)
    · exact ⟨by omega, fun heq ↦ by omega⟩
    · exact ⟨by omega, fun _ ↦ hassociativity⟩

/-- An operator that binds at least as tightly as one that is carried out is carried out as well. -/
theorem Operator.bindsBefore_of_le (h : o.bindsBefore q = true)
    (hle : o.precedence ≤ p.precedence) : p.bindsBefore q = true := by
  rw [bindsBefore_iff] at h ⊢
  rcases h with hlt | ⟨heq, hassociativity⟩
  · exact Or.inl (by omega)
  · by_cases hsame : p.precedence = q.precedence
    · exact Or.inr ⟨hsame, hassociativity⟩
    · exact Or.inl (by omega)

/-- An operator that leaves its right operand to `p` leaves it to whatever `p` admits on its
left. -/
theorem Operator.not_bindsBefore_of_admits (h : o.bindsBefore p = false)
    (hq : (Place.leftOf p).Admits q) : o.bindsBefore q = false := by
  rw [not_bindsBefore_iff] at h ⊢
  rcases h with hlt | ⟨heq, hright⟩
  · rcases hq with hqlt | ⟨hqeq, -⟩
    · exact Or.inl (by omega)
    · exact Or.inl (by omega)
  · rcases hq with hqlt | ⟨-, hleft⟩
    · exact Or.inl (by omega)
    · rw [hleft] at hright
      cases hright

end Operators

namespace Place

/-- Whether what waits before a place leaves the operand to every operator that the place admits. A
function that waits would take a group for its arguments. -/
def Free (place : Place) : List Pending → Prop
  | .operator o :: _ => ∀ p, place.Admits p → o.bindsBefore p = false
  | .function _ :: _ => False
  | _ => True

theorem Free.leftOf {place : Place} {pending : List Pending} (h : place.Free pending) {o : Operator}
    (ho : place.Admits o) : (Place.leftOf o).Free pending := by
  match pending with
  | [] => trivial
  | .openParen :: _ => trivial
  | .function _ :: _ => exact h
  | .operator waiting :: _ =>
    exact fun p hp ↦ Operator.not_bindsBefore_of_admits (h o ho) hp

theorem free_rightOf (o : Operator) (pending : List Pending) :
    (Place.rightOf o).Free (.operator o :: pending) :=
  fun _ hp ↦ Operator.not_bindsBefore_iff.mpr hp

end Place

namespace Assembly

/-- Before an operator that a place admits, nothing that waits before the place is due. -/
theorem reduceWhile_of_free {place : Place} {pending : List Pending} (hfree : place.Free pending)
    {o : Operator} (ho : place.Admits o) (forest : Forest) :
    reduceWhile (Pending.dueBefore o) forest pending = .ok ⟨forest, pending⟩ := by
  match pending with
  | [] => rfl
  | .openParen :: _ => rfl
  | .function _ :: _ => rfl
  | .operator waiting :: others =>
    have hdue : Pending.dueBefore o (.operator waiting) = none := by
      rw [Pending.dueBefore, hfree o ho]
      rfl
    simp only [reduceWhile, hdue]

end Assembly

/-! ### Reading an operand -/

/-- What is in the forest and what waits when an operand was read: carried out, the waiting
operators make one tree, and they bind at least as tightly as an operator that the place admits. -/
structure Opened (place : Place) (tree : Tree) (trees : List Tree) (waiting : List Operator) :
    Prop where
  applyAll : ∀ kept, (Forest.ofTrees (kept ++ trees)).applyAll (waiting.map Operator.operation) =
    .ok (Forest.ofTrees (kept ++ [tree]))
  tight : ∀ o ∈ waiting, ∃ p, place.Admits p ∧ p.precedence ≤ o.precedence

/-- Whether the tokens are read as the tree wherever they stand in the place. -/
def Reads (g : Grammar) (input : String) (place : Place) (tree : Tree) (tokens : List Token) :
    Prop :=
  ∃ trees waiting, Opened place tree trees waiting ∧ ∀ kept pending, place.Free pending →
    tokens.foldlM (Assembly.take g input) ⟨.ofTrees kept, pending⟩ =
      .ok ⟨.ofTrees (kept ++ trees), waiting.map Pending.operator ++ pending⟩

theorem Opened.single (place : Place) (tree : Tree) : Opened place tree [tree] [] where
  applyAll := fun _ ↦ rfl
  tight := fun _ h ↦ by cases h

section Reading

variable {g : Grammar} {input : String} {place : Place}

/-- Assumes: an operand was read between parentheses or commas. At the end of the group it is
completed. -/
theorem Opened.reduceGroup {tree : Tree} {trees : List Tree} {waiting : List Operator}
    (h : Opened place tree trees waiting) (kept : List Tree) (others : List Pending) :
    Assembly.reduceGroup ⟨.ofTrees (kept ++ trees),
        waiting.map Pending.operator ++ .openParen :: others⟩ =
      .ok ⟨.ofTrees (kept ++ [tree]), .openParen :: others⟩ := by
  rw [Assembly.reduceGroup_of_applyAll (h.applyAll kept) (.inr ⟨others, rfl⟩)]

/-- Assumes: a left operand was read. Before the operator behind it, it is completed. -/
theorem Opened.reduceWhile {o : Operator} {tree : Tree} {trees : List Tree}
    {waiting : List Operator} (h : Opened (.leftOf o) tree trees waiting) (kept : List Tree)
    {pending : List Pending}
    (hfree : place.Free pending) (ho : place.Admits o) :
    Assembly.reduceWhile (Pending.dueBefore o) (.ofTrees (kept ++ trees))
      (waiting.map Pending.operator ++ pending) = .ok ⟨.ofTrees (kept ++ [tree]), pending⟩ := by
  have hdue : ∀ p ∈ waiting, Pending.dueBefore o (.operator p) = some p.operation := by
    intro p hp
    obtain ⟨q, hq, hle⟩ := h.tight p hp
    exact if_pos (Operator.bindsBefore_of_le (Operator.bindsBefore_iff.mpr hq) hle)
  rw [Assembly.reduceWhile_append hdue (h.applyAll kept), Assembly.reduceWhile_of_free hfree ho]

theorem Place.Free.ne_function {pending : List Pending} (h : place.Free pending)
    (f : NamedFunction) (others : List Pending) : pending ≠ .function f :: others := by
  rintro rfl
  exact h

theorem IsOperand.reads {tree : Tree} {tokens : List Token} (h : IsOperand g input tokens tree) :
    Reads g input place tree tokens :=
  ⟨[tree], [], .single place tree, fun kept pending hfree ↦ h kept pending hfree.ne_function⟩

theorem Reads.isArgument {tree : Tree} {tokens : List Token}
    (h : Reads g input .whole tree tokens) : IsArgument g input tokens tree := by
  obtain ⟨trees, waiting, hopened, hfold⟩ := h
  exact fun kept others ↦ ⟨_, hfold kept (.openParen :: others) trivial,
    hopened.reduceGroup kept others⟩

theorem Reads.binary {o : Operator} (ho : g.operator? o.symbol = some o) {left right : Tree}
    {first second : List Token} (hplace : place.Admits o)
    (hleft : Reads g input (.leftOf o) left first)
    (hright : Reads g input (.rightOf o) right second) :
    Reads g input place (.operation o.operation [left, right])
      (first ++ ⟨.operator, o.symbol⟩ :: second) := by
  obtain ⟨leftTrees, leftWaiting, hleftOpened, hleftFold⟩ := hleft
  obtain ⟨trees, waiting, hopened, hfold⟩ := hright
  refine ⟨left :: trees, waiting ++ [o], ⟨fun kept ↦ ?_, ?_⟩, fun kept pending hfree ↦ ?_⟩
  · have hright := hopened.applyAll (kept ++ [left])
    have hlength : [left, right].length = o.operation.arity := rfl
    have happly := Forest.apply_ofTrees hlength kept
    simp only [List.append_assoc, List.singleton_append] at hright
    rw [List.map_append, Forest.applyAll_append, hright]
    exact congrArg (· >>= fun forest ↦ forest.applyAll []) happly
  · intro p hp
    rcases List.mem_append.mp hp with hp | hp
    · obtain ⟨q, hq, hle⟩ := hopened.tight p hp
      refine ⟨o, hplace, ?_⟩
      rcases hq with hlt | ⟨heq, -⟩ <;> omega
    · rw [List.mem_singleton.mp hp]
      exact ⟨o, hplace, Int.le_refl _⟩
  · have htake : Assembly.take g input
          ⟨.ofTrees (kept ++ leftTrees), leftWaiting.map Pending.operator ++ pending⟩
          ⟨.operator, o.symbol⟩ = .ok ⟨.ofTrees (kept ++ [left]), .operator o :: pending⟩ := by
      simp only [Assembly.take, ho, Assembly.takeOperator,
        hleftOpened.reduceWhile kept hfree hplace]
      rfl
    have hrest := hfold (kept ++ [left]) (.operator o :: pending) (Place.free_rightOf o pending)
    rw [List.foldlM_append, hleftFold kept pending (hfree.leftOf hplace)]
    show List.foldlM (Assembly.take g input) _ (⟨.operator, o.symbol⟩ :: second) = _
    rw [List.foldlM_cons, htake]
    show List.foldlM (Assembly.take g input) _ second = _
    rw [hrest]
    simp only [List.map_append, List.map_singleton, List.append_assoc, List.singleton_append]

theorem separated_commaSeparated (lists : List (List Token)) :
    Separated lists (commaSeparated lists) := by
  induction lists with
  | nil => exact .none
  | cons tokens others ih =>
    cases others with
    | nil => exact .one tokens
    | cons next others => exact ih.cons (List.cons_ne_nil _ _) "," tokens

theorem Reads.call {f : NamedFunction} (hf : g.function? f.name = some f)
    {arguments : Fin f.arity → Tree} {tokens : Fin f.arity → List Token}
    (h : ∀ i, Reads g input .whole (arguments i) (tokens i)) :
    Reads g input place (.operation f.operation (List.ofFn arguments))
      (⟨.identifier, f.name⟩ :: ⟨.openParen, "("⟩ ::
        (commaSeparated (List.ofFn tokens) ++ [⟨.closeParen, ")"⟩])) := by
  have hpairs : ∀ argument ∈ List.ofFn fun i ↦ (tokens i, arguments i),
      IsArgument g input argument.1 argument.2 := by
    intro argument hargument
    obtain ⟨i, rfl⟩ := List.mem_ofFn.mp hargument
    exact (h i).isArgument
  have htokens : (List.ofFn fun i ↦ (tokens i, arguments i)).map Prod.fst = List.ofFn tokens := by
    rw [List.map_ofFn]
    rfl
  have htrees : (List.ofFn fun i ↦ (tokens i, arguments i)).map Prod.snd = List.ofFn arguments := by
    rw [List.map_ofFn]
    rfl
  have hseparated := separated_commaSeparated (List.ofFn tokens)
  rw [← htokens] at hseparated
  have hcall := isOperand_call hf List.length_ofFn hpairs hseparated "(" ")"
  rw [htokens, htrees] at hcall
  exact hcall.reads

/-- Tokens that write an expression are read as its tree. -/
theorem Writes.reads {term : Term g} {tokens : List Token} (h : Writes place term tokens) :
    Reads g input place term.tree tokens := by
  induction h with
  | numeral written => exact (isOperand_literal written.value?_text).reads
  | reference hname hfree => exact (isOperand_reference hfree).reads
  | binary ho hplace hleft hright ihleft ihright => exact .binary ho hplace ihleft ihright
  | call hf harguments ih => exact .call hf ih
  | group h ih => exact (ih.isArgument.isOperand "(" ")").reads

end Reading

/-! ### Whole texts -/

theorem mem_commaSeparated {token : Token} {lists : List (List Token)}
    (h : token ∈ commaSeparated lists) :
    token = ⟨.comma, ","⟩ ∨ ∃ tokens ∈ lists, token ∈ tokens := by
  induction lists with
  | nil => cases h
  | cons tokens others ih =>
    cases others with
    | nil => exact Or.inr ⟨tokens, List.mem_cons_self, h⟩
    | cons next others =>
      rcases List.mem_append.mp h with h | h
      · exact Or.inr ⟨tokens, List.mem_cons_self, h⟩
      · rcases List.mem_cons.mp h with h | h
        · exact Or.inl h
        · rcases ih h with h | ⟨other, hother, h⟩
          · exact Or.inl h
          · exact Or.inr ⟨other, List.mem_cons_of_mem tokens hother, h⟩

/-- The tokens that write an expression stand for themselves. -/
theorem Writes.stands {g : Grammar} (hg : g.Consistent) {place : Place} {term : Term g}
    {tokens : List Token} (h : Writes place term tokens) : ∀ token ∈ tokens, token.Stands g := by
  have hgroup {tokens : List Token} (h : ∀ token ∈ tokens, token.Stands g) :
      ∀ token ∈ (⟨.openParen, "("⟩ :: (tokens ++ [⟨.closeParen, ")"⟩]) : List Token),
        token.Stands g := by
    intro token htoken
    rcases List.mem_cons.mp htoken with rfl | htoken
    · exact hg.stands_openParen
    · rcases List.mem_append.mp htoken with htoken | htoken
      · exact h token htoken
      · exact List.mem_singleton.mp htoken ▸ hg.stands_closeParen
  induction h with
  | numeral written =>
    intro token htoken
    exact List.mem_singleton.mp htoken ▸ Token.stands_number g written
  | reference hname hfree =>
    intro token htoken
    exact List.mem_singleton.mp htoken ▸ Token.stands_identifier g hname
  | binary ho hplace hleft hright ihleft ihright =>
    intro token htoken
    rcases List.mem_append.mp htoken with htoken | htoken
    · exact ihleft token htoken
    · rcases List.mem_cons.mp htoken with rfl | htoken
      · exact hg.stands_operator ho
      · exact ihright token htoken
  | call hf harguments ih =>
    intro token htoken
    rcases List.mem_cons.mp htoken with rfl | htoken
    · exact Token.stands_identifier g (hg.function_name _ _ hf).2
    · refine hgroup (fun other hother ↦ ?_) token htoken
      rcases mem_commaSeparated hother with rfl | ⟨list, hlist, hother⟩
      · exact hg.stands_comma
      · obtain ⟨i, rfl⟩ := List.mem_ofFn.mp hlist
        exact ih i other hother
  | group h ih => exact hgroup ih

namespace Grammar

/-- Assumes: an expression over a reachable grammar, tokens that write it with all parentheses that
it needs, and a text of these tokens with whitespace between them. The text compiles, to the listing
of the tree of the expression. -/
theorem compile_of_writes {g : Grammar} (hg : g.Reachable) {term : Term g} {tokens : List Token}
    (hwrites : Writes .whole term tokens) {text : String} (htext : Spaced tokens text.toList) :
    g.compile text = .ok term.tree.arena := by
  have hreads : Reads g text .whole term.tree tokens := hwrites.reads
  obtain ⟨trees, waiting, hopened, hfold⟩ := hreads
  have hrun : Lexer.run g (.ofText text) = ⟨tokens, none, [], .exhausted⟩ :=
    Lexer.run_of_spaced htext (hwrites.stands hg.consistent)
  have htokens : tokens.foldlM (Assembly.take g text) .empty =
      .ok ⟨.ofTrees trees, waiting.map Pending.operator⟩ := by
    have h := hfold [] [] trivial
    rwa [List.nil_append, List.append_nil] at h
  have hreduced : Assembly.reduceGroup ⟨.ofTrees trees, waiting.map Pending.operator⟩ =
      .ok ⟨.ofTrees [term.tree], []⟩ := by
    have h := hopened.applyAll []
    rw [List.nil_append, List.nil_append] at h
    rw [Assembly.reduceGroup, ← List.append_nil (waiting.map Pending.operator),
      Assembly.reduceWhile_append (fun _ _ ↦ rfl) h]
    rfl
  have hforest : Forest.ofTrees [term.tree] = ⟨term.tree.arena.nodes, [term.tree.arena.root]⟩ := by
    simp [Forest.ofTrees, Tree.listingAll, Tree.roots, Tree.arena]
  rw [compile, hrun]
  show (tokens.foldlM (Assembly.take g text) .empty >>= fun assembly ↦ assembly.finish text) = _
  rw [htokens]
  show Assembly.finish _ text = _
  rw [Assembly.finish, hreduced, hforest]
  rfl

/-! An operator that associates to the right may have the precedence of one that associates to the
left. In `2 - b <> atan2(x, 1e3) - -5.` the first operator leaves its right operand to the second,
and the third takes everything before it as its left operand. -/

/-- An operator that associates to the right, with the precedence of sums and differences. -/
def rightward : Operator := ⟨"<>", 2, .right, fun x _ ↦ x⟩

/-- The standard grammar with that operator. -/
def mixed : Grammar := standard.insertOperator rightward

/-- The operator of differences. -/
def difference : Operator := ⟨"-", 2, .left, (· - ·)⟩

/-- The function of two arguments. -/
def angle : NamedFunction := ⟨"atan2", 2, .binary Float.atan2⟩

/-- A digit with a sign. -/
def signedDigit (sign : Numeral.Sign) (digit : Char) (hdigit : digit.isDigit = true) :
    Numeral.Written where
  sign := sign
  whole := [digit]
  fraction := none
  exponent := none
  whole_ne_nil := List.cons_ne_nil digit []
  whole_isDigit := List.forall_mem_singleton.mpr hdigit
  fraction_isDigit := fun _ h ↦ by cases h

/-- The numeral `2`. -/
def two : Numeral.Written := signedDigit .missing '2' rfl

/-- The numeral `1e3`. -/
def thousand : Numeral.Written :=
  { signedDigit .missing '1' rfl with
    exponent := some ⟨'e', .missing, ['3'], Or.inl rfl, List.cons_ne_nil '3' [],
      List.forall_mem_singleton.mpr rfl⟩ }

/-- The numeral `-5.`. -/
def minusFive : Numeral.Written :=
  { signedDigit .minus '5' rfl with
    fraction := some []
    fraction_isDigit := fun _ h ↦ by
      cases h
      exact List.forall_mem_nil _ }

/-- The arguments `x` and `1e3`. -/
def angleArguments : Fin 2 → Term mixed
  | 0 => .reference "x" rfl rfl
  | 1 => .numeral thousand

/-- The expression `(2 - (b <> atan2(x, 1e3))) - -5.`. -/
def mixedTerm : Term mixed :=
  .binary difference rfl
    (.binary difference rfl (.numeral two)
      (.binary rightward rfl (.reference "b" rfl rfl) (.call angle rfl angleArguments)))
    (.numeral minusFive)

/-- Its tokens, with redundant parentheses around one argument. -/
def mixedTokens : List Token :=
  [⟨.number, two.text⟩, ⟨.operator, "-"⟩, ⟨.identifier, "b"⟩, ⟨.operator, "<>"⟩,
    ⟨.identifier, "atan2"⟩, ⟨.openParen, "("⟩, ⟨.identifier, "x"⟩, ⟨.comma, ","⟩,
    ⟨.openParen, "("⟩, ⟨.number, thousand.text⟩, ⟨.closeParen, ")"⟩, ⟨.closeParen, ")"⟩,
    ⟨.operator, "-"⟩, ⟨.number, minusFive.text⟩]

theorem reachable_mixed : mixed.Reachable := by
  have hregister : standard.registerOperator rightward = .ok mixed := if_pos (by decide +kernel)
  exact .registerOperator .standard hregister

theorem writes_mixedTokens : Writes .whole mixedTerm mixedTokens := by
  have hfirst : (Place.leftOf difference).Admits difference := Or.inr ⟨rfl, rfl⟩
  have hsecond : (Place.rightOf difference).Admits rightward := Or.inr ⟨rfl, rfl⟩
  have hthird : Place.whole.Admits difference := trivial
  let argumentTokens : Fin 2 → List Token := fun
    | 0 => [⟨.identifier, "x"⟩]
    | 1 => [⟨.openParen, "("⟩, ⟨.number, thousand.text⟩, ⟨.closeParen, ")"⟩]
  have harguments : ∀ i, Writes .whole (angleArguments i) (argumentTokens i) := fun
    | 0 => .reference _ _
    | 1 => .group (.numeral _)
  have hknown : mixed.function? angle.name = some angle := rfl
  exact .binary rfl hthird (.binary rfl hfirst (.numeral _)
    (.binary rfl hsecond (.reference _ _) (.call hknown harguments))) (.numeral _)

theorem compile_of_writes_mixed :
    mixed.Reachable ∧ Writes .whole mixedTerm mixedTokens ∧
      Spaced mixedTokens " 2 - b <> atan2 ( x , ( 1e3 ) ) - -5.".toList ∧
      mixed.compile " 2 - b <> atan2 ( x , ( 1e3 ) ) - -5." = .ok mixedTerm.tree.arena := by
  have hspaced : Spaced mixedTokens " 2 - b <> atan2 ( x , ( 1e3 ) ) - -5.".toList := by
    have h := spaced_flatMap mixedTokens
    have htext : (mixedTokens.flatMap fun token ↦ ' ' :: token.text.toList) =
        " 2 - b <> atan2 ( x , ( 1e3 ) ) - -5.".toList := by decide +kernel
    rwa [htext] at h
  exact ⟨reachable_mixed, writes_mixedTokens, hspaced,
    compile_of_writes reachable_mixed writes_mixedTokens hspaced⟩

end Grammar

end Formulary
