import Formulary.Proofs.Balance
import Formulary.Proofs.Writing

/-!
# Texts that compile and expressions in infix notation

In infix notation an expression is a chain of terms with an operator between each and the next, and
a term is a number, the name of a reference, an expression in parentheses, or the name of a function
and a group of as many expressions as it takes (`Derives`). Every such text compiles, and what
compiles need not be such a text: `1 2 +` compiles to a sum.

Main statement: a text that compiles is an expression in infix notation exactly when nothing in it
is in surplus (`Sparse`), which says nothing about operands and arguments that are missing. Where
one is missing, another would have to be in surplus, because the tokens of a text that compiles add
one tree. And if the text is an expression in infix notation, its arena is the listing of a tree
that this expression has, so that no operand was taken from another place.

For the last part, tokens are followed up to an operand (`Begun`) and past it (`Ready`). What waits
then are operators with an expression on their left each, and carrying some of them out joins the
expressions on their two sides.
-/

set_option autoImplicit false
set_option relaxedAutoImplicit false

namespace Formulary

/-! ### Infix notation -/

/-- Expressions in infix notation and trees that they may have. A chain of terms and operators may
be cut at any of its operators: precedence is not looked at. -/
inductive Derives (g : Grammar) : List Token → Tree → Prop
  | literal {text : String} {value : Float} (hvalue : Numeral.value? text = some value) :
    Derives g [⟨.number, text⟩] (.literal value)
  | reference {name : String} (hfree : g.function? name = none) :
    Derives g [⟨.identifier, name⟩] (.reference name)
  | binary {symbol : String} {o : Operator} {left right : Tree} {first second : List Token}
    (hleft : Derives g first left) (ho : g.operator? symbol = some o)
    (hright : Derives g second right) :
    Derives g (first ++ ⟨.operator, symbol⟩ :: second) (.operation o.operation [left, right])
  | group {tree : Tree} {tokens : List Token} (h : Derives g tokens tree)
    (opening closing : String) :
    Derives g (⟨.openParen, opening⟩ :: (tokens ++ [⟨.closeParen, closing⟩])) tree
  | call {name : String} {f : NamedFunction} (hname : g.function? name = some f)
    {arguments : List (List Token × Tree)} (hcount : arguments.length = f.arity)
    (harguments : ∀ argument ∈ arguments, Derives g argument.1 argument.2) {inner : List Token}
    (hinner : Separated (arguments.map Prod.fst) inner) (opening closing : String) :
    Derives g
      (⟨.identifier, name⟩ :: ⟨.openParen, opening⟩ :: (inner ++ [⟨.closeParen, closing⟩]))
      (.operation f.operation (arguments.map Prod.snd))

/-- Tokens like those of an expression in infix notation from which some operands and arguments were
left out. There are no two operands side by side, a function has its group, and no group has more
arguments than the function takes. -/
inductive Sparse (g : Grammar) : List Token → Prop
  | missing : Sparse g []
  | number (text : String) : Sparse g [⟨.number, text⟩]
  | reference {name : String} (hfree : g.function? name = none) : Sparse g [⟨.identifier, name⟩]
  | binary {first second : List Token} (hleft : Sparse g first) (symbol : String)
    (hright : Sparse g second) : Sparse g (first ++ ⟨.operator, symbol⟩ :: second)
  | group {tokens : List Token} (h : Sparse g tokens) (opening closing : String) :
    Sparse g (⟨.openParen, opening⟩ :: (tokens ++ [⟨.closeParen, closing⟩]))
  | call {name : String} {f : NamedFunction} (hname : g.function? name = some f)
    {parts : List (List Token)} (hcount : parts.length ≤ f.arity)
    (hparts : ∀ part ∈ parts, Sparse g part) {inner : List Token} (hinner : Separated parts inner)
    (opening closing : String) :
    Sparse g
      (⟨.identifier, name⟩ :: ⟨.openParen, opening⟩ :: (inner ++ [⟨.closeParen, closing⟩]))

theorem Derives.sparse {g : Grammar} {tokens : List Token} {tree : Tree}
    (h : Derives g tokens tree) : Sparse g tokens := by
  induction h with
  | literal hvalue => exact .number _
  | reference hfree => exact .reference hfree
  | binary hleft ho hright ihleft ihright => exact .binary ihleft _ ihright
  | group h opening closing ih => exact .group ih opening closing
  | @call name f hname arguments hcount harguments inner hinner opening closing ih =>
    have hlength : (arguments.map Prod.fst).length ≤ f.arity := by rw [List.length_map, hcount]
    exact .call hname hlength (List.forall_mem_map.mpr ih) hinner opening closing

/-- An expression in infix notation does not end with an operator. -/
theorem Derives.exists_last {g : Grammar} {tokens : List Token} {tree : Tree}
    (h : Derives g tokens tree) :
    ∃ before last, tokens = before ++ [last] ∧ last.kind ≠ .operator := by
  induction h with
  | literal hvalue => exact ⟨[], _, rfl, nofun⟩
  | reference hfree => exact ⟨[], _, rfl, nofun⟩
  | @binary symbol o left right first second hleft ho hright ihleft ihright =>
    obtain ⟨before, last, rfl, hlast⟩ := ihright
    exact ⟨first ++ ⟨.operator, symbol⟩ :: before, last, by simp, hlast⟩
  | @group tree tokens h opening closing ih =>
    exact ⟨⟨.openParen, opening⟩ :: tokens, _, rfl, nofun⟩
  | @call name f hname arguments hcount harguments inner hinner opening closing ih =>
    exact ⟨⟨.identifier, name⟩ :: ⟨.openParen, opening⟩ :: inner, _, rfl, nofun⟩

/-! ### What is missing and what is in surplus -/

section Counting

variable {g : Grammar}

theorem Separated.balance_eq {parts : List (List Token)} {inner : List Token}
    (h : Separated parts inner) : balance g inner = (parts.map (balance g)).sum := by
  induction h with
  | none => rfl
  | one tokens => exact (Int.add_zero _).symm
  | more h hparts comma tokens ih =>
    rw [balance_append, balance_cons, ih, List.map_append, List.sum_append, List.map_singleton,
      List.sum_singleton]
    exact congrArg _ (Int.zero_add _)

theorem Separated.subset {parts : List (List Token)} {inner : List Token}
    (h : Separated parts inner) {part : List Token} (hpart : part ∈ parts) : part ⊆ inner := by
  induction h with
  | none => cases hpart
  | one tokens => exact List.mem_singleton.mp hpart ▸ fun _ h ↦ h
  | more h hparts comma tokens ih =>
    intro token htoken
    rcases List.mem_append.mp hpart with hpart | hpart
    · exact List.mem_append_left _ (ih hpart htoken)
    · cases List.mem_singleton.mp hpart
      exact List.mem_append_right _ (List.mem_cons_of_mem _ htoken)

theorem balance_group (tokens : List Token) (opening closing : String) :
    balance g (⟨.openParen, opening⟩ :: (tokens ++ [⟨.closeParen, closing⟩])) =
      balance g tokens := by
  rw [balance_cons, balance_append, balance_singleton]
  show 0 + (_ + 0) = _
  omega

theorem balance_binary (first second : List Token) (symbol : String) :
    balance g (first ++ ⟨.operator, symbol⟩ :: second) =
      balance g first + balance g second - 1 := by
  rw [balance_append, balance_cons]
  show _ + (-1 + _) = _
  omega

theorem balance_call {name : String} {f : NamedFunction} (hname : g.function? name = some f)
    {parts : List (List Token)} {inner : List Token} (hinner : Separated parts inner)
    (opening closing : String) :
    balance g
        (⟨.identifier, name⟩ :: ⟨.openParen, opening⟩ :: (inner ++ [⟨.closeParen, closing⟩])) =
      1 - f.arity + (parts.map (balance g)).sum := by
  rw [balance_cons, balance_group, hinner.balance_eq, Token.balance, hname]
  rfl

theorem balance_reference {name : String} (hfree : g.function? name = none) :
    balance g [⟨.identifier, name⟩] = 1 := by
  rw [balance_singleton, Token.balance, hfree]

/-- Numbers of at most one: their sum is at most their count, and where it is as large as the count,
all of them are one. -/
theorem sum_le_length {numbers : List Int} (h : ∀ number ∈ numbers, number ≤ 1) :
    numbers.sum ≤ numbers.length ∧
      (numbers.sum = numbers.length → ∀ number ∈ numbers, number = 1) := by
  induction numbers with
  | nil => exact ⟨Int.le_refl 0, fun _ _ h ↦ (List.not_mem_nil h).elim⟩
  | cons first others ih =>
    obtain ⟨hle, hone⟩ := ih fun other hother ↦ h other (List.mem_cons_of_mem first hother)
    have hfirst := h first List.mem_cons_self
    simp only [List.sum_cons, List.length_cons, Int.natCast_add, Int.natCast_one]
    refine ⟨by omega, fun hsum ↦ List.forall_mem_cons.mpr ⟨by omega, hone (by omega)⟩⟩

theorem exists_arguments {P : List Token → Tree → Prop} {parts : List (List Token)}
    (h : ∀ part ∈ parts, ∃ tree, P part tree) : ∃ arguments : List (List Token × Tree),
      arguments.map Prod.fst = parts ∧ ∀ argument ∈ arguments, P argument.1 argument.2 := by
  induction parts with
  | nil => exact ⟨[], rfl, fun _ h ↦ (List.not_mem_nil h).elim⟩
  | cons part parts ih =>
    obtain ⟨hpart, hothers⟩ := List.forall_mem_cons.mp h
    obtain ⟨tree, htree⟩ := hpart
    obtain ⟨arguments, rfl, harguments⟩ := ih hothers
    exact ⟨(part, tree) :: arguments, rfl, List.forall_mem_cons.mpr ⟨htree, harguments⟩⟩

/-- Tokens in which nothing is in surplus add at most one tree. -/
theorem Sparse.balance_le_one {tokens : List Token} (h : Sparse g tokens) :
    balance g tokens ≤ 1 := by
  induction h with
  | missing => exact Int.zero_le_ofNat 1
  | number text => exact Int.le_refl 1
  | reference hfree => exact (balance_reference hfree).le
  | binary hleft symbol hright ihleft ihright =>
    rw [balance_binary]
    omega
  | group h opening closing ih => exact (balance_group _ _ _).trans_le ih
  | call hname hcount hparts hinner opening closing ih =>
    have hsum := (sum_le_length (List.forall_mem_map.mpr ih)).1
    rw [List.length_map] at hsum
    rw [balance_call hname hinner]
    omega

/-- Where nothing is in surplus and one tree is added, nothing is missing. -/
theorem Sparse.exists_derives {tokens : List Token} (h : Sparse g tokens)
    (hknown : ∀ token ∈ tokens, token.Known g) (hone : balance g tokens = 1) :
    ∃ tree, Derives g tokens tree := by
  induction h with
  | missing => cases hone
  | number text =>
    obtain ⟨value, hvalue⟩ := (hknown _ List.mem_cons_self).1 rfl
    exact ⟨_, .literal hvalue⟩
  | reference hfree => exact ⟨_, .reference hfree⟩
  | binary hleft symbol hright ihleft ihright =>
    have hfirst := hleft.balance_le_one
    have hsecond := hright.balance_le_one
    rw [balance_binary] at hone
    obtain ⟨hknown, hothers⟩ := List.forall_mem_append.mp hknown
    obtain ⟨hoperator, hothers⟩ := List.forall_mem_cons.mp hothers
    obtain ⟨o, ho⟩ := hoperator.2 rfl
    obtain ⟨left, hleft⟩ := ihleft hknown (by omega)
    obtain ⟨right, hright⟩ := ihright hothers (by omega)
    exact ⟨_, .binary hleft ho hright⟩
  | group h opening closing ih =>
    obtain ⟨tree, htree⟩ := ih
      (fun token htoken ↦ hknown token (List.mem_cons_of_mem _ (List.mem_append_left _ htoken)))
      ((balance_group _ _ _).symm.trans hone)
    exact ⟨tree, htree.group opening closing⟩
  | @call name f hname parts hcount hparts inner hinner opening closing ih =>
    have hle : ∀ number ∈ parts.map (balance g), number ≤ 1 :=
      List.forall_mem_map.mpr fun part hpart ↦ (hparts part hpart).balance_le_one
    obtain ⟨hsum, hones⟩ := sum_le_length hle
    rw [List.length_map] at hsum hones
    rw [balance_call hname hinner] at hone
    -- The arguments add as many trees as the function takes, so there are as many arguments, and
    -- each of them adds one.
    have hall := List.forall_mem_map.mp (hones (by omega))
    have hpart : ∀ part ∈ parts, ∃ tree, Derives g part tree := fun part hpart ↦
      ih part hpart (fun token htoken ↦ hknown token (List.mem_cons_of_mem _
        (List.mem_cons_of_mem _ (List.mem_append_left _ (hinner.subset hpart htoken)))))
        (hall part hpart)
    obtain ⟨arguments, rfl, harguments⟩ := exists_arguments hpart
    rw [List.length_map] at hcount hsum
    exact ⟨_, .call hname (by omega) harguments hinner opening closing⟩

end Counting

/-! ### Where the operands come from -/

/-- What was read of an expression before an operand, the trees of the terms that were read, and the
operators that wait for an operand on their right. -/
inductive Begun (g : Grammar) : List Token → List Tree → List Operator → Prop
  | start : Begun g [] [] []
  | operator {read tokens : List Token} {trees : List Tree} {tree : Tree} {waiting : List Operator}
    (h : Begun g read trees waiting) (hoperand : Derives g tokens tree) {symbol : String}
    {o : Operator} (ho : g.operator? symbol = some o) :
    Begun g (read ++ tokens ++ [⟨.operator, symbol⟩]) (trees ++ [tree]) (o :: waiting)

/-- What was read of an expression up to the end of an operand. -/
inductive Ready (g : Grammar) : List Token → List Tree → List Operator → Prop
  | operand {read tokens : List Token} {trees : List Tree} {tree : Tree} {waiting : List Operator}
    (h : Begun g read trees waiting) (hoperand : Derives g tokens tree) :
    Ready g (read ++ tokens) (trees ++ [tree]) waiting

section Containment

variable {g : Grammar} {input : String} {read tokens : List Token} {trees : List Tree}
  {waiting : List Operator} {outer : List Pending}

theorem Assembly.AtStart.ne_function (h : AtStart outer) (waiting : List Operator)
    (f : NamedFunction) (others : List Pending) :
    waiting.map Pending.operator ++ outer ≠ .function f :: others := by
  rcases h with rfl | ⟨others, rfl⟩ <;> cases waiting <;> exact nofun

theorem Assembly.AtStart.reduceWhile_dueBefore (h : AtStart outer) (next : Operator)
    (forest : Forest) :
    Assembly.reduceWhile (Pending.dueBefore next) forest outer = .ok ⟨forest, outer⟩ := by
  rcases h with rfl | ⟨others, rfl⟩ <;> rfl

/-- An operator that is carried out joins the expressions on its two sides. -/
theorem Forest.apply_binary (o : Operator) (kept trees : List Tree) (left right : Tree) :
    (ofTrees (kept ++ (trees ++ [left] ++ [right]))).apply o.operation =
      .ok (ofTrees (kept ++ (trees ++ [.operation o.operation [left, right]]))) := by
  have hlength : [left, right].length = o.operation.arity := rfl
  have happly := apply_ofTrees hlength (kept ++ trees)
  simpa only [List.append_assoc, List.singleton_append] using happly

/-- Carrying out what is due before an operator leaves complete operands. -/
theorem Ready.reduceWhile (h : Ready g read trees waiting) (next : Operator) :
    ∃ trees' waiting', Ready g read trees' waiting' ∧ ∀ kept outer, Assembly.AtStart outer →
      Assembly.reduceWhile (Pending.dueBefore next) (.ofTrees (kept ++ trees))
        (waiting.map Pending.operator ++ outer) =
          .ok ⟨.ofTrees (kept ++ trees'), waiting'.map Pending.operator ++ outer⟩ := by
  obtain @⟨read, tokens, trees, tree, waiting, hbegun, hoperand⟩ := h
  induction hbegun generalizing tokens tree with
  | start => exact ⟨_, _, .operand .start hoperand, fun kept outer h ↦
      h.reduceWhile_dueBefore next _⟩
  | @operator read first trees left waiting hbegun hleft symbol o ho ih =>
    by_cases hdue : o.bindsBefore next = true
    · -- The operator takes its two operands, and the result is the operand of the next one out.
      obtain ⟨trees', waiting', hready, hreduced⟩ := ih (hleft.binary ho hoperand)
      refine ⟨trees', waiting', ?_, fun kept outer h ↦ ?_⟩
      · simpa only [List.append_assoc, List.singleton_append] using hready
      · have hwaiting : Pending.dueBefore next (.operator o) = some o.operation := if_pos hdue
        rw [List.map_cons, List.cons_append, Assembly.reduceWhile]
        simp only [hwaiting, Forest.apply_binary]
        exact hreduced kept outer h
    · have hwaiting : Pending.dueBefore next (.operator o) = none := if_neg hdue
      refine ⟨_, _, .operand (hbegun.operator hleft ho) hoperand, fun kept outer h ↦ ?_⟩
      rw [List.map_cons, List.cons_append, Assembly.reduceWhile]
      simp only [hwaiting]

/-- Carrying out everything that waits makes the tokens one expression. -/
theorem Ready.applyAll (h : Ready g read trees waiting) : ∃ tree, Derives g read tree ∧
    ∀ kept, (Forest.ofTrees (kept ++ trees)).applyAll (waiting.map Operator.operation) =
      .ok (.ofTrees (kept ++ [tree])) := by
  obtain @⟨read, tokens, trees, tree, waiting, hbegun, hoperand⟩ := h
  induction hbegun generalizing tokens tree with
  | start => exact ⟨tree, hoperand, fun _ ↦ rfl⟩
  | @operator read first trees left waiting hbegun hleft symbol o ho ih =>
    obtain ⟨whole, hwhole, happly⟩ := ih (hleft.binary ho hoperand)
    refine ⟨whole, ?_, fun kept ↦ ?_⟩
    · simpa only [List.append_assoc, List.singleton_append] using hwhole
    · rw [List.map_cons, Forest.applyAll_cons, Forest.apply_binary]
      exact happly kept

/-- Whether the tokens, read where an operand is expected, end with an operand, with what waits
being operators between expressions. -/
def Continues (g : Grammar) (input : String) (tokens : List Token) : Prop :=
  ∀ read trees waiting, Begun g read trees waiting → ∃ trees' waiting',
    Ready g (read ++ tokens) trees' waiting' ∧ ∀ kept outer, Assembly.AtStart outer →
      tokens.foldlM (Assembly.take g input)
        ⟨.ofTrees (kept ++ trees), waiting.map Pending.operator ++ outer⟩ =
          .ok ⟨.ofTrees (kept ++ trees'), waiting'.map Pending.operator ++ outer⟩

theorem IsOperand.continues {tree : Tree} (h : IsOperand g input tokens tree)
    (hderives : Derives g tokens tree) : Continues g input tokens := by
  intro read trees waiting hbegun
  refine ⟨_, _, .operand hbegun hderives, fun kept outer houter ↦ ?_⟩
  rw [h _ _ (houter.ne_function waiting), List.append_assoc]

/-- Tokens that end with an operand are an expression, and as an argument they are read as its
tree. -/
theorem Continues.isArgument (h : Continues g input tokens) :
    ∃ tree, Derives g tokens tree ∧ IsArgument g input tokens tree := by
  obtain ⟨trees, waiting, hready, hfold⟩ := h _ _ _ .start
  obtain ⟨tree, htree, happly⟩ := hready.applyAll
  refine ⟨tree, htree, fun kept others ↦ ?_⟩
  have hargument := hfold kept (.openParen :: others) (.inr ⟨others, rfl⟩)
  rw [List.append_nil] at hargument
  refine ⟨_, hargument, ?_⟩
  exact Assembly.reduceGroup_of_applyAll (happly kept) (.inr ⟨others, rfl⟩)

theorem Continues.binary {first second : List Token} (hleft : Continues g input first)
    {symbol : String} {o : Operator} (ho : g.operator? symbol = some o)
    (hright : Continues g input second) :
    Continues g input (first ++ ⟨.operator, symbol⟩ :: second) := by
  intro read trees waiting hbegun
  obtain ⟨trees₁, waiting₁, hready₁, hfold₁⟩ := hleft _ _ _ hbegun
  obtain ⟨trees₂, waiting₂, hready₂, hreduced⟩ := hready₁.reduceWhile o
  have hnext : Begun g (read ++ first ++ [⟨.operator, symbol⟩]) trees₂ (o :: waiting₂) := by
    generalize read ++ first = all at hready₂ ⊢
    obtain ⟨hbegun, hoperand⟩ := hready₂
    exact hbegun.operator hoperand ho
  obtain ⟨trees₃, waiting₃, hready₃, hfold₃⟩ := hright _ _ _ hnext
  refine ⟨trees₃, waiting₃, ?_, fun kept outer houter ↦ ?_⟩
  · simpa only [List.append_assoc, List.singleton_append] using hready₃
  · have htake : Assembly.take g input
          ⟨.ofTrees (kept ++ trees₁), waiting₁.map Pending.operator ++ outer⟩
          ⟨.operator, symbol⟩ =
        .ok ⟨.ofTrees (kept ++ trees₂), (o :: waiting₂).map Pending.operator ++ outer⟩ := by
      simp only [Assembly.take, ho, Assembly.takeOperator, hreduced kept outer houter]
      rfl
    rw [List.foldlM_append, hfold₁ kept outer houter]
    show List.foldlM (Assembly.take g input) _ (⟨.operator, symbol⟩ :: second) = _
    rw [List.foldlM_cons, htake]
    exact hfold₃ kept outer houter

/-- In infix notation, every operation takes its operands from its own place. -/
theorem Derives.continues {tree : Tree} (h : Derives g tokens tree) :
    Continues g input tokens := by
  induction h with
  | literal hvalue => exact (isOperand_literal hvalue).continues (.literal hvalue)
  | reference hfree => exact (isOperand_reference hfree).continues (.reference hfree)
  | binary hleft ho hright ihleft ihright => exact ihleft.binary ho ihright
  | group h opening closing ih =>
    obtain ⟨tree, hderives, hargument⟩ := ih.isArgument
    exact (hargument.isOperand opening closing).continues (hderives.group opening closing)
  | @call name f hname arguments hcount harguments inner hinner opening closing ih =>
    -- The trees that are read need not be those of the given derivation, which may cut chains of
    -- operators at other places.
    have hpart : ∀ part ∈ arguments.map Prod.fst, ∃ tree,
        Derives g part tree ∧ IsArgument g input part tree :=
      List.forall_mem_map.mpr fun argument hargument ↦ (ih argument hargument).isArgument
    obtain ⟨read, hparts, hread⟩ := exists_arguments hpart
    have hlength := congrArg List.length hparts
    rw [List.length_map, List.length_map, hcount] at hlength
    rw [← hparts] at hinner
    have hcall := isOperand_call hname hlength (fun argument h ↦ (hread argument h).2) hinner
    exact (hcall opening closing).continues
      (.call hname hlength (fun argument h ↦ (hread argument h).1) hinner opening closing)

end Containment

/-! ### Whole texts -/

namespace Grammar

/-- Assumes: a text is cut into tokens without an error, and these are an expression in infix
notation. The text compiles, to the listing of a tree that the expression has. -/
theorem exists_compile_of_derives {g : Grammar} {input : String}
    (hfailure : (Lexer.run g (.ofText input)).failure = none) {tree : Tree}
    (h : Derives g (g.tokens input) tree) :
    ∃ whole, Derives g (g.tokens input) whole ∧ g.compile input = .ok whole.arena := by
  have hcontinues : Continues g input (g.tokens input) := h.continues
  obtain ⟨trees, waiting, hready, hfold⟩ := hcontinues _ _ _ .start
  obtain ⟨whole, hwhole, happly⟩ := hready.applyAll
  have hreduced := Assembly.reduceGroup_of_applyAll (happly []) (.inl rfl)
  refine ⟨whole, hwhole, ?_⟩
  rw [compile_of_foldlM hfailure (hfold [] [] (.inl rfl))]
  exact Assembly.finish_of_reduceGroup hreduced input

/-- Assumes: a text compiles. Its parentheses match, with commas only between them, and its tokens
add one tree. Its tokens are an expression in infix notation, and its arena the listing of a tree of
this expression, if and only if nothing in them is in surplus. -/
theorem bracketed_and_derives_iff_of_compile {g : Grammar} {input : String} {arena : Arena}
    (h : g.compile input = .ok arena) :
    Bracketed (g.tokens input) ∧ balance g (g.tokens input) = 1 ∧
      ((∃ tree, Derives g (g.tokens input) tree ∧ arena = tree.arena) ↔
        Sparse g (g.tokens input)) := by
  refine ⟨bracketed_of_compile h, balance_eq_one_of_compile h, ?_, fun hsparse ↦ ?_⟩
  · rintro ⟨tree, htree, -⟩
    exact htree.sparse
  · obtain ⟨hfailure, -⟩ := exists_of_compile_eq_ok h
    obtain ⟨tree, htree⟩ :=
      hsparse.exists_derives (known_of_compile h) (balance_eq_one_of_compile h)
    obtain ⟨whole, hwhole, hcompile⟩ := exists_compile_of_derives hfailure htree
    exact ⟨whole, hwhole, Except.ok.inj (h.symm.trans hcompile)⟩

/-- In `atan2(x, 1) - 2` nothing is in surplus, so its arena is the listing of a tree of an
expression. -/
theorem bracketed_and_derives_iff_of_compile_call : ∃ arena,
    standard.compile "atan2(x, 1) - 2" = .ok arena ∧
      ∃ tree, Derives standard (standard.tokens "atan2(x, 1) - 2") tree ∧ arena = tree.arena := by
  have htokens : standard.tokens "atan2(x, 1) - 2" =
      [⟨.identifier, "atan2"⟩, ⟨.openParen, "("⟩, ⟨.identifier, "x"⟩, ⟨.comma, ","⟩,
        ⟨.number, "1"⟩, ⟨.closeParen, ")"⟩, ⟨.operator, "-"⟩, ⟨.number, "2"⟩] := by
    decide +kernel
  have hinner : Separated [[⟨.identifier, "x"⟩], [⟨.number, "1"⟩]]
      [⟨.identifier, "x"⟩, ⟨.comma, ","⟩, ⟨.number, "1"⟩] :=
    (Separated.one _).more (List.cons_ne_nil _ _) "," _
  have hcall : Sparse standard [⟨.identifier, "atan2"⟩, ⟨.openParen, "("⟩, ⟨.identifier, "x"⟩,
      ⟨.comma, ","⟩, ⟨.number, "1"⟩, ⟨.closeParen, ")"⟩] := by
    refine .call (f := angle) rfl ?_ ?_ hinner "(" ")"
    · exact Nat.le_refl 2
    · exact List.forall_mem_cons.mpr
        ⟨.reference rfl, List.forall_mem_singleton.mpr (.number "1")⟩
  have hsparse : Sparse standard (standard.tokens "atan2(x, 1) - 2") := by
    rw [htokens]
    exact hcall.binary "-" (.number "2")
  have hcompiles : (standard.compile "atan2(x, 1) - 2").isOk = true := by decide +kernel
  obtain ⟨arena, h⟩ := exists_of_isOk hcompiles
  exact ⟨arena, h, (bracketed_and_derives_iff_of_compile h).2.2.mpr hsparse⟩

/-- Not every text that compiles is an expression in infix notation: `1 2 +` compiles. -/
theorem isOk_compile_and_not_derives :
    (standard.compile "1 2 +").isOk = true ∧
      ¬ ∃ tree, Derives standard (standard.tokens "1 2 +") tree := by
  refine ⟨by decide +kernel, ?_⟩
  rintro ⟨tree, htree⟩
  have htokens : standard.tokens "1 2 +" =
      [⟨.number, "1"⟩, ⟨.number, "2"⟩] ++ [⟨.operator, "+"⟩] := by decide +kernel
  obtain ⟨before, last, hsame, hlast⟩ := htree.exists_last
  obtain ⟨-, hoperator⟩ := List.append_inj' (htokens.symm.trans hsame) rfl
  cases hoperator
  exact hlast rfl

end Grammar

end Formulary
