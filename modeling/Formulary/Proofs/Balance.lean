import Formulary.Proofs.Operands
import Mathlib.Algebra.Ring.Int.Defs

/-!
# What every text that compiles has in common

An assembly does not look at the order in which operands and operators follow each other, and an
operation takes its operands from the end of the forest, wherever they come from. Two things it
keeps account of all the same: how many trees there are, and which parentheses are open.

Every operand adds a tree, and every operation leaves one tree in the place of its operands, so in
the end there is one tree more than the operations take beyond those that they leave
(`Grammar.balance_eq_one_of_compile`). And the parentheses of the tokens match, with commas only
between them (`Bracketed`, `Grammar.bracketed_of_compile`).
-/

set_option autoImplicit false
set_option relaxedAutoImplicit false

namespace Formulary

/-! ### The number of trees -/

/-- How many trees the operation adds to a forest: it leaves one in the place of its operands. -/
def Operation.balance (operation : Operation) : Int := 1 - operation.arity

/-- How many trees what waits will add to the forest. -/
def Pending.balance (waiting : Pending) : Int :=
  match waiting.operation? with
  | some operation => operation.balance
  | none => 0

/-- How many trees there will be when everything that waits is carried out. -/
def Assembly.balance (assembly : Assembly) : Int :=
  assembly.forest.roots.length + (assembly.pending.map Pending.balance).sum

/-- How many trees a token adds, now or when its operation is carried out. -/
def Token.balance (g : Grammar) (token : Token) : Int :=
  match token.kind with
  | .number => 1
  | .identifier =>
    match g.function? token.text with
    | none => 1
    | some f => f.operation.balance
  | .operator => -1
  | _ => 0

/-- How many trees the tokens add. -/
def balance (g : Grammar) (tokens : List Token) : Int := (tokens.map (Token.balance g)).sum

theorem balance_append (g : Grammar) (first second : List Token) :
    balance g (first ++ second) = balance g first + balance g second := by
  rw [balance, List.map_append, List.sum_append, balance, balance]

theorem balance_cons (g : Grammar) (token : Token) (tokens : List Token) :
    balance g (token :: tokens) = token.balance g + balance g tokens := rfl

theorem balance_singleton (g : Grammar) (token : Token) : balance g [token] = token.balance g :=
  Int.add_zero _

theorem Operator.balance_operation (o : Operator) : o.operation.balance = -1 := rfl

theorem Forest.length_roots_apply {forest next : Forest} {operation : Operation}
    (h : forest.apply operation = .ok next) :
    (next.roots.length : Int) = forest.roots.length + operation.balance := by
  by_cases hfew : forest.roots.length < operation.arity
  · rw [(apply_eq_error_iff forest operation _).mpr ⟨hfew, rfl⟩] at h
    cases h
  · simp only [apply, if_neg hfew] at h
    cases h
    simp only [roots_plant, List.length_cons, List.length_drop, Operation.balance]
    omega

namespace Assembly

/-- Carrying out what waits changes nothing in the number of trees that there will be. -/
theorem balance_reduceWhile {due : Pending → Option Operation}
    (hdue : ∀ waiting operation, due waiting = some operation →
      waiting.operation? = some operation) {forest : Forest} {pending : List Pending}
    {reduced : Assembly} (h : reduceWhile due forest pending = .ok reduced) :
    reduced.balance = balance ⟨forest, pending⟩ := by
  refine keeps_of_reduceWhile_eq_ok
    (P := fun assembly ↦ assembly.balance = balance ⟨forest, pending⟩) ?_ h rfl
  intro forest applied waiting operation others hwaiting happly hbefore
  have htrees := Forest.length_roots_apply happly
  rw [← hbefore]
  simp only [balance, List.map_cons, List.sum_cons, Pending.balance, hdue _ _ hwaiting, htrees]
  omega

theorem balance_reduceGroup {assembly reduced : Assembly}
    (h : assembly.reduceGroup = .ok reduced) : reduced.balance = assembly.balance :=
  balance_reduceWhile (fun _ _ h ↦ h) h

/-- With every token, the number of trees that there will be changes by what the token adds. -/
theorem Takes.balance {g : Grammar} {assembly next : Assembly} {token : Token}
    (h : Takes g assembly token next) : next.balance = assembly.balance + token.balance g := by
  cases h with
  | literal hvalue =>
    simp only [Assembly.balance, plant, Forest.roots_plant, List.length_cons, Token.balance]
    omega
  | reference hname =>
    simp only [Assembly.balance, plant, Forest.roots_plant, List.length_cons, Token.balance, hname]
    omega
  | function hname =>
    simp only [Assembly.balance, wait, List.map_cons, List.sum_cons, Pending.balance,
      Pending.operation?, Token.balance, hname]
    omega
  | @operator symbol o reduced hsymbol hreduced =>
    have hsame := balance_reduceWhile operation?_of_dueBefore hreduced
    simp only [Assembly.balance, wait, List.map_cons, List.sum_cons, Pending.balance,
      Pending.operation?, Token.balance, Operator.balance_operation] at hsame ⊢
    omega
  | openParen =>
    simp only [Assembly.balance, wait, List.map_cons, List.sum_cons, Pending.balance,
      Pending.operation?, Token.balance]
    omega
  | comma hreduced =>
    rw [balance_reduceGroup hreduced]
    exact (Int.add_zero _).symm
  | closeGroup hreduced hgroup =>
    rw [← balance_reduceGroup hreduced]
    simp only [Assembly.balance, List.map_cons, List.sum_cons, Pending.balance, Pending.operation?,
      Token.balance]
    omega
  | closeCall hreduced happly =>
    have htrees := Forest.length_roots_apply happly
    rw [← balance_reduceGroup hreduced]
    simp only [Assembly.balance, List.map_cons, List.sum_cons, Pending.balance, Pending.operation?,
      Token.balance, htrees]
    omega

end Assembly

/-! ### The parentheses -/

/-- Whether the token is a parenthesis or a comma. -/
def TokenKind.IsPunctuation (kind : TokenKind) : Prop :=
  kind = .openParen ∨ kind = .closeParen ∨ kind = .comma

/-- Tokens in which the parentheses match and the commas stand between them. -/
inductive Bracketed : List Token → Prop
  | empty : Bracketed []
  | token {before : List Token} {token : Token} (h : Bracketed before)
    (hkind : ¬ token.kind.IsPunctuation) : Bracketed (before ++ [token])
  | group {before inner : List Token} {parts : List (List Token)} {opening closing : String}
    (h : Bracketed before) (hinner : Separated parts inner)
    (hparts : ∀ part ∈ parts, Bracketed part) :
    Bracketed (before ++ ⟨.openParen, opening⟩ :: (inner ++ [⟨.closeParen, closing⟩]))

/-- Tokens in which a number of parentheses are still open. -/
inductive Unclosed : Nat → List Token → Prop
  | whole {tokens : List Token} (h : Bracketed tokens) : Unclosed 0 tokens
  | inside {depth : Nat} {before inner last : List Token} {parts : List (List Token)}
    {opening : String} (h : Unclosed depth before) (hinner : Separated (parts ++ [last]) inner)
    (hparts : ∀ part ∈ parts, Bracketed part) (hlast : Bracketed last) :
    Unclosed (depth + 1) (before ++ ⟨.openParen, opening⟩ :: inner)

/-- What may be put behind bracketed tokens may be put behind tokens with open parentheses. -/
theorem Unclosed.append {depth : Nat} {tokens item : List Token} (h : Unclosed depth tokens)
    (hitem : ∀ before, Bracketed before → Bracketed (before ++ item)) :
    Unclosed depth (tokens ++ item) := by
  cases h with
  | whole h => exact .whole (hitem _ h)
  | inside h hinner hparts hlast =>
    rw [List.append_assoc, List.cons_append]
    exact .inside h (hinner.extend item) hparts (hitem _ hlast)

theorem Unclosed.comma {depth : Nat} {tokens : List Token} (h : Unclosed (depth + 1) tokens)
    (text : String) : Unclosed (depth + 1) (tokens ++ [⟨.comma, text⟩]) := by
  cases h with
  | inside h hinner hparts hlast =>
    rw [List.append_assoc, List.cons_append]
    refine .inside h (hinner.more (by simp) text []) (fun part hpart ↦ ?_) .empty
    rcases List.mem_append.mp hpart with hpart | hpart
    · exact hparts part hpart
    · exact List.mem_singleton.mp hpart ▸ hlast

theorem Unclosed.close {depth : Nat} {tokens : List Token} (h : Unclosed (depth + 1) tokens)
    (text : String) : Unclosed depth (tokens ++ [⟨.closeParen, text⟩]) := by
  cases h with
  | @inside _ before inner last parts opening h hinner hparts hlast =>
    rw [List.append_assoc, List.cons_append]
    refine h.append fun earlier hearlier ↦ .group hearlier hinner fun part hpart ↦ ?_
    rcases List.mem_append.mp hpart with hpart | hpart
    · exact hparts part hpart
    · exact List.mem_singleton.mp hpart ▸ hlast

/-- How many parentheses are open. -/
def Assembly.depth (assembly : Assembly) : Nat :=
  assembly.pending.countP fun waiting ↦ waiting.operation?.isNone

theorem Assembly.depth_openParen (forest : Forest) (others : List Pending) :
    depth ⟨forest, .openParen :: others⟩ = depth ⟨forest, others⟩ + 1 := List.countP_cons_of_pos rfl

/-- Carrying out what waits leaves the parentheses open. -/
theorem Assembly.depth_reduceWhile {due : Pending → Option Operation}
    (hdue : ∀ waiting operation, due waiting = some operation →
      waiting.operation? = some operation) {forest : Forest} {pending : List Pending}
    {reduced : Assembly} (h : reduceWhile due forest pending = .ok reduced) :
    reduced.depth = depth ⟨forest, pending⟩ := by
  refine keeps_of_reduceWhile_eq_ok
    (P := fun assembly ↦ assembly.depth = depth ⟨forest, pending⟩) ?_ h rfl
  intro forest applied waiting operation others hwaiting _ hbefore
  rw [← hbefore]
  exact (List.countP_cons_of_neg (by simp [hdue _ _ hwaiting])).symm

theorem Assembly.depth_reduceGroup {assembly reduced : Assembly}
    (h : assembly.reduceGroup = .ok reduced) : reduced.depth = assembly.depth :=
  depth_reduceWhile (fun _ _ h ↦ h) h

/-- The parentheses that are open in an assembly are those that are open in the tokens it took. -/
theorem Assembly.Takes.unclosed {g : Grammar} {assembly next : Assembly} {token : Token}
    (h : Takes g assembly token next) {read : List Token} (hread : Unclosed assembly.depth read) :
    Unclosed next.depth (read ++ [token]) := by
  have htoken {token : Token} (hkind : ¬ token.kind.IsPunctuation) :
      ∀ before, Bracketed before → Bracketed (before ++ [token]) := fun _ h ↦ .token h hkind
  cases h with
  | literal hvalue => exact hread.append (htoken (by simp [TokenKind.IsPunctuation]))
  | reference hname => exact hread.append (htoken (by simp [TokenKind.IsPunctuation]))
  | function hname => exact hread.append (htoken (by simp [TokenKind.IsPunctuation]))
  | operator hsymbol hreduced =>
    rw [← depth_reduceWhile operation?_of_dueBefore hreduced] at hread
    exact hread.append (htoken (by simp [TokenKind.IsPunctuation]))
  | openParen =>
    rw [wait, depth_openParen]
    have hinner : Separated ([] ++ [[]]) [] := .one []
    exact .inside hread hinner (fun _ h ↦ (List.not_mem_nil h).elim) .empty
  | comma hreduced =>
    rw [← depth_reduceGroup hreduced, depth_openParen] at hread
    rw [depth_openParen]
    exact hread.comma _
  | closeGroup hreduced hgroup =>
    rw [← depth_reduceGroup hreduced, depth_openParen] at hread
    exact hread.close _
  | closeCall hreduced happly =>
    rw [← depth_reduceGroup hreduced, depth_openParen] at hread
    exact hread.close _

/-! ### Whole texts -/

/-- Whether the token has the meaning that its kind says: a number has a value, and an operator is
registered. -/
def Token.Known (g : Grammar) (token : Token) : Prop :=
  (token.kind = .number → ∃ value, Numeral.value? token.text = some value) ∧
    (token.kind = .operator → ∃ o, g.operator? token.text = some o)

theorem Assembly.Takes.known {g : Grammar} {assembly next : Assembly} {token : Token}
    (h : Takes g assembly token next) : token.Known g := by
  cases h with
  | literal hvalue => exact ⟨fun _ ↦ ⟨_, hvalue⟩, nofun⟩
  | operator hsymbol hreduced => exact ⟨nofun, fun _ ↦ ⟨_, hsymbol⟩⟩
  | _ => exact ⟨nofun, nofun⟩

/-- What an assembly says about the tokens that it took. -/
structure Assembly.Accounts (g : Grammar) (read : List Token) (assembly : Assembly) : Prop where
  balance : assembly.balance = Formulary.balance g read
  unclosed : Unclosed assembly.depth read
  known : ∀ token ∈ read, token.Known g

theorem Assembly.accounts_empty (g : Grammar) : Accounts g [] .empty where
  balance := rfl
  unclosed := .whole .empty
  known := fun _ h ↦ (List.not_mem_nil h).elim

theorem Assembly.Takes.accounts {g : Grammar} {assembly next : Assembly} {token : Token}
    (h : Takes g assembly token next) {read : List Token} (hread : Accounts g read assembly) :
    Accounts g (read ++ [token]) next where
  balance := by rw [h.balance, hread.balance, balance_append, balance_singleton]
  unclosed := h.unclosed hread.unclosed
  known := by
    intro other hother
    rcases List.mem_append.mp hother with hother | hother
    · exact hread.known other hother
    · exact List.mem_singleton.mp hother ▸ h.known

/-- An assembly that took tokens accounts for them. -/
theorem Assembly.accounts_of_foldlM {g : Grammar} {input : String} {tokens : List Token}
    {assembly : Assembly} (h : tokens.foldlM (take g input) .empty = .ok assembly) :
    Accounts g tokens assembly :=
  keeps_of_foldlM_eq_ok (P := Accounts g) (fun htakes ↦ htakes.accounts) [] (accounts_empty g) h

namespace Grammar

/-- The tokens that a text is cut into. -/
def tokens (g : Grammar) (input : String) : List Token := (Lexer.run g (.ofText input)).tokens

variable {g : Grammar} {input : String} {arena : Arena}

/-- The assembly of a text that compiles accounts for its tokens, and one tree is left in it. -/
theorem exists_accounts_of_compile (h : g.compile input = .ok arena) : ∃ assembly : Assembly,
    assembly.Accounts g (g.tokens input) ∧
      assembly.reduceGroup = .ok ⟨⟨arena.nodes, [arena.root]⟩, []⟩ := by
  obtain ⟨-, assembly, hfold, hfinish⟩ := exists_of_compile_eq_ok h
  exact ⟨assembly, Assembly.accounts_of_foldlM hfold, Assembly.exists_of_finish_eq_ok hfinish⟩

/-- The tokens of a text that compiles add one tree. -/
theorem balance_eq_one_of_compile (h : g.compile input = .ok arena) :
    balance g (g.tokens input) = 1 := by
  obtain ⟨assembly, haccounts, hreduced⟩ := exists_accounts_of_compile h
  rw [← haccounts.balance, ← Assembly.balance_reduceGroup hreduced]
  rfl

/-- The parentheses of a text that compiles match. -/
theorem bracketed_of_compile (h : g.compile input = .ok arena) :
    Bracketed (g.tokens input) := by
  obtain ⟨assembly, haccounts, hreduced⟩ := exists_accounts_of_compile h
  have hunclosed := haccounts.unclosed
  rw [← Assembly.depth_reduceGroup hreduced] at hunclosed
  cases hunclosed with
  | whole h => exact h

theorem known_of_compile (h : g.compile input = .ok arena) :
    ∀ token ∈ (g.tokens input), token.Known g := by
  obtain ⟨assembly, haccounts, -⟩ := exists_accounts_of_compile h
  exact haccounts.known

end Grammar

end Formulary
