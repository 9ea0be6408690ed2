import Formulary.Proofs.Assembly

/-!
# Reading an operand

Numbers, names, groups and calls are read without a look at what waits before them: in the end one
tree was added to the forest and nothing else has changed (`IsOperand`). What stands between two
parentheses or commas may be an expression with operators that still wait when it ends; the comma or
the parenthesis behind it makes it one tree (`IsArgument`).

Main statements: a group of an argument is an operand (`IsArgument.isOperand`), and so is the name
of a function with a group of as many arguments as it takes (`isOperand_call`).
-/

set_option autoImplicit false
set_option relaxedAutoImplicit false

namespace Formulary

/-! ### Lists with commas -/

/-- Lists of tokens, and the tokens of all of them with a comma between each and the next. -/
inductive Separated : List (List Token) → List Token → Prop
  | none : Separated [] []
  | one (tokens : List Token) : Separated [tokens] tokens
  | more {parts : List (List Token)} {inner : List Token} (h : Separated parts inner)
    (hparts : parts ≠ []) (comma : String) (tokens : List Token) :
    Separated (parts ++ [tokens]) (inner ++ ⟨.comma, comma⟩ :: tokens)

namespace Separated

variable {parts : List (List Token)} {last inner : List Token}

theorem cons (h : Separated parts inner) (hparts : parts ≠ []) (comma : String)
    (tokens : List Token) : Separated (tokens :: parts) (tokens ++ ⟨.comma, comma⟩ :: inner) := by
  induction h with
  | none => exact (hparts rfl).elim
  | one second => exact .more (.one tokens) (List.cons_ne_nil _ _) comma second
  | more h hbefore next second ih =>
    have hmore := (ih hbefore).more (List.cons_ne_nil _ _) next second
    rwa [List.append_assoc, List.cons_append, List.cons_append] at hmore

/-- Tokens at the end are tokens of the last part. -/
theorem extend (h : Separated (parts ++ [last]) inner) (tokens : List Token) :
    Separated (parts ++ [last ++ tokens]) (inner ++ tokens) := by
  generalize hall : parts ++ [last] = all at h
  cases h with
  | none => simp at hall
  | one =>
    obtain ⟨rfl, hlast⟩ := List.append_eq_singleton_iff.mp hall |>.resolve_right (by simp)
    cases hlast
    exact .one _
  | more h hparts comma next =>
    obtain ⟨rfl, hlast⟩ := List.append_inj' hall rfl
    cases hlast
    rw [List.append_assoc, List.cons_append]
    exact .more h hparts comma _

end Separated

/-! ### Operands and arguments -/

section Reading

variable {g : Grammar} {input : String}

/-- Whether the tokens are read as the tree wherever an operand may stand, and not behind the name
of a function, which would take a group for its arguments. -/
def IsOperand (g : Grammar) (input : String) (tokens : List Token) (tree : Tree) : Prop :=
  ∀ kept pending, (∀ f others, pending ≠ .function f :: others) →
    tokens.foldlM (Assembly.take g input) ⟨.ofTrees kept, pending⟩ =
      .ok ⟨.ofTrees (kept ++ [tree]), pending⟩

/-- Whether the tokens behind an open parenthesis are read as the tree when their group is
completed. -/
def IsArgument (g : Grammar) (input : String) (tokens : List Token) (tree : Tree) : Prop :=
  ∀ kept others, ∃ assembly : Assembly,
    tokens.foldlM (Assembly.take g input) ⟨.ofTrees kept, .openParen :: others⟩ = .ok assembly ∧
      assembly.reduceGroup = .ok ⟨.ofTrees (kept ++ [tree]), .openParen :: others⟩

theorem isOperand_literal {text : String} {value : Float}
    (hvalue : Numeral.value? text = some value) :
    IsOperand g input [⟨.number, text⟩] (.literal value) := by
  intro kept pending _
  have htake : Assembly.take g input ⟨.ofTrees kept, pending⟩ ⟨.number, text⟩ =
      .ok (Assembly.plant ⟨.ofTrees kept, pending⟩ (.literal value)) := by
    simp only [Assembly.take, hvalue]
  rw [List.foldlM_cons, htake, Assembly.plant, Forest.plant_literal]
  rfl

theorem isOperand_reference {name : String} (hfree : g.function? name = none) :
    IsOperand g input [⟨.identifier, name⟩] (.reference name) := by
  intro kept pending _
  have htake : Assembly.take g input ⟨.ofTrees kept, pending⟩ ⟨.identifier, name⟩ =
      .ok (Assembly.plant ⟨.ofTrees kept, pending⟩ (.reference name)) := by
    simp only [Assembly.take, hfree]
  rw [List.foldlM_cons, htake, Assembly.plant, Forest.plant_reference]
  rfl

namespace Assembly

variable {assembly : Assembly} {forest : Forest} {others : List Pending}

theorem takeCloseParen_of_reduceGroup
    (h : assembly.reduceGroup = .ok ⟨forest, .openParen :: others⟩) :
    assembly.takeCloseParen input = applyFunction ⟨forest, others⟩ := by
  rw [takeCloseParen, h]
  rfl

theorem takeComma_of_reduceGroup
    (h : assembly.reduceGroup = .ok ⟨forest, .openParen :: others⟩) :
    assembly.takeComma input = .ok ⟨forest, .openParen :: others⟩ := by
  rw [takeComma, h]
  rfl

theorem applyFunction_of_ne (h : ∀ f before, others ≠ .function f :: before) :
    applyFunction ⟨forest, others⟩ = .ok ⟨forest, others⟩ := by
  match others with
  | [] => rfl
  | .openParen :: _ => rfl
  | .operator _ :: _ => rfl
  | .function f :: before => exact (h f before rfl).elim

end Assembly

/-- An argument between parentheses is an operand. -/
theorem IsArgument.isOperand {tokens : List Token} {tree : Tree}
    (h : IsArgument g input tokens tree) (opening closing : String) :
    IsOperand g input (⟨.openParen, opening⟩ :: (tokens ++ [⟨.closeParen, closing⟩])) tree := by
  intro kept pending hpending
  obtain ⟨assembly, hfold, hreduced⟩ := h kept pending
  have hclose : assembly.takeCloseParen input = .ok ⟨.ofTrees (kept ++ [tree]), pending⟩ := by
    rw [Assembly.takeCloseParen_of_reduceGroup hreduced, Assembly.applyFunction_of_ne hpending]
  show List.foldlM (Assembly.take g input) ⟨.ofTrees kept, .openParen :: pending⟩ _ = _
  rw [List.foldlM_append, hfold]
  exact congrArg (· >>= pure) hclose

/-- Arguments with commas between them are read as one tree each. -/
theorem exists_fold_arguments {arguments : List (List Token × Tree)}
    (h : ∀ argument ∈ arguments, IsArgument g input argument.1 argument.2) {inner : List Token}
    (hinner : Separated (arguments.map Prod.fst) inner) (kept : List Tree)
    (others : List Pending) : ∃ assembly : Assembly,
      inner.foldlM (Assembly.take g input) ⟨.ofTrees kept, .openParen :: others⟩ = .ok assembly ∧
      assembly.reduceGroup =
        .ok ⟨.ofTrees (kept ++ arguments.map Prod.snd), .openParen :: others⟩ := by
  generalize hparts : arguments.map Prod.fst = parts at hinner
  induction hinner generalizing arguments with
  | none =>
    rw [List.map_eq_nil_iff] at hparts
    subst hparts
    exact ⟨_, rfl, by rw [List.map_nil, List.append_nil]; rfl⟩
  | one tokens =>
    obtain ⟨argument, rfl, rfl⟩ := List.map_eq_singleton_iff.mp hparts
    exact h argument List.mem_cons_self kept others
  | more hbefore hne comma tokens ih =>
    obtain ⟨before, last, rfl, rfl, hlast⟩ := List.map_eq_append_iff.mp hparts
    obtain ⟨argument, rfl, rfl⟩ := List.map_eq_singleton_iff.mp hlast
    obtain ⟨assembly, hfold, hreduced⟩ :=
      ih (fun other hother ↦ h other (List.mem_append_left _ hother)) rfl
    obtain ⟨next, hnext, hlast⟩ := h argument (List.mem_append_right before List.mem_cons_self)
      (kept ++ before.map Prod.snd) others
    refine ⟨next, ?_, ?_⟩
    · rw [List.foldlM_append, hfold]
      show (Assembly.takeComma assembly input >>= fun assembly ↦
        List.foldlM (Assembly.take g input) assembly _) = _
      rw [Assembly.takeComma_of_reduceGroup hreduced]
      exact hnext
    · rw [hlast, List.map_append, ← List.append_assoc]
      rfl

/-- The name of a function and a group of arguments leave one tree for each argument, and then the
function is applied. -/
theorem foldlM_call {name : String} {f : NamedFunction} (hname : g.function? name = some f)
    {arguments : List (List Token × Tree)}
    (h : ∀ argument ∈ arguments, IsArgument g input argument.1 argument.2) {inner : List Token}
    (hinner : Separated (arguments.map Prod.fst) inner) (opening closing : String)
    (kept : List Tree) (pending : List Pending) :
    List.foldlM (Assembly.take g input) ⟨.ofTrees kept, pending⟩
        (⟨.identifier, name⟩ :: ⟨.openParen, opening⟩ :: (inner ++ [⟨.closeParen, closing⟩])) =
      Assembly.applyFunction
        ⟨.ofTrees (kept ++ arguments.map Prod.snd), .function f :: pending⟩ := by
  obtain ⟨assembly, hfold, hreduced⟩ := exists_fold_arguments h hinner kept (.function f :: pending)
  have htake : Assembly.take g input ⟨.ofTrees kept, pending⟩ ⟨.identifier, name⟩ =
      .ok ⟨.ofTrees kept, .function f :: pending⟩ := by
    simp only [Assembly.take, hname]
    rfl
  rw [List.foldlM_cons, htake]
  show List.foldlM (Assembly.take g input)
    ⟨.ofTrees kept, .openParen :: .function f :: pending⟩ _ = _
  rw [List.foldlM_append, hfold]
  show (assembly.takeCloseParen input >>= pure) = _
  rw [bind_pure, Assembly.takeCloseParen_of_reduceGroup hreduced]

/-- The name of a function and a group of as many arguments as it takes are an operand. -/
theorem isOperand_call {name : String} {f : NamedFunction}
    (hname : g.function? name = some f) {arguments : List (List Token × Tree)}
    (hcount : arguments.length = f.arity)
    (h : ∀ argument ∈ arguments, IsArgument g input argument.1 argument.2) {inner : List Token}
    (hinner : Separated (arguments.map Prod.fst) inner) (opening closing : String) :
    IsOperand g input
      (⟨.identifier, name⟩ :: ⟨.openParen, opening⟩ :: (inner ++ [⟨.closeParen, closing⟩]))
      (.operation f.operation (arguments.map Prod.snd)) := by
  intro kept pending _
  have hlength : (arguments.map Prod.snd).length = f.operation.arity := by
    rw [List.length_map, hcount]
    rfl
  rw [foldlM_call hname h hinner, Assembly.applyFunction]
  simp only [Forest.apply_ofTrees hlength kept]
  rfl

end Reading

end Formulary
