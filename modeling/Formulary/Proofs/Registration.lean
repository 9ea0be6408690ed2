import Formulary.Grammar.Standard

/-!
# Grammars that registrations make

A grammar is reachable (`Grammar.Reachable`) when it grows from one of the three grammars to start
from by registering operators and functions and by removing functions.

Main statement: the tables of a reachable grammar agree with each other (`Grammar.Consistent`,
`Grammar.Reachable.consistent`). The lexer relies on it: the characters of symbols and the length of
the longest symbol are what they are said to be, the parentheses and the comma keep their meaning,
and what is registered under a text is named by this text and is written as operators and functions
must be.
-/

set_option autoImplicit false
set_option relaxedAutoImplicit false

namespace Formulary

/-- What the built-in functions are called does not depend on the draw. -/
theorem Builtin.isIdentifier_of_mem {draw : Float} {f : NamedFunction}
    (hf : f ∈ functions draw) : Grammar.isIdentifier f.name = true := by
  have hnames : (functions draw).map NamedFunction.name =
      (functions default).map NamedFunction.name := rfl
  have hall : ((functions default).map NamedFunction.name).all Grammar.isIdentifier = true := by
    decide +kernel
  exact List.all_eq_true.mp hall f.name (hnames ▸ List.mem_map_of_mem hf)

namespace Grammar

/-- A grammar that grows from one of the grammars to start from. -/
inductive Reachable : Grammar → Prop
  | empty : Reachable .empty
  | arithmetic : Reachable .arithmetic
  | standard {draw : Float} : Reachable (.standard draw)
  | registerOperator {g next : Grammar} {o : Operator} (hg : Reachable g)
    (hnext : g.registerOperator o = .ok next) : Reachable next
  | registerFunction {g next : Grammar} {f : NamedFunction} (hg : Reachable g)
    (hnext : g.registerFunction f = .ok next) : Reachable next
  | removeFunction {g : Grammar} (hg : Reachable g) (name : String) :
    Reachable (g.removeFunction name)

/-! ### What a registration asks for and does -/

theorem registerOperator_eq_ok_iff {g next : Grammar} {o : Operator} :
    g.registerOperator o = .ok next ↔ isOperatorText o.symbol = true ∧
      g.isReserved o.symbol = false ∧ next = g.insertOperator o := by
  unfold registerOperator
  split
  · rename_i hvalid
    simp only [Bool.and_eq_true, Bool.not_eq_true'] at hvalid
    simp only [Except.ok.injEq, hvalid, true_and, eq_comm]
  · rename_i hinvalid
    simp only [Bool.and_eq_true, Bool.not_eq_true'] at hinvalid
    simp only [reduceCtorEq, false_iff]
    exact fun ⟨htext, hfree, _⟩ ↦ hinvalid ⟨htext, hfree⟩

theorem registerFunction_eq_ok_iff {g next : Grammar} {f : NamedFunction} :
    g.registerFunction f = .ok next ↔ isIdentifier f.name = true ∧ next = g.insertFunction f := by
  unfold registerFunction
  split
  · rename_i hname
    simp only [Except.ok.injEq, hname, true_and, eq_comm]
  · rename_i hname
    simp only [reduceCtorEq, hname, Bool.false_eq_true, false_and]

/-- A grammar whose tables agree with each other. -/
structure Consistent (g : Grammar) : Prop where
  openParen : g.symbol? "(" = some .openParen
  closeParen : g.symbol? ")" = some .closeParen
  comma : g.symbol? "," = some .comma
  /-- Symbols are written like operator symbols, the parentheses and the comma too. -/
  isOperatorText : ∀ text symbol, g.symbol? text = some symbol → Grammar.isOperatorText text = true
  /-- A symbol other than the parentheses and the comma is the symbol of an operator. -/
  operator_symbol : ∀ text symbol, g.symbol? text = some symbol → text ≠ "(" → text ≠ ")" →
    text ≠ "," → ∃ o : Operator, symbol = .operator o ∧ o.symbol = text
  isSymbolChar_iff : ∀ c, g.isSymbolChar c = true ↔
    ∃ text symbol, g.symbol? text = some symbol ∧ c ∈ text.toList
  le_maxSymbolLength : ∀ text symbol, g.symbol? text = some symbol →
    text.utf8ByteSize ≤ g.maxSymbolLength
  /-- The bound on the length of symbols is the length of a symbol. -/
  maxSymbolLength_attained : ∃ text symbol, g.symbol? text = some symbol ∧
    text.utf8ByteSize = g.maxSymbolLength
  /-- A function is registered under its own name, which is an identifier. -/
  function_name : ∀ name f, g.function? name = some f → f.name = name ∧ isIdentifier name = true

namespace Consistent

variable {g : Grammar}

/-- An operator is registered under its own symbol. -/
theorem symbol_eq_of_operator? (h : g.Consistent) {symbol : String} {o : Operator}
    (ho : g.operator? symbol = some o) : o.symbol = symbol := by
  obtain ⟨meaning, hmeaning, hoperator⟩ := Option.bind_eq_some_iff.mp ho
  have hother : ∀ reserved : Symbol, reserved.operator? = none → meaning ≠ reserved := by
    rintro reserved hnone rfl
    rw [hnone] at hoperator
    cases hoperator
  have hfree (reserved : Symbol) (hnone : reserved.operator? = none) (text : String)
      (htext : g.symbol? text = some reserved) : symbol ≠ text := by
    rintro rfl
    exact hother reserved hnone (Option.some.inj (hmeaning.symm.trans htext))
  obtain ⟨other, rfl, hsymbol⟩ := h.operator_symbol symbol meaning hmeaning
    (hfree _ rfl _ h.openParen) (hfree _ rfl _ h.closeParen) (hfree _ rfl _ h.comma)
  cases hoperator
  exact hsymbol

/-! ### Extensions keep the tables consistent -/

theorem symbol?_insertOperator_self (g : Grammar) (o : Operator) :
    (g.insertOperator o).symbol? o.symbol = some (.operator o) := by
  rw [Grammar.insertOperator, symbol?_insertSymbol, if_pos rfl]

theorem symbol?_insertOperator_of_ne {o : Operator} {text : String} (hne : o.symbol ≠ text) :
    (g.insertOperator o).symbol? text = g.symbol? text := by
  rw [Grammar.insertOperator, symbol?_insertSymbol, if_neg hne]

/-- A symbol is the one of the new operator or has the meaning that it had. -/
theorem symbol?_insertOperator_cases {o : Operator} {text : String} {symbol : Symbol}
    (h : (g.insertOperator o).symbol? text = some symbol) :
    o.symbol = text ∧ symbol = .operator o ∨ o.symbol ≠ text ∧ g.symbol? text = some symbol := by
  by_cases heq : o.symbol = text
  · subst heq
    rw [symbol?_insertOperator_self] at h
    exact Or.inl ⟨rfl, (Option.some.inj h).symm⟩
  · rw [symbol?_insertOperator_of_ne heq] at h
    exact Or.inr ⟨heq, h⟩

/-- Assumes: an operator with a well-written symbol that is not reserved. Giving the symbol its
meaning keeps the tables consistent. -/
theorem insertOperator (h : g.Consistent) {o : Operator}
    (htext : Grammar.isOperatorText o.symbol = true) (hopen : o.symbol ≠ "(")
    (hclose : o.symbol ≠ ")") (hcomma : o.symbol ≠ ",") : (g.insertOperator o).Consistent where
  openParen := (symbol?_insertOperator_of_ne hopen).trans h.openParen
  closeParen := (symbol?_insertOperator_of_ne hclose).trans h.closeParen
  comma := (symbol?_insertOperator_of_ne hcomma).trans h.comma
  isOperatorText := by
    intro text symbol hsymbol
    rcases symbol?_insertOperator_cases hsymbol with ⟨rfl, -⟩ | ⟨-, hold⟩
    · exact htext
    · exact h.isOperatorText text symbol hold
  operator_symbol := by
    intro text symbol hsymbol
    rcases symbol?_insertOperator_cases hsymbol with ⟨heq, rfl⟩ | ⟨-, hold⟩
    · exact fun _ _ _ ↦ ⟨o, rfl, heq⟩
    · exact h.operator_symbol text symbol hold
  isSymbolChar_iff := by
    intro c
    rw [Grammar.insertOperator, isSymbolChar_insertSymbol, h.isSymbolChar_iff]
    constructor
    · rintro (⟨text, symbol, hsymbol, hc⟩ | hc)
      · by_cases heq : o.symbol = text
        · exact ⟨text, .operator o, heq ▸ symbol?_insertOperator_self g o, hc⟩
        · exact ⟨text, symbol, (symbol?_insertOperator_of_ne heq).trans hsymbol, hc⟩
      · exact ⟨o.symbol, .operator o, symbol?_insertOperator_self g o, hc⟩
    · rintro ⟨text, symbol, hsymbol, hc⟩
      rcases symbol?_insertOperator_cases hsymbol with ⟨rfl, -⟩ | ⟨-, hold⟩
      · exact Or.inr hc
      · exact Or.inl ⟨text, symbol, hold, hc⟩
  le_maxSymbolLength := by
    intro text symbol hsymbol
    rw [Grammar.insertOperator, maxSymbolLength_insertSymbol]
    rcases symbol?_insertOperator_cases hsymbol with ⟨rfl, -⟩ | ⟨-, hold⟩
    · exact Nat.le_max_right _ _
    · exact Nat.le_trans (h.le_maxSymbolLength text symbol hold) (Nat.le_max_left _ _)
  maxSymbolLength_attained := by
    have hlength : (g.insertOperator o).maxSymbolLength =
        max g.maxSymbolLength o.symbol.utf8ByteSize := maxSymbolLength_insertSymbol ..
    by_cases hlong : g.maxSymbolLength ≤ o.symbol.utf8ByteSize
    · exact ⟨o.symbol, .operator o, symbol?_insertOperator_self g o, by omega⟩
    · obtain ⟨text, symbol, hsymbol, hattained⟩ := h.maxSymbolLength_attained
      have hother : o.symbol ≠ text := by
        rintro rfl
        omega
      exact ⟨text, symbol, (symbol?_insertOperator_of_ne hother).trans hsymbol, by omega⟩
  function_name := h.function_name

/-- Assumes: a function whose name is an identifier. Giving the name its meaning keeps the tables
consistent. -/
theorem insertFunction (h : g.Consistent) {f : NamedFunction} (hname : isIdentifier f.name = true) :
    (g.insertFunction f).Consistent :=
  { h with
    function_name := by
      intro name other hother
      rw [function?_insertFunction] at hother
      split at hother
      · rename_i heq
        cases hother
        exact ⟨heq, heq ▸ hname⟩
      · exact h.function_name name other hother }

theorem removeFunction (h : g.Consistent) (removed : String) :
    (g.removeFunction removed).Consistent :=
  { h with
    function_name := by
      intro name f hf
      rw [function?_removeFunction] at hf
      split at hf
      · cases hf
      · exact h.function_name name f hf }

theorem registerOperator (h : g.Consistent) {next : Grammar} {o : Operator}
    (hnext : g.registerOperator o = .ok next) : next.Consistent := by
  obtain ⟨htext, hunreserved, rfl⟩ := registerOperator_eq_ok_iff.mp hnext
  have hfree (text : String) (hreserved : g.isReserved text = true) : o.symbol ≠ text := by
    rintro rfl
    rw [hreserved] at hunreserved
    cases hunreserved
  exact h.insertOperator htext (hfree "(" (by simp only [isReserved, h.openParen]))
    (hfree ")" (by simp only [isReserved, h.closeParen]))
    (hfree "," (by simp only [isReserved, h.comma]))

theorem registerFunction (h : g.Consistent) {next : Grammar} {f : NamedFunction}
    (hnext : g.registerFunction f = .ok next) : next.Consistent := by
  obtain ⟨hname, rfl⟩ := registerFunction_eq_ok_iff.mp hnext
  exact h.insertFunction hname

/-! ### The grammars to start from -/

theorem symbol?_empty_eq_some {text : String} {symbol : Symbol}
    (h : Grammar.empty.symbol? text = some symbol) : text = "(" ∧ symbol = .openParen ∨
      text = ")" ∧ symbol = .closeParen ∨ text = "," ∧ symbol = .comma := by
  simp only [Grammar.empty, symbol?_insertSymbol] at h
  split at h
  · rename_i hcomma
    exact Or.inr (Or.inr ⟨hcomma.symm, (Option.some.inj h).symm⟩)
  · split at h
    · rename_i hclose
      exact Or.inr (Or.inl ⟨hclose.symm, (Option.some.inj h).symm⟩)
    · split at h
      · rename_i hopen
        exact Or.inl ⟨hopen.symm, (Option.some.inj h).symm⟩
      · cases h

theorem empty : Grammar.empty.Consistent where
  openParen := rfl
  closeParen := rfl
  comma := rfl
  isOperatorText := by
    intro text symbol h
    rcases symbol?_empty_eq_some h with ⟨rfl, -⟩ | ⟨rfl, -⟩ | ⟨rfl, -⟩ <;> decide +kernel
  operator_symbol := by
    intro text symbol h hopen hclose hcomma
    rcases symbol?_empty_eq_some h with ⟨rfl, -⟩ | ⟨rfl, -⟩ | ⟨rfl, -⟩
    · exact (hopen rfl).elim
    · exact (hclose rfl).elim
    · exact (hcomma rfl).elim
  isSymbolChar_iff := by
    intro c
    have hchars : Grammar.empty.isSymbolChar c = true ↔ c = '(' ∨ c = ')' ∨ c = ',' := by
      rw [isSymbolChar, show Grammar.empty.symbolChars = ['(', ')', ','] by decide]
      simp
    rw [hchars]
    constructor
    · rintro (rfl | rfl | rfl)
      · exact ⟨"(", .openParen, rfl, by decide⟩
      · exact ⟨")", .closeParen, rfl, by decide⟩
      · exact ⟨",", .comma, rfl, by decide⟩
    · rintro ⟨text, symbol, h, hc⟩
      rcases symbol?_empty_eq_some h with ⟨rfl, -⟩ | ⟨rfl, -⟩ | ⟨rfl, -⟩
      · exact Or.inl (List.mem_singleton.mp hc)
      · exact Or.inr (Or.inl (List.mem_singleton.mp hc))
      · exact Or.inr (Or.inr (List.mem_singleton.mp hc))
  le_maxSymbolLength := by
    intro text symbol h
    rcases symbol?_empty_eq_some h with ⟨rfl, -⟩ | ⟨rfl, -⟩ | ⟨rfl, -⟩ <;> decide
  maxSymbolLength_attained := ⟨"(", .openParen, rfl, by decide⟩
  function_name := by
    intro name f h
    simp [function?, Grammar.empty, insertSymbol] at h

theorem foldl_insertOperator (h : g.Consistent) {operators : List Operator}
    (hwritten : ∀ o ∈ operators, Grammar.isOperatorText o.symbol = true ∧ o.symbol ≠ "(" ∧
      o.symbol ≠ ")" ∧ o.symbol ≠ ",") : (operators.foldl Grammar.insertOperator g).Consistent := by
  induction operators generalizing g with
  | nil => exact h
  | cons o operators ih =>
    obtain ⟨htext, hopen, hclose, hcomma⟩ := hwritten o List.mem_cons_self
    exact ih (h.insertOperator htext hopen hclose hcomma)
      fun other hother ↦ hwritten other (List.mem_cons_of_mem o hother)

theorem foldl_insertFunction (h : g.Consistent) {functions : List NamedFunction}
    (hnames : ∀ f ∈ functions, isIdentifier f.name = true) :
    (functions.foldl Grammar.insertFunction g).Consistent := by
  induction functions generalizing g with
  | nil => exact h
  | cons f functions ih =>
    exact ih (h.insertFunction (hnames f List.mem_cons_self))
      fun other hother ↦ hnames other (List.mem_cons_of_mem f hother)

theorem arithmetic : Grammar.arithmetic.Consistent :=
  empty.foldl_insertOperator (by
    simp only [arithmeticOperators, List.forall_mem_cons]
    decide +kernel)

theorem standard (draw : Float) : (Grammar.standard draw).Consistent :=
  arithmetic.foldl_insertFunction fun _ ↦ Builtin.isIdentifier_of_mem

end Consistent

/-- The tables of every reachable grammar agree with each other. -/
theorem Reachable.consistent {g : Grammar} (hg : g.Reachable) : g.Consistent := by
  induction hg with
  | empty => exact .empty
  | arithmetic => exact .arithmetic
  | standard => exact .standard _
  | registerOperator _ hnext ih => exact ih.registerOperator hnext
  | registerFunction _ hnext ih => exact ih.registerFunction hnext
  | removeFunction _ name ih => exact ih.removeFunction name

end Grammar

end Formulary
