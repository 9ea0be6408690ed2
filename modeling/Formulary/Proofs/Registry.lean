import Formulary.Proofs.Commands
import Formulary.Proofs.Spacing
import Mathlib.Order.Bounds.Defs

/-!
# A grammar keeps the record of its changes

What was registered with a grammar can be recorded in two maps, from symbols to operators and from
names to functions (`Registry`). Registering sets an entry and removing erases one, and a change
that fails is not recorded. The grammars to start from have records too (`Registry.Begins`).

Main statement: whatever changes are asked of a grammar, and whichever of them fail, its tables say
what the record says (`Grammar.Tabulates`). Looking up an operator or a function gives its entry.
The symbols are those of the operators together with the parentheses and the comma, which are never
operators, and the characters of symbols and the length of the longest one are exactly those of
these symbols. Every operator and every function is kept under its own name, which is written as it
must be. A change fails exactly if it would register something that is written otherwise
(`Change.Admissible`).
-/

set_option autoImplicit false
set_option relaxedAutoImplicit false

namespace Formulary

/-! ### Changes and their record -/

/-- A change that can be asked of a grammar. -/
inductive Change
  | registerOperator (o : Operator)
  | registerFunction (f : NamedFunction)
  | removeFunction (name : String)

/-- The texts of the reserved symbols. -/
def reservedTexts : List String := ["(", ")", ","]

/-- Whether the text can be the symbol of an operator. -/
structure WrittenAsOperator (text : String) : Prop where
  nonempty : text ≠ ""
  isAlphanumeric : ∀ c ∈ text.toList, Text.isAlphanumeric c = false
  ne_underscore : ∀ c ∈ text.toList, c ≠ '_'
  isWhitespace : ∀ c ∈ text.toList, Text.isWhitespace c = false

/-- Whether the text is an ASCII letter or underscore, followed by ASCII letters, digits and
underscores. -/
def WrittenAsName (text : String) : Prop :=
  ∃ first others, text.toList = first :: others ∧ (first.isAlpha = true ∨ first = '_') ∧
    ∀ c ∈ others, c.isAlphanum = true ∨ c = '_'

namespace Change

/-- The request for the change of a grammar that a studio keeps. -/
def request (name : String) : Change → Request
  | registerOperator o => .registerOperator name o
  | registerFunction f => .registerFunction name f
  | removeFunction function => .removeFunction name function

/-- Whether what the change would register is written as it must be. -/
def Admissible : Change → Prop
  | registerOperator o => WrittenAsOperator o.symbol ∧ o.symbol ∉ reservedTexts
  | registerFunction f => WrittenAsName f.name
  | removeFunction _ => True

/-- The changes that were answered without an error. -/
def successful (changes : List Change) (answers : List (Except Refusal Answer)) : List Change :=
  ((changes.zip (answers.map Except.isOk)).filter Prod.snd).map Prod.fst

section Successful

variable {answer : Except Refusal Answer} (change : Change) (changes : List Change)
  (answers : List (Except Refusal Answer))

theorem successful_cons_of_isOk (h : answer.isOk = true) :
    successful (change :: changes) (answer :: answers) = change :: successful changes answers := by
  simp [successful, h]

theorem successful_cons_of_not_isOk (h : answer.isOk = false) :
    successful (change :: changes) (answer :: answers) = successful changes answers := by
  simp [successful, h]

end Successful

end Change

/-- Asks a studio for changes of one of its grammars, one after the other: the answers, and the
studio behind them. -/
def Studio.change (studio : Studio) (name : String) (changes : List Change) :
    List (Except Refusal Answer) × Studio :=
  studio.steps (changes.map (Change.request name))

/-- What is registered, by symbol and by name. -/
structure Registry where
  operators : String → Option Operator
  functions : String → Option NamedFunction

namespace Registry

/-- The record of nothing. -/
def empty : Registry := ⟨fun _ ↦ none, fun _ ↦ none⟩

/-- Records a change. -/
def after (registry : Registry) : Change → Registry
  | .registerOperator o =>
    { registry with operators := Function.update registry.operators o.symbol (some o) }
  | .registerFunction f =>
    { registry with functions := Function.update registry.functions f.name (some f) }
  | .removeFunction name =>
    { registry with functions := Function.update registry.functions name none }

/-- The record of changes made one after the other. -/
def ofChanges (changes : List Change) : Registry := changes.foldl after empty

/-- Whether the text is a symbol: a parenthesis, the comma, or the symbol of an operator. -/
def IsSymbol (registry : Registry) (text : String) : Prop :=
  text ∈ reservedTexts ∨ (registry.operators text).isSome = true

/-- The grammars to start from, with the changes that make their entries. -/
inductive Begins : Grammar → List Change → Prop
  | empty : Begins .empty []
  | arithmetic : Begins .arithmetic (Grammar.arithmeticOperators.map .registerOperator)
  | standard {draw : Float} : Begins (.standard draw)
      (Grammar.arithmeticOperators.map .registerOperator ++
        (Builtin.functions draw).map .registerFunction)

end Registry

/-- Whether the tables of a grammar say what is recorded. -/
structure Grammar.Tabulates (g : Grammar) (registry : Registry) : Prop where
  operator?_eq : g.operator? = registry.operators
  function?_eq : g.function? = registry.functions
  isSome_symbolKind?_iff : ∀ text, (g.symbolKind? text).isSome = true ↔ registry.IsSymbol text
  isSymbolChar_iff : ∀ c, g.isSymbolChar c = true ↔
    ∃ text, registry.IsSymbol text ∧ c ∈ text.toList
  isGreatest_maxSymbolLength : IsGreatest
    { length | ∃ text, registry.IsSymbol text ∧ text.utf8ByteSize = length } g.maxSymbolLength
  /-- The parentheses and the comma keep their kinds. -/
  reserved : g.symbolKind? "(" = some .openParen ∧ g.symbolKind? ")" = some .closeParen ∧
    g.symbolKind? "," = some .comma ∧ ∀ text ∈ reservedTexts, g.operator? text = none
  operator : ∀ text o, g.operator? text = some o → o.symbol = text ∧ WrittenAsOperator text
  /-- A function is kept under its own name, which the lexer cuts as one identifier. -/
  function : ∀ name f, g.function? name = some f → f.name = name ∧ WrittenAsName name ∧
    Lexer.run g (.ofText name) = ⟨[⟨.identifier, name⟩], none, [], .exhausted⟩

/-! ### How operators and functions are written -/

theorem Grammar.isOperatorText_iff {text : String} :
    isOperatorText text = true ↔ WrittenAsOperator text := by
  simp only [isOperatorText, isOperatorChar, Bool.and_eq_true, Bool.not_eq_true', List.all_eq_true,
    Bool.or_eq_false_iff, beq_eq_false_iff_ne, String.isEmpty_eq_false_iff]
  constructor
  · rintro ⟨hne, hchars⟩
    exact ⟨hne, fun c hc ↦ (hchars c hc).1.1, fun c hc ↦ (hchars c hc).1.2,
      fun c hc ↦ (hchars c hc).2⟩
  · rintro ⟨hne, hletters, hunderscore, hblanks⟩
    exact ⟨hne, fun c hc ↦ ⟨⟨hletters c hc, hunderscore c hc⟩, hblanks c hc⟩⟩

theorem Grammar.isIdentifier_iff {text : String} :
    isIdentifier text = true ↔ WrittenAsName text := by
  rw [isIdentifier, WrittenAsName]
  cases text.toList with
  | nil => simp
  | cons c cs => simp [isNameStart, isNameChar]

namespace Grammar

variable {g : Grammar}

theorem Consistent.isReserved_iff (hg : g.Consistent) {text : String} :
    g.isReserved text = true ↔ text ∈ reservedTexts := by
  constructor
  · intro h
    by_contra hother
    simp only [reservedTexts, List.mem_cons, List.not_mem_nil, or_false, not_or] at hother
    cases hsymbol : g.symbol? text with
    | none => simp [isReserved, hsymbol] at h
    | some symbol =>
      obtain ⟨o, rfl, -⟩ :=
        hg.operator_symbol text symbol hsymbol hother.1 hother.2.1 hother.2.2
      simp [isReserved, hsymbol] at h
  · simp only [reservedTexts, List.mem_cons, List.not_mem_nil, or_false]
    rintro (rfl | rfl | rfl)
    · simp only [isReserved, hg.openParen]
    · simp only [isReserved, hg.closeParen]
    · simp only [isReserved, hg.comma]

/-! ### One change -/

/-- The grammar behind a change that succeeds. -/
def changed (g : Grammar) : Change → Grammar
  | .registerOperator o => g.insertOperator o
  | .registerFunction f => g.insertFunction f
  | .removeFunction name => g.removeFunction name

/-- What a change keeps: the tables agree with each other, and what is looked up is recorded. -/
structure Records (g : Grammar) (registry : Registry) : Prop where
  consistent : g.Consistent
  operator?_eq : g.operator? = registry.operators
  function?_eq : g.function? = registry.functions

theorem operator?_insertOperator (g : Grammar) (o : Operator) :
    (g.insertOperator o).operator? = Function.update g.operator? o.symbol (some o) := by
  funext text
  rw [operator?, insertOperator, symbol?_insertSymbol, Function.update_apply]
  by_cases heq : text = o.symbol
  · rw [if_pos heq.symm, if_pos heq]
    rfl
  · rw [if_neg (Ne.symm heq), if_neg heq]
    rfl

theorem function?_insertFunction_eq_update (g : Grammar) (f : NamedFunction) :
    (g.insertFunction f).function? = Function.update g.function? f.name (some f) := by
  funext name
  rw [function?_insertFunction, Function.update_apply]
  simp only [eq_comm]

theorem function?_removeFunction_eq_update (g : Grammar) (removed : String) :
    (g.removeFunction removed).function? = Function.update g.function? removed none := by
  funext name
  rw [function?_removeFunction, Function.update_apply]
  simp only [eq_comm]

/-- A change that is admissible is recorded. -/
theorem Records.changed {registry : Registry} (h : g.Records registry) {change : Change}
    (hadmissible : change.Admissible) : (g.changed change).Records (registry.after change) := by
  cases change with
  | registerOperator o =>
    obtain ⟨hwritten, hfree⟩ := hadmissible
    simp only [reservedTexts, List.mem_cons, List.not_mem_nil, or_false, not_or] at hfree
    exact {
      consistent := h.consistent.insertOperator (isOperatorText_iff.mpr hwritten) hfree.1 hfree.2.1
        hfree.2.2
      operator?_eq := by rw [Grammar.changed, operator?_insertOperator, h.operator?_eq]; rfl
      function?_eq := h.function?_eq }
  | registerFunction f => exact {
      consistent := h.consistent.insertFunction (isIdentifier_iff.mpr hadmissible)
      operator?_eq := h.operator?_eq
      function?_eq := by
        rw [Grammar.changed, function?_insertFunction_eq_update, h.function?_eq]; rfl }
  | removeFunction name => exact {
      consistent := h.consistent.removeFunction name
      operator?_eq := h.operator?_eq
      function?_eq := by
        rw [Grammar.changed, function?_removeFunction_eq_update, h.function?_eq]; rfl }

theorem Records.foldl_changed {registry : Registry} (h : g.Records registry) {changes : List Change}
    (hadmissible : ∀ change ∈ changes, change.Admissible) :
    (changes.foldl Grammar.changed g).Records (changes.foldl Registry.after registry) := by
  induction changes generalizing g registry with
  | nil => exact h
  | cons change changes ih =>
    exact ih (h.changed (hadmissible change List.mem_cons_self))
      fun other hother ↦ hadmissible other (List.mem_cons_of_mem change hother)

/-! ### The grammars to start from -/

theorem admissible_of_mem_arithmeticOperators {o : Operator} (h : o ∈ arithmeticOperators) :
    (Change.registerOperator o).Admissible := by
  have hall : ∀ o ∈ arithmeticOperators,
      isOperatorText o.symbol = true ∧ o.symbol ∉ reservedTexts := by
    simp only [arithmeticOperators, List.forall_mem_cons]
    decide +kernel
  exact (hall o h).imp_left isOperatorText_iff.mp

theorem records_empty : empty.Records .empty where
  consistent := .empty
  operator?_eq := by
    funext text
    refine Option.eq_none_iff_forall_ne_some.mpr fun o ho ↦ ?_
    obtain ⟨symbol, hsymbol, hoperator⟩ := Option.bind_eq_some_iff.mp ho
    rcases Consistent.symbol?_empty_eq_some hsymbol with ⟨-, rfl⟩ | ⟨-, rfl⟩ | ⟨-, rfl⟩ <;>
      cases hoperator
  function?_eq := by
    funext name
    simp [function?, empty, insertSymbol, Registry.empty]

/-- The entries of a grammar to start from are recorded. -/
theorem records_of_begins {entries : List Change} (h : Registry.Begins g entries) :
    g.Records (.ofChanges entries) := by
  have harithmetic : arithmetic.Records
      (.ofChanges (arithmeticOperators.map .registerOperator)) := by
    rw [arithmetic, show insertOperator = fun g o ↦ g.changed (.registerOperator o) from rfl,
      ← List.foldl_map]
    refine records_empty.foldl_changed fun change hchange ↦ ?_
    obtain ⟨o, ho, rfl⟩ := List.mem_map.mp hchange
    exact admissible_of_mem_arithmeticOperators ho
  cases h with
  | empty => exact records_empty
  | arithmetic => exact harithmetic
  | standard =>
    rw [standard, show insertFunction = fun g f ↦ g.changed (.registerFunction f) from rfl,
      ← List.foldl_map, Registry.ofChanges, List.foldl_append]
    refine harithmetic.foldl_changed fun change hchange ↦ ?_
    obtain ⟨f, hf, rfl⟩ := List.mem_map.mp hchange
    exact isIdentifier_iff.mp (Builtin.isIdentifier_of_mem hf)

/-! ### What the tables say -/

theorem Consistent.isSome_symbol?_iff (hg : g.Consistent) {text : String} :
    (g.symbol? text).isSome = true ↔ text ∈ reservedTexts ∨ (g.operator? text).isSome = true := by
  constructor
  · intro h
    obtain ⟨symbol, hsymbol⟩ := Option.isSome_iff_exists.mp h
    by_cases hreserved : g.isReserved text = true
    · exact Or.inl (hg.isReserved_iff.mp hreserved)
    · cases symbol with
      | operator o => exact Or.inr (by simp [operator?, hsymbol, Symbol.operator?])
      | _ => simp [isReserved, hsymbol] at hreserved
  · rintro (hreserved | hoperator)
    · have h := hg.isReserved_iff.mpr hreserved
      cases hsymbol : g.symbol? text with
      | none => simp [isReserved, hsymbol] at h
      | some symbol => rfl
    · obtain ⟨o, ho⟩ := Option.isSome_iff_exists.mp hoperator
      obtain ⟨symbol, hsymbol, -⟩ := Option.bind_eq_some_iff.mp ho
      rw [hsymbol]
      rfl

theorem Records.isSymbol_iff {registry : Registry} (h : g.Records registry) {text : String} :
    registry.IsSymbol text ↔ ∃ symbol, g.symbol? text = some symbol := by
  rw [Registry.IsSymbol, ← h.operator?_eq, ← h.consistent.isSome_symbol?_iff,
    Option.isSome_iff_exists]

/-- A name by itself is cut as one identifier. -/
theorem run_of_isIdentifier (g : Grammar) {name : String} (hname : isIdentifier name = true) :
    Lexer.run g (.ofText name) = ⟨[⟨.identifier, name⟩], none, [], .exhausted⟩ := by
  have hspaced : Spaced [⟨.identifier, name⟩] ([] ++ name.toList ++ []) :=
    .token (List.forall_mem_nil _) Text.apart_nil (.blank (List.forall_mem_nil _))
  rw [List.nil_append, List.append_nil] at hspaced
  exact Lexer.run_of_spaced hspaced
    (List.forall_mem_singleton.mpr (Token.stands_identifier g hname))

/-- The tables of a grammar that keeps its record say what is recorded. -/
theorem Records.tabulates {registry : Registry} (h : g.Records registry) :
    g.Tabulates registry where
  operator?_eq := h.operator?_eq
  function?_eq := h.function?_eq
  isSome_symbolKind?_iff := by
    intro text
    rw [h.isSymbol_iff, symbolKind?, Option.isSome_map, Option.isSome_iff_exists]
  isSymbolChar_iff := by
    intro c
    rw [h.consistent.isSymbolChar_iff]
    simp only [h.isSymbol_iff, exists_and_right]
  isGreatest_maxSymbolLength := by
    constructor
    · obtain ⟨text, symbol, hsymbol, hlength⟩ := h.consistent.maxSymbolLength_attained
      exact ⟨text, h.isSymbol_iff.mpr ⟨symbol, hsymbol⟩, hlength⟩
    · rintro length ⟨text, htext, rfl⟩
      obtain ⟨symbol, hsymbol⟩ := h.isSymbol_iff.mp htext
      exact h.consistent.le_maxSymbolLength text symbol hsymbol
  reserved := by
    have hg := h.consistent
    refine ⟨by simp only [symbolKind?, hg.openParen]; rfl,
      by simp only [symbolKind?, hg.closeParen]; rfl, by simp only [symbolKind?, hg.comma]; rfl, ?_⟩
    simp [reservedTexts, operator?, hg.openParen, hg.closeParen, hg.comma, Symbol.operator?]
  operator := by
    intro text o ho
    obtain ⟨symbol, hsymbol, -⟩ := Option.bind_eq_some_iff.mp ho
    exact ⟨h.consistent.symbol_eq_of_operator? ho,
      isOperatorText_iff.mp (h.consistent.isOperatorText text symbol hsymbol)⟩
  function := by
    intro name f hf
    obtain ⟨hsame, hname⟩ := h.consistent.function_name name f hf
    exact ⟨hsame, isIdentifier_iff.mp hname, run_of_isIdentifier g hname⟩

/-- A change is made if it is admissible, and otherwise it fails. -/
theorem Consistent.registerOperator_cases (hg : g.Consistent) (o : Operator) :
    ((Change.registerOperator o).Admissible ∧ g.registerOperator o = .ok (g.insertOperator o)) ∨
    (¬ (Change.registerOperator o).Admissible ∧
      g.registerOperator o = .error (.invalidOperatorSymbol o.symbol)) := by
  by_cases h : (Change.registerOperator o).Admissible
  · have hfree : g.isReserved o.symbol = false :=
      Bool.eq_false_iff.mpr fun hreserved ↦ h.2 (hg.isReserved_iff.mp hreserved)
    exact Or.inl ⟨h, registerOperator_eq_ok_iff.mpr ⟨isOperatorText_iff.mpr h.1, hfree, rfl⟩⟩
  · refine Or.inr ⟨h, if_neg fun hvalid ↦ h ?_⟩
    obtain ⟨hwritten, hfree⟩ := (Bool.and_eq_true _ _).mp hvalid
    refine ⟨isOperatorText_iff.mp hwritten, fun hreserved ↦ ?_⟩
    rw [hg.isReserved_iff.mpr hreserved] at hfree
    cases hfree

theorem registerFunction_cases (g : Grammar) (f : NamedFunction) :
    ((Change.registerFunction f).Admissible ∧ g.registerFunction f = .ok (g.insertFunction f)) ∨
    (¬ (Change.registerFunction f).Admissible ∧
      g.registerFunction f = .error (.invalidFunctionName f.name)) := by
  by_cases h : (Change.registerFunction f).Admissible
  · exact Or.inl ⟨h, registerFunction_eq_ok_iff.mpr ⟨isIdentifier_iff.mpr h, rfl⟩⟩
  · exact Or.inr ⟨h, if_neg fun hname ↦ h (isIdentifier_iff.mp hname)⟩

end Grammar

/-! ### Any number of changes -/

namespace Studio

variable {studio : Studio} {name : String} {g : Grammar}

theorem getElem?_keepGrammar (studio : Studio) (name : String) (g : Grammar) :
    (studio.keepGrammar name g).2.grammars[name]? = some g := by
  simp [keepGrammar]

section TryGrammar

variable {change : Grammar → Except RegistrationError Grammar}
  (hkept : studio.grammars[name]? = some g)

include hkept

theorem tryGrammar_of_ok {next : Grammar} (h : change g = .ok next) :
    studio.tryGrammar name change = studio.keepGrammar name next := by
  simp only [tryGrammar, withGrammar, hkept, h]

theorem tryGrammar_of_error {error : RegistrationError} (h : change g = .error error) :
    studio.tryGrammar name change = (.error (.failed (.registration error)), studio) := by
  simp only [tryGrammar, withGrammar, hkept, h]

end TryGrammar

/-- The studio answers to a change that is admissible and keeps the changed grammar. To any other
change it answers with an error, and it keeps the grammar as it was. -/
theorem step_request (hg : g.Consistent) (hkept : studio.grammars[name]? = some g)
    (change : Change) :
    (change.Admissible ∧ (studio.step (change.request name)).1.isOk = true ∧
      (studio.step (change.request name)).2.grammars[name]? = some (g.changed change)) ∨
    (¬ change.Admissible ∧ (studio.step (change.request name)).1.isOk = false ∧
      (studio.step (change.request name)).2.grammars[name]? = some g) := by
  cases change with
  | registerOperator o =>
    rw [Change.request, step]
    rcases hg.registerOperator_cases o with ⟨hadmissible, hok⟩ | ⟨hinadmissible, herror⟩
    · rw [tryGrammar_of_ok hkept hok]
      exact Or.inl ⟨hadmissible, rfl, getElem?_keepGrammar ..⟩
    · rw [tryGrammar_of_error hkept herror]
      exact Or.inr ⟨hinadmissible, rfl, hkept⟩
  | registerFunction f =>
    rw [Change.request, step]
    rcases g.registerFunction_cases f with ⟨hadmissible, hok⟩ | ⟨hinadmissible, herror⟩
    · rw [tryGrammar_of_ok hkept hok]
      exact Or.inl ⟨hadmissible, rfl, getElem?_keepGrammar ..⟩
    · rw [tryGrammar_of_error hkept herror]
      exact Or.inr ⟨hinadmissible, rfl, hkept⟩
  | removeFunction function =>
    rw [Change.request, step, withGrammar, hkept]
    exact Or.inl ⟨trivial, rfl, getElem?_keepGrammar ..⟩

theorem change_cons (studio : Studio) (name : String) (change : Change) (changes : List Change) :
    studio.change name (change :: changes) =
      ((studio.step (change.request name)).1 ::
          ((studio.step (change.request name)).2.change name changes).1,
        ((studio.step (change.request name)).2.change name changes).2) := by
  rw [Studio.change, List.map_cons, steps_cons]
  rfl

/-- Assumes: a grammar keeps its record. After any changes it keeps the record of those that were
answered without an error, and these are the admissible ones. -/
theorem records_of_change {registry : Registry} (hg : g.Records registry)
    (hkept : studio.grammars[name]? = some g) (changes : List Change) :
    (∃ last : Grammar, (studio.change name changes).2.grammars[name]? = some last ∧
      last.Records
        ((Change.successful changes (studio.change name changes).1).foldl Registry.after registry)) ∧
    List.Forall₂ (fun change answer ↦ answer.isOk = true ↔ change.Admissible) changes
      (studio.change name changes).1 := by
  induction changes generalizing studio g registry with
  | nil => exact ⟨⟨g, hkept, hg⟩, .nil⟩
  | cons change changes ih =>
    rw [change_cons]
    rcases step_request hg.consistent hkept change with
      ⟨hadmissible, hok, hnext⟩ | ⟨hinadmissible, herror, hnext⟩
    · obtain ⟨hlast, hothers⟩ := ih (hg.changed hadmissible) hnext
      rw [Change.successful_cons_of_isOk _ _ _ hok, List.foldl_cons]
      exact ⟨hlast, .cons (iff_of_true hok hadmissible) hothers⟩
    · obtain ⟨hlast, hothers⟩ := ih hg hnext
      rw [Change.successful_cons_of_not_isOk _ _ _ herror]
      exact ⟨hlast, .cons (iff_of_false (Bool.eq_false_iff.mp herror) hinadmissible) hothers⟩

/-- Assumes: a studio keeps a grammar to start from. Whatever changes are asked of it, and whichever
of them fail, the tables of the grammar that is kept in the end say what the changes that succeeded
have recorded, on top of the entries from the beginning. Those that succeed are the admissible
ones. -/
theorem tabulates_of_change {base : Grammar} {entries : List Change}
    (hbegins : Registry.Begins base entries) (hkept : studio.grammars[name]? = some base)
    (changes : List Change) :
    (∃ g : Grammar, (studio.change name changes).2.grammars[name]? = some g ∧
      g.Tabulates (.ofChanges
        (entries ++ Change.successful changes (studio.change name changes).1))) ∧
    List.Forall₂ (fun change answer ↦ answer.isOk = true ↔ change.Admissible) changes
      (studio.change name changes).1 := by
  obtain ⟨⟨g, hlast, hrecords⟩, hanswers⟩ :=
    records_of_change (Grammar.records_of_begins hbegins) hkept changes
  refine ⟨⟨g, hlast, ?_⟩, hanswers⟩
  rw [Registry.ofChanges, List.foldl_append]
  exact hrecords.tabulates

/-- A studio that keeps the grammar of arithmetic. -/
def withArithmetic : Studio := (initial.keepGrammar "g" .arithmetic).2

/-- An operator of three bytes. -/
def atMost (precedence : Int) : Operator := ⟨"<==", precedence, .left, fun x _ ↦ x⟩

/-- A function of one argument. -/
def identity (name : String) : NamedFunction := ⟨name, 1, .unary id⟩

/-- Changes of which every other one fails: the parenthesis is reserved, a numeral is no name, and
an operator must not hold an underscore. -/
def mixedChanges : List Change :=
  [.registerOperator (atMost 1), .registerOperator { atMost 1 with symbol := "(" },
    .registerFunction (identity "f"), .registerFunction (identity "2"), .removeFunction "f",
    .registerOperator { atMost 1 with symbol := "<_" }, .registerOperator (atMost 5)]

/-- The operator is the one that was registered last, and the function is removed. -/
theorem tabulates_of_change_mixed : withArithmetic.grammars["g"]? = some .arithmetic ∧
    (withArithmetic.change "g" mixedChanges).1.map Except.isOk =
      [true, false, true, false, true, false, true] ∧
    ∃ g : Grammar, (withArithmetic.change "g" mixedChanges).2.grammars["g"]? = some g ∧
      g.operator? "<==" = some (atMost 5) ∧ g.operator? "(" = none ∧ g.function? "f" = none ∧
      (g.symbolKind? "<_").isSome = false ∧ 3 ≤ g.maxSymbolLength := by
  have hkept : withArithmetic.grammars["g"]? = some .arithmetic := getElem?_keepGrammar ..
  have hanswers : (withArithmetic.change "g" mixedChanges).1.map Except.isOk =
      [true, false, true, false, true, false, true] := by decide +kernel
  obtain ⟨⟨g, hlast, htables⟩, -⟩ := tabulates_of_change .arithmetic hkept mixedChanges
  rw [Change.successful, hanswers] at htables
  have hoperator : g.operator? "<==" = some (atMost 5) := by
    rw [htables.operator?_eq]
    rfl
  refine ⟨hkept, hanswers, g, hlast, hoperator, htables.reserved.2.2.2 "(" (by decide), ?_, ?_, ?_⟩
  · rw [htables.function?_eq]
    rfl
  · refine Bool.eq_false_iff.mpr fun hsome ↦ ?_
    rcases (htables.isSome_symbolKind?_iff "<_").mp hsome with hreserved | hoperator
    · exact absurd hreserved (by decide)
    · cases hoperator
  · refine htables.isGreatest_maxSymbolLength.2 ⟨"<==", Or.inr ?_, rfl⟩
    rw [← htables.operator?_eq, hoperator]
    rfl

end Studio

end Formulary
