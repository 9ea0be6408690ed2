import Formulary.Compiler
import Formulary.Proofs.Assembly
import Formulary.Proofs.Lexing

/-!
# What a registration leaves alone

A registered operator adds its characters to the characters of symbols and may let symbols be longer.
Texts without the symbol of the operator are cut into the same tokens all the same: the longest symbol
in front of a text is one of the pieces of the text, and what these mean has not changed. Where no
symbol is in front, there still is an error, but it may show more of the text (`LexError.Widens`).
Functions are not looked up before the tokens are assembled.

Main statement: a registration or a removal leaves every text alone that does not mention what it is
about. The text is cut into the same tokens and an error is met at the same place, and it compiles to
the same expression or to the same error, unless it cannot be cut into tokens.
-/

set_option autoImplicit false
set_option relaxedAutoImplicit false

namespace Formulary

open Text

/-! ### Errors that show more -/

/-- Whether an error of cutting stands for another one where there are more characters of symbols: it
shows the same, or, where no symbol is in front, more of the text. -/
inductive LexError.Widens : LexError → LexError → Prop
  | badNumberSyntax (text : String) : Widens (.badNumberSyntax text) (.badNumberSyntax text)
  | unexpectedCharacter (c : Char) : Widens (.unexpectedCharacter c) (.unexpectedCharacter c)
  /-- The character has come to occur in a symbol. -/
  | symbolChar (c : Char) (more : List Char) :
    Widens (.unexpectedCharacter c) (.invalidToken (String.ofList (c :: more)))
  | invalidToken (text more : String) : Widens (.invalidToken text) (.invalidToken (text ++ more))

theorem LexError.Widens.refl (error : LexError) : error.Widens error := by
  cases error with
  | badNumberSyntax text => exact .badNumberSyntax text
  | unexpectedCharacter c => exact .unexpectedCharacter c
  | invalidToken text =>
    have hsame := Widens.invalidToken text ""
    rwa [String.append_empty] at hsame

/-- Whether an error of compiling stands for another one: errors of cutting may show more, and any
other error is the same. -/
inductive CompileError.Widens : CompileError → CompileError → Prop
  | lex {error wider : LexError} (h : error.Widens wider) : Widens (.lex error) (.lex wider)
  | same {error : CompileError} (h : ∀ lexical, error ≠ .lex lexical) : Widens error error

theorem CompileError.Widens.refl (error : CompileError) : error.Widens error := by
  cases error with
  | lex error => exact .lex (.refl error)
  | _ => exact .same fun _ h ↦ by cases h

/-- Whether two outcomes are the same value, or both are errors, which are related. -/
inductive Agree {ε α : Type} (related : ε → ε → Prop) : Except ε α → Except ε α → Prop
  | ok (a : α) : Agree related (.ok a) (.ok a)
  | error {error other : ε} (h : related error other) : Agree related (.error error) (.error other)

namespace Agree

variable {ε α β : Type} {related : ε → ε → Prop}

theorem refl (hrefl : ∀ error, related error error) (x : Except ε α) : Agree related x x := by
  cases x with
  | error error => exact .error (hrefl error)
  | ok a => exact .ok a

theorem bind {x y : Except ε α} {k l : α → Except ε β} (h : Agree related x y)
    (hk : ∀ a, Agree related (k a) (l a)) : Agree related (x >>= k) (y >>= l) := by
  cases h with
  | ok a => exact hk a
  | error h => exact .error h

theorem eq_of_ok {a : α} {y : Except ε α} (h : Agree related (.ok a) y) : y = .ok a := by
  cases h
  rfl

theorem exists_of_error {error : ε} {y : Except ε α} (h : Agree related (.error error) y) :
    ∃ other, related error other ∧ y = .error other := by
  cases h with
  | error h => exact ⟨_, h, rfl⟩

end Agree

/-! ### Grammars with more symbols -/

/-- Whether a grammar extends another one without a consequence for a text: it has the same symbols
among the pieces of the text. -/
structure Grammar.ExtendsOn (g next : Grammar) (text : List Char) : Prop where
  isSymbolChar : ∀ c, g.isSymbolChar c = true → next.isSymbolChar c = true
  maxSymbolLength : g.maxSymbolLength ≤ next.maxSymbolLength
  symbol? : ∀ piece, piece <:+: text →
    next.symbol? (String.ofList piece) = g.symbol? (String.ofList piece)

namespace Grammar.ExtendsOn

variable {g next : Grammar} {text : List Char}

/-- Giving a symbol its meaning has no consequence for the texts that it does not occur in. -/
theorem insertOperator (g : Grammar) {o : Operator} (h : ¬ o.symbol.toList <:+: text) :
    g.ExtendsOn (g.insertOperator o) text where
  isSymbolChar c hc := (isSymbolChar_insertSymbol g o.symbol (.operator o) c).mpr (Or.inl hc)
  maxSymbolLength := Nat.le_max_left _ _
  symbol? := by
    intro piece hpiece
    refine Consistent.symbol?_insertOperator_of_ne ?_
    intro hsymbol
    rw [hsymbol, String.toList_ofList] at h
    exact h hpiece

theorem suffix (h : g.ExtendsOn next text) {left : List Char} (hleft : left <:+ text) :
    g.ExtendsOn next left :=
  { h with symbol? := fun piece hpiece ↦ h.symbol? piece (hpiece.trans hleft.isInfix) }

theorem operator? (h : g.ExtendsOn next text) {symbol : String} (hsymbol : symbol.toList <:+: text) :
    next.operator? symbol = g.operator? symbol := by
  have hsame := h.symbol? symbol.toList hsymbol
  rw [String.ofList_toList] at hsame
  rw [Grammar.operator?, Grammar.operator?, hsame]

/-- The longest symbol in front of the text is the same one. -/
theorem longestSymbol_eq (h : g.ExtendsOn next text) :
    Lexer.longestSymbol next text text.length = Lexer.longestSymbol g text text.length :=
  Lexer.longestSymbol_congr fun length _ ↦ by
    rw [symbolKind?, symbolKind?, h.symbol? _ (List.take_prefix length text).isInfix]

/-- The window of the extending grammar shows at least as much of the text. -/
theorem symbolWindow_isPrefix (h : g.ExtendsOn next text) {room more : Nat} (hroom : room ≤ more)
    (shown : List Char) : Lexer.symbolWindow g room shown <+: Lexer.symbolWindow next more shown := by
  induction shown generalizing room more with
  | nil => exact List.prefix_refl _
  | cons c shown ih =>
    rw [Lexer.symbolWindow]
    split
    · rename_i hc
      obtain ⟨hsome, hchar⟩ := (Bool.and_eq_true _ _).mp hc
      have hmore : 0 < more := Nat.lt_of_lt_of_le (of_decide_eq_true hsome) hroom
      simp only [Lexer.symbolWindow, hmore, h.isSymbolChar c hchar, decide_true, Bool.and_self,
        if_true]
      exact (List.prefix_cons_inj c).mpr (ih (Nat.sub_le_sub_right hroom c.utf8Size))
    · exact List.nil_prefix

/-- Where no symbol is in front, the error shows at least as much of the text. -/
theorem widens_symbolError {c : Char} {rest : List Char} (h : g.ExtendsOn next (c :: rest))
    (hnext : next.Consistent) :
    (Lexer.symbolError g c rest).Widens (Lexer.symbolError next c rest) := by
  by_cases hc : g.isSymbolChar c = true
  · obtain ⟨more, hmore⟩ := h.symbolWindow_isPrefix h.maxSymbolLength (c :: rest)
    rw [Lexer.symbolError, Lexer.symbolError, if_pos hc, if_pos (h.isSymbolChar c hc), ← hmore,
      String.ofList_append]
    exact .invalidToken _ _
  · rw [Lexer.symbolError, if_neg hc, Lexer.symbolError]
    split
    · rename_i hother
      rw [Lexer.symbolWindow_cons hnext hother]
      exact .symbolChar c _
    · exact .unexpectedCharacter c

end Grammar.ExtendsOn

/-! ### The same tokens -/

/-- Whether a run stands for another one: it has the same tokens, and it ends at the end of the text
as the other one does, or at the same place with an error that may show more. -/
structure LexerRun.Widens (outcome wider : LexerRun) : Prop where
  tokens : wider.tokens = outcome.tokens
  failure : Option.Rel LexError.Widens outcome.failure wider.failure
  rest : wider.rest = outcome.rest

namespace Lexer

variable {g next : Grammar} {text : List Char} {outcome : LexerRun}

/-- Numerals and identifiers do not depend on the symbols, and the longest symbol is the same one. -/
theorem cutToken_agree (hg : g.Consistent) (hnext : next.Consistent) {c : Char} {rest : List Char}
    (h : g.ExtendsOn next (c :: rest)) :
    Agree LexError.Widens (cutToken g c rest) (cutToken next c rest) := by
  by_cases hnumber : startsNumber c rest = true
  · rw [cutToken, cutToken, if_pos hnumber, if_pos hnumber]
    exact .refl .refl _
  · by_cases hname : Grammar.isNameStart c = true
    · rw [cutToken, cutToken, if_neg hnumber, if_neg hnumber, if_pos hname, if_pos hname]
      exact .refl .refl _
    · have hnumber : startsNumber c rest = false := Bool.eq_false_iff.mpr hnumber
      have hname : Grammar.isNameStart c = false := Bool.eq_false_iff.mpr hname
      rw [cutToken_eq_of_punctuation hg hnumber hname, cutToken_eq_of_punctuation hnext hnumber hname,
        h.longestSymbol_eq]
      cases longestSymbol g (c :: rest) (c :: rest).length with
      | none => exact .error (h.widens_symbolError hnext)
      | some found => exact .ok _

/-- The run under the extending grammar cuts off token by token what the other one does. -/
theorem Runs.exists_widens (hg : g.Consistent) (hnext : next.Consistent) (h : Runs g text outcome)
    (hextends : g.ExtendsOn next text) : ∃ wider, Runs next text wider ∧ outcome.Widens wider := by
  induction h with
  | ended hblanks => exact ⟨_, .ended hblanks, rfl, .none, rfl⟩
  | @failed blanks rest c error hblanks hc hcut =>
    have hagree := cutToken_agree hg hnext (hextends.suffix (List.suffix_append blanks (c :: rest)))
    rw [hcut] at hagree
    obtain ⟨wider, hwidens, hwider⟩ := hagree.exists_of_error
    exact ⟨_, .failed hblanks hc hwider, rfl, .some hwidens, rfl⟩
  | @token blanks rest left c token outcome hblanks hc hcut hrest ih =>
    have hsuffix : c :: rest <:+ blanks ++ c :: rest := List.suffix_append blanks (c :: rest)
    have hagree := cutToken_agree hg hnext (hextends.suffix hsuffix)
    rw [hcut] at hagree
    have hleft : left <:+ c :: rest :=
      ⟨token.text.toList, (cuts_of_cutToken_eq_ok hcut).append_eq⟩
    obtain ⟨wider, hothers, hwidens⟩ := ih (hextends.suffix (hleft.trans hsuffix))
    refine ⟨_, .token hblanks hc hagree.eq_of_ok hothers, ?_, hwidens.failure, hwidens.rest⟩
    exact congrArg (token :: ·) hwidens.tokens

theorem run_widens (hg : g.Consistent) (hnext : next.Consistent) (h : g.ExtendsOn next text) :
    (run g (.reading text)).Widens (run next (.reading text)) := by
  obtain ⟨wider, hwider, hwidens⟩ := (runs_run g text).exists_widens hg hnext h
  rwa [hwider.run_eq]

section Functions

variable (functions : Std.ExtTreeMap String NamedFunction)

theorem symbolWindow_functions (g : Grammar) (room : Nat) (text : List Char) :
    symbolWindow { g with functions } room text = symbolWindow g room text := by
  induction text generalizing room with
  | nil => rfl
  | cons c rest ih =>
    simp only [symbolWindow, ih]
    rfl

/-- Functions do not take part in cutting a text. -/
theorem cutToken_functions (g : Grammar) (c : Char) (rest : List Char) :
    cutToken { g with functions } c rest = cutToken g c rest := by
  have hlongest (window : List Char) (bound : Nat) :
      longestSymbol { g with functions } window bound = longestSymbol g window bound :=
    longestSymbol_congr fun _ _ ↦ rfl
  simp only [cutToken, cutSymbol, symbolWindow_functions, hlongest]
  rfl

theorem Runs.withFunctions (h : Runs g text outcome) : Runs { g with functions } text outcome := by
  induction h with
  | ended hblanks => exact .ended hblanks
  | failed hblanks hc hcut =>
    exact .failed hblanks hc ((cutToken_functions functions g _ _).trans hcut)
  | token hblanks hc hcut hrest ih =>
    exact .token hblanks hc ((cutToken_functions functions g _ _).trans hcut) ih

theorem run_functions (g : Grammar) (text : List Char) :
    run { g with functions } (.reading text) = run g (.reading text) :=
  ((runs_run g text).withFunctions functions).run_eq

end Functions

end Lexer

/-! ### The same assembly -/

/-- Whether a token means the same under two grammars. -/
structure Token.MeansSame (g next : Grammar) (token : Token) : Prop where
  function? : token.kind = .identifier → next.function? token.text = g.function? token.text
  operator? : token.kind = .operator → next.operator? token.text = g.operator? token.text

namespace Assembly

variable {g next : Grammar}

theorem take_eq_of_meansSame {token : Token} (h : token.MeansSame g next) (input : String)
    (assembly : Assembly) : assembly.take next input token = assembly.take g input token := by
  obtain ⟨kind, text⟩ := token
  cases kind with
  | identifier => simp only [take, h.function? rfl]
  | operator => simp only [take, h.operator? rfl]
  | number => rfl
  | openParen => rfl
  | closeParen => rfl
  | comma => rfl

theorem foldlM_take_eq_of_meansSame {tokens : List Token}
    (h : ∀ token ∈ tokens, token.MeansSame g next) (input : String) (assembly : Assembly) :
    tokens.foldlM (take next input) assembly = tokens.foldlM (take g input) assembly := by
  induction tokens generalizing assembly with
  | nil => rfl
  | cons token tokens ih =>
    have hothers := ih fun other hother ↦ h other (List.mem_cons_of_mem token hother)
    simp only [List.foldlM_cons, take_eq_of_meansSame (h token List.mem_cons_self), hothers]

end Assembly

namespace Grammar

variable {g next : Grammar} {text : String}

/-- Texts are compiled alike where the tokens are the same and mean the same. -/
theorem compile_agree
    (hrun : (Lexer.run g (.ofText text)).Widens (Lexer.run next (.ofText text)))
    (hmeans : ∀ token ∈ (Lexer.run g (.ofText text)).tokens, token.MeansSame g next) :
    Agree CompileError.Widens (g.compile text) (next.compile text) := by
  rw [compile, compile, hrun.tokens, Assembly.foldlM_take_eq_of_meansSame hmeans]
  refine (Agree.refl .refl _).bind fun assembly ↦ ?_
  have hfailure := hrun.failure
  revert hfailure
  cases (Lexer.run g (.ofText text)).failure <;> cases (Lexer.run next (.ofText text)).failure
  · exact fun _ ↦ .refl .refl _
  · rintro ⟨⟩
  · rintro ⟨⟩
  · rintro ⟨h⟩
    exact .error (.lex h)

theorem build_agree
    (hrun : (Lexer.run g (.ofText text)).Widens (Lexer.run next (.ofText text)))
    (hmeans : ∀ token ∈ (Lexer.run g (.ofText text)).tokens, token.MeansSame g next)
    (supply : Supply) : Agree CompileError.Widens (Compiler.build g supply text)
      (Compiler.build next supply text) :=
  (compile_agree hrun hmeans).bind fun _ ↦ .ok _

theorem build_eq (hrun : Lexer.run next (.ofText text) = Lexer.run g (.ofText text))
    (hmeans : ∀ token ∈ (Lexer.run g (.ofText text)).tokens, token.MeansSame g next)
    (supply : Supply) : Compiler.build next supply text = Compiler.build g supply text := by
  have hcompile : next.compile text = g.compile text := by
    rw [compile, compile, hrun, Assembly.foldlM_take_eq_of_meansSame hmeans]
  rw [Compiler.build, Compiler.build, hcompile]

/-! ### Registrations and removals -/

/-- An operator means the same to the tokens of every text that its symbol does not occur in. -/
theorem meansSame_insertOperator (hg : g.Consistent) {o : Operator}
    (h : ¬ o.symbol.toList <:+: text.toList) :
    ∀ token ∈ (Lexer.run g (.ofText text)).tokens, token.MeansSame g (g.insertOperator o) := by
  intro token htoken
  obtain ⟨blanks, -, hdivided⟩ := ((Lexer.runs_run g text.toList).divides hg).divided
  exact {
    function? := fun _ ↦ function?_insertSymbol g o.symbol token.text (.operator o)
    operator? := fun _ ↦
      (ExtendsOn.insertOperator g h).operator? (hdivided.isInfix token htoken) }

end Grammar

/-- Whether a name is one of the identifiers that a text was cut into. -/
def LexerRun.Mentions (outcome : LexerRun) (name : String) : Prop :=
  ∃ token ∈ outcome.tokens, token.kind = .identifier ∧ token.text = name

instance (outcome : LexerRun) (name : String) : Decidable (outcome.Mentions name) :=
  inferInstanceAs (Decidable (∃ token ∈ outcome.tokens, token.kind = .identifier ∧ token.text = name))

theorem LexerRun.meansSame_functions {g : Grammar} {outcome : LexerRun} {name : String}
    (h : ¬ outcome.Mentions name) {functions : Std.ExtTreeMap String NamedFunction}
    (hsame : ∀ other ≠ name, functions[other]? = g.functions[other]?) :
    ∀ token ∈ outcome.tokens, token.MeansSame g { g with functions } :=
  fun token htoken ↦ {
    function? := fun hkind ↦ hsame token.text fun hname ↦ h ⟨token, htoken, hkind, hname⟩
    operator? := fun _ ↦ rfl }

namespace Grammar

/-- Assumes: a reachable grammar. An operator that is registered leaves a text alone that its symbol
does not occur in: the text is cut into the same tokens, and it ends, or an error is met, at the same
place; it compiles to the same expression or to the same error, except that an error of cutting may
show more. Registering or removing a function leaves everything as it was with a text that does not
mention the name. -/
theorem Reachable.build_of_extension {g : Grammar} (hg : g.Reachable) (text : String) :
    (∀ o next, g.registerOperator o = .ok next → ¬ o.symbol.toList <:+: text.toList →
      (Lexer.run g (.ofText text)).Widens (Lexer.run next (.ofText text)) ∧
      ∀ supply, Agree CompileError.Widens (Compiler.build g supply text)
        (Compiler.build next supply text)) ∧
    (∀ f next, g.registerFunction f = .ok next →
      ¬ (Lexer.run g (.ofText text)).Mentions f.name →
      Lexer.run next (.ofText text) = Lexer.run g (.ofText text) ∧
      ∀ supply, Compiler.build next supply text = Compiler.build g supply text) ∧
    (∀ name, ¬ (Lexer.run g (.ofText text)).Mentions name →
      Lexer.run (g.removeFunction name) (.ofText text) = Lexer.run g (.ofText text) ∧
      ∀ supply, Compiler.build (g.removeFunction name) supply text =
        Compiler.build g supply text) := by
  refine ⟨fun o next hnext habsent ↦ ?_, fun f next hnext habsent ↦ ?_, fun name habsent ↦ ?_⟩
  · have hconsistent := hg.consistent.registerOperator hnext
    obtain ⟨-, -, rfl⟩ := registerOperator_eq_ok_iff.mp hnext
    have hrun := Lexer.run_widens hg.consistent hconsistent (ExtendsOn.insertOperator g habsent)
    exact ⟨hrun, build_agree hrun (meansSame_insertOperator hg.consistent habsent)⟩
  · obtain ⟨-, rfl⟩ := registerFunction_eq_ok_iff.mp hnext
    have hrun := Lexer.run_functions (g.functions.insert f.name f) g text.toList
    have hother (other : String) (hne : other ≠ f.name) :
        (g.insertFunction f).function? other = g.function? other := by
      rw [function?_insertFunction, if_neg hne.symm]
    exact ⟨hrun, build_eq hrun (LexerRun.meansSame_functions habsent hother)⟩
  · have hrun := Lexer.run_functions (g.functions.erase name) g text.toList
    have hother (other : String) (hne : other ≠ name) :
        (g.removeFunction name).function? other = g.function? other := by
      rw [function?_removeFunction, if_neg hne.symm]
    exact ⟨hrun, build_eq hrun (LexerRun.meansSame_functions habsent hother)⟩

/-- The operator that tells whether a number is at most another one. -/
def atMost : Operator := ⟨"<=", 1, .left, fun x y ↦ if x ≤ y then 1 else 0⟩

/-- A function of one argument that the standard grammar does not know. -/
def square : NamedFunction := ⟨"square", 1, .unary fun x ↦ x * x⟩

/-- In `atan2(x, 1) < y` a character that starts no token comes to occur in a symbol. -/
theorem build_of_extension_atMost :
    standard.Reachable ∧
    standard.registerOperator atMost = .ok (standard.insertOperator atMost) ∧
    ¬ atMost.symbol.toList <:+: "atan2(x, 1) < y".toList ∧
    (Lexer.run standard (.ofText "atan2(x, 1) < y")).Widens
      (Lexer.run (standard.insertOperator atMost) (.ofText "atan2(x, 1) < y")) ∧
    (Lexer.run standard (.ofText "atan2(x, 1) < y")).failure = some (.unexpectedCharacter '<') ∧
    (Lexer.run (standard.insertOperator atMost) (.ofText "atan2(x, 1) < y")).failure =
      some (.invalidToken "<") ∧
    standard.registerFunction square = .ok (standard.insertFunction square) ∧
    ¬ (Lexer.run standard (.ofText "atan2(x, 1) < y")).Mentions square.name ∧
    Lexer.run (standard.insertFunction square) (.ofText "atan2(x, 1) < y") =
      Lexer.run standard (.ofText "atan2(x, 1) < y") ∧
    ¬ (Lexer.run standard (.ofText "atan2(x, 1) < y")).Mentions "sin" ∧
    Compiler.build (standard.removeFunction "sin") .full "atan2(x, 1) < y" =
      Compiler.build standard .full "atan2(x, 1) < y" := by
  obtain ⟨hoperator, hfunction, hremoval⟩ :=
    Reachable.build_of_extension .standard "atan2(x, 1) < y"
  have hregister : standard.registerOperator atMost = .ok (standard.insertOperator atMost) :=
    if_pos (by decide +kernel)
  have habsent : ¬ atMost.symbol.toList <:+: "atan2(x, 1) < y".toList := by decide +kernel
  have hcharacter : (Lexer.run standard (.ofText "atan2(x, 1) < y")).failure =
      some (.unexpectedCharacter '<') := by decide +kernel
  have htoken : (Lexer.run (standard.insertOperator atMost) (.ofText "atan2(x, 1) < y")).failure =
      some (.invalidToken "<") := by decide +kernel
  have hname : standard.registerFunction square = .ok (standard.insertFunction square) :=
    if_pos (by decide +kernel)
  have hsquare : ¬ (Lexer.run standard (.ofText "atan2(x, 1) < y")).Mentions square.name := by
    decide +kernel
  have hsin : ¬ (Lexer.run standard (.ofText "atan2(x, 1) < y")).Mentions "sin" := by
    decide +kernel
  exact ⟨.standard, hregister, habsent, (hoperator _ _ hregister habsent).1, hcharacter, htoken,
    hname, hsquare, (hfunction _ _ hname hsquare).1, hsin, (hremoval _ hsin).2 .full⟩

end Grammar

end Formulary
