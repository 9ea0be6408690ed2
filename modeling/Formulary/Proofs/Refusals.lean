import Formulary.Proofs.Balance

/-!
# Why a formula is refused

What an assembly can do with a token that it takes is listed by `Assembly.Takes`. Beside it stands
the list of the reasons for which it refuses one, each with its error (`Assembly.Refuses`), and from
both the reasons why a text does not compile (`Grammar.Refusal`).

Main statement: errors about parentheses are right, and no text with a parenthesis or comma out of
place compiles. No assembly counts how deep it is. But the parentheses that wait are those that are
open in the tokens read (`Assembly.Takes.depth`), and what waits between them has been carried out
when one of these errors is given.
-/

set_option autoImplicit false
set_option relaxedAutoImplicit false

namespace Formulary

/-- A computation in two steps fails when one of its steps does. -/
theorem exists_of_bind_eq_error {ε α β : Type} {x : Except ε α} {f : α → Except ε β} {error : ε}
    (h : x >>= f = .error error) : x = .error error ∨ ∃ a, x = .ok a ∧ f a = .error error := by
  cases x with
  | error other =>
    cases h
    exact Or.inl rfl
  | ok a => exact Or.inr ⟨a, rfl, h⟩

/-- The error of a computation that fails. -/
def failure? {ε α : Type} : Except ε α → Option ε
  | .error error => some error
  | .ok _ => none

theorem eq_error_of_failure? {ε α : Type} {x : Except ε α} {error : ε}
    (h : failure? x = some error) : x = .error error := by
  cases x with
  | error other => exact congrArg Except.error (Option.some.inj h)
  | ok a => cases h

/-- The error of an operation that asks for more operands than there are. -/
inductive CompileError.LacksOperands : CompileError → Prop
  | intro {operation : Operation} {available : Nat} (hfew : available < operation.arity) :
    LacksOperands (.missingOperands operation.label operation.arity available)

theorem Forest.lacksOperands_of_apply_eq_error {forest : Forest} {operation : Operation}
    {error : CompileError} (h : forest.apply operation = .error error) : error.LacksOperands := by
  obtain ⟨hfew, rfl⟩ := (apply_eq_error_iff forest operation error).mp h
  exact .intro hfew

namespace Assembly

/-! ### Refusing a token -/

/-- Carrying out what waits fails only when operands are missing. -/
theorem lacksOperands_of_reduceWhile_eq_error {due : Pending → Option Operation} {forest : Forest}
    {pending : List Pending} {error : CompileError}
    (h : reduceWhile due forest pending = .error error) : error.LacksOperands := by
  induction pending generalizing forest with
  | nil => cases h
  | cons waiting others ih =>
    rw [reduceWhile] at h
    cases hdue : due waiting with
    | none =>
      rw [hdue] at h
      cases h
    | some operation =>
      rw [hdue] at h
      rcases exists_of_bind_eq_error h with happly | ⟨next, -, hrest⟩
      · exact Forest.lacksOperands_of_apply_eq_error happly
      · exact ih hrest

/-- Why an assembly refuses a token of the formula `input`, and the error that it gives. -/
inductive Refuses (g : Grammar) (input : String) (assembly : Assembly) :
    Token → CompileError → Prop
  /-- A number has no value. -/
  | invalidNumber {text : String} (hvalue : Numeral.value? text = none) :
    Refuses g input assembly ⟨.number, text⟩ (.invalidNumber text)
  /-- An operator is not registered. -/
  | unknownOperator {symbol : String} (hsymbol : g.operator? symbol = none) :
    Refuses g input assembly ⟨.operator, symbol⟩ (.unknownOperator symbol)
  /-- Something is carried out, and its operands are missing. -/
  | missingOperands {token : Token} {error : CompileError} (h : error.LacksOperands) :
    Refuses g input assembly token error
  /-- Everything is carried out, and no parenthesis is open around a comma. -/
  | misplacedComma {text : String} {forest : Forest}
    (hreduced : assembly.reduceGroup = .ok ⟨forest, []⟩) :
    Refuses g input assembly ⟨.comma, text⟩ (.misplacedComma input)
  /-- Everything is carried out, and there is no parenthesis to close. -/
  | mismatchedParenthesis {text : String} {forest : Forest}
    (hreduced : assembly.reduceGroup = .ok ⟨forest, []⟩) :
    Refuses g input assembly ⟨.closeParen, text⟩ (.mismatchedParenthesis input)

section Refusing

variable {g : Grammar} {input text : String} {assembly : Assembly} {error : CompileError}

theorem refuses_of_takeComma_eq_error (h : assembly.takeComma input = .error error) :
    Refuses g input assembly ⟨.comma, text⟩ error := by
  rcases exists_of_bind_eq_error h with hreduced | ⟨⟨forest, pending⟩, hreduced, hrest⟩
  · exact .missingOperands (lacksOperands_of_reduceWhile_eq_error hreduced)
  · cases pending with
    | nil =>
      cases hrest
      exact .misplacedComma hreduced
    | cons waiting others => cases hrest

theorem refuses_of_takeCloseParen_eq_error (h : assembly.takeCloseParen input = .error error) :
    Refuses g input assembly ⟨.closeParen, text⟩ error := by
  rcases exists_of_bind_eq_error h with hreduced | ⟨⟨forest, pending⟩, hreduced, hrest⟩
  · exact .missingOperands (lacksOperands_of_reduceWhile_eq_error hreduced)
  · rcases pending with _ | ⟨waiting, _ | ⟨_ | f | _, others⟩⟩
    · cases hrest
      exact .mismatchedParenthesis hreduced
    · cases hrest
    · cases hrest
    · rcases exists_of_bind_eq_error hrest with happly | ⟨applied, -, hsame⟩
      · exact .missingOperands (Forest.lacksOperands_of_apply_eq_error happly)
      · cases hsame
    · cases hrest

/-- An assembly refuses a token for one of the listed reasons. -/
theorem refuses_of_take_eq_error {token : Token} (h : assembly.take g input token = .error error) :
    Refuses g input assembly token error := by
  obtain ⟨kind, text⟩ := token
  cases kind with
  | number =>
    simp only [take] at h
    split at h
    · rename_i hvalue
      cases h
      exact .invalidNumber hvalue
    · cases h
  | identifier =>
    simp only [take] at h
    split at h <;> cases h
  | operator =>
    simp only [take] at h
    split at h
    · rename_i hsymbol
      cases h
      exact .unknownOperator hsymbol
    · rcases exists_of_bind_eq_error h with hreduced | ⟨reduced, -, hsame⟩
      · exact .missingOperands (lacksOperands_of_reduceWhile_eq_error hreduced)
      · cases hsame
  | openParen => cases h
  | closeParen => exact refuses_of_takeCloseParen_eq_error h
  | comma => exact refuses_of_takeComma_eq_error h

/-- When a list of tokens is not taken, one of them is refused, and those before it are taken. -/
theorem exists_of_foldlM_eq_error {tokens : List Token}
    (h : tokens.foldlM (take g input) assembly = .error error) :
    ∃ before token behind reached, tokens = before ++ token :: behind ∧
      before.foldlM (take g input) assembly = .ok reached ∧
      Refuses g input reached token error := by
  induction tokens generalizing assembly with
  | nil => cases h
  | cons token tokens ih =>
    rcases exists_of_bind_eq_error h with htake | ⟨next, htake, hrest⟩
    · exact ⟨[], token, tokens, assembly, rfl, rfl, refuses_of_take_eq_error htake⟩
    · obtain ⟨before, refused, behind, reached, rfl, hread, hrefuses⟩ := ih hrest
      refine ⟨token :: before, refused, behind, reached, rfl, ?_, hrefuses⟩
      rw [List.foldlM_cons, htake]
      exact hread

end Refusing

end Assembly

/-! ### Refusing a text -/

/-- Why a text does not compile, and the error that it gives. -/
inductive Grammar.Refusal (g : Grammar) (input : String) : CompileError → Prop
  /-- One of its tokens is refused. -/
  | token {before behind : List Token} {token : Token} {reached : Assembly} {error : CompileError}
    (htokens : g.tokens input = before ++ token :: behind)
    (hread : before.foldlM (Assembly.take g input) .empty = .ok reached)
    (hrefuses : reached.Refuses g input token error) : Refusal g input error
  /-- It cannot be cut into tokens. -/
  | lex {error : LexError} (hfailure : (Lexer.run g (.ofText input)).failure = some error) :
    Refusal g input (.lex error)
  /-- At its end, something is carried out and its operands are missing. -/
  | missingOperands {error : CompileError} (h : error.LacksOperands) : Refusal g input error
  /-- At its end, a parenthesis is still open. -/
  | openParen {assembly : Assembly} {forest : Forest} {others : List Pending}
    (hfailure : (Lexer.run g (.ofText input)).failure = none)
    (hread : (g.tokens input).foldlM (Assembly.take g input) .empty = .ok assembly)
    (hreduced : assembly.reduceGroup = .ok ⟨forest, .openParen :: others⟩) :
    Refusal g input (.mismatchedParenthesis input)
  /-- At its end, there is not one tree. -/
  | leftoverOperands {assembly : Assembly} {forest : Forest}
    (hread : (g.tokens input).foldlM (Assembly.take g input) .empty = .ok assembly)
    (hreduced : assembly.reduceGroup = .ok ⟨forest, []⟩) (hcount : forest.roots.length ≠ 1) :
    Refusal g input (.leftoverOperands forest.roots.length)

/-- A text does not compile for one of the listed reasons. -/
theorem Grammar.refusal_of_compile_eq_error {g : Grammar} {input : String} {error : CompileError}
    (h : g.compile input = .error error) : g.Refusal input error := by
  rcases exists_of_bind_eq_error h with hfold | ⟨assembly, hread, hrest⟩
  · obtain ⟨before, token, behind, reached, htokens, hread, hrefuses⟩ :=
      Assembly.exists_of_foldlM_eq_error hfold
    exact .token htokens hread hrefuses
  · cases hfailure : (Lexer.run g (.ofText input)).failure with
    | some lexical =>
      rw [hfailure] at hrest
      cases hrest
      exact .lex hfailure
    | none =>
      rw [hfailure] at hrest
      have hfinish : assembly.finish input = .error error := hrest
      rcases exists_of_bind_eq_error hfinish with hreduced | ⟨⟨forest, pending⟩, hreduced, hlast⟩
      · exact .missingOperands (Assembly.lacksOperands_of_reduceWhile_eq_error hreduced)
      · rcases Assembly.atStart_of_reduceGroup_eq_ok hreduced with hpending | ⟨others, hpending⟩
        · cases hpending
          obtain ⟨nodes, roots⟩ := forest
          rcases roots with _ | ⟨root, _ | ⟨second, roots⟩⟩
          · cases hlast
            exact .leftoverOperands hread hreduced Nat.zero_ne_one
          · cases hlast
          · cases hlast
            exact .leftoverOperands hread hreduced (by simp)
        · cases hpending
          cases hlast
          exact .openParen hfailure hread hreduced

/-! ### Depth -/

/-- How much deeper a text is behind a token than before it. -/
def TokenKind.descent : TokenKind → Int
  | .openParen => 1
  | .closeParen => -1
  | _ => 0

/-- How many parentheses the tokens open more than they close. -/
def depth (tokens : List Token) : Int := (tokens.map fun token ↦ token.kind.descent).sum

/-- Whether a token of the given kind occurs at the given depth. -/
def OccursAt (kind : TokenKind) (level : Int) (tokens : List Token) : Prop :=
  ∃ before token behind, tokens = before ++ token :: behind ∧ token.kind = kind ∧
    depth before = level

theorem depth_concat (tokens : List Token) (token : Token) :
    depth (tokens ++ [token]) = depth tokens + token.kind.descent := by
  rw [depth, List.map_append, List.sum_append, List.map_singleton, List.sum_singleton, depth]

namespace Assembly

variable {g : Grammar} {input : String} {assembly next : Assembly}

/-- With every token that is taken, as many parentheses are open more as the text is deeper. -/
theorem Takes.depth {token : Token} (h : Takes g assembly token next) :
    (next.depth : Int) = assembly.depth + token.kind.descent := by
  cases h with
  | literal hvalue => exact (Int.add_zero _).symm
  | reference hname => exact (Int.add_zero _).symm
  | function hname => exact (Int.add_zero _).symm
  | operator hsymbol hreduced =>
    rw [← depth_reduceWhile operation?_of_dueBefore hreduced]
    exact (Int.add_zero _).symm
  | openParen =>
    rw [wait, depth_openParen]
    rfl
  | comma hreduced =>
    rw [← depth_reduceGroup hreduced]
    exact (Int.add_zero _).symm
  | closeGroup hreduced hgroup =>
    rw [← depth_reduceGroup hreduced, depth_openParen]
    exact (Int.add_sub_cancel _ 1).symm
  | closeCall hreduced happly =>
    rw [← depth_reduceGroup hreduced, depth_openParen]
    exact (Int.add_sub_cancel _ 1).symm

/-- The parentheses that wait are those that are open in the tokens read. -/
theorem depth_eq_of_foldlM {tokens : List Token}
    (h : tokens.foldlM (take g input) .empty = .ok assembly) :
    (assembly.depth : Int) = Formulary.depth tokens :=
  keeps_of_foldlM_eq_ok (P := fun read assembly ↦ (assembly.depth : Int) = Formulary.depth read)
    (fun htakes hread ↦ by rw [htakes.depth, hread, depth_concat]) [] rfl h

theorem depth_eq_zero_of_reduceGroup {forest : Forest}
    (h : assembly.reduceGroup = .ok ⟨forest, []⟩) : assembly.depth = 0 :=
  (depth_reduceGroup h).symm

/-- A comma is taken only between parentheses. -/
theorem Takes.depth_pos_of_comma {token : Token} (h : Takes g assembly token next)
    (hkind : token.kind = .comma) : 0 < assembly.depth := by
  cases h with
  | comma hreduced =>
    rw [← depth_reduceGroup hreduced, depth_openParen]
    exact Nat.succ_pos _
  | _ => cases hkind

/-- A closing parenthesis is taken only where one is open. -/
theorem Takes.depth_pos_of_closeParen {token : Token} (h : Takes g assembly token next)
    (hkind : token.kind = .closeParen) : 0 < assembly.depth := by
  cases h with
  | closeGroup hreduced hgroup =>
    rw [← depth_reduceGroup hreduced, depth_openParen]
    exact Nat.succ_pos _
  | closeCall hreduced happly =>
    rw [← depth_reduceGroup hreduced, depth_openParen]
    exact Nat.succ_pos _
  | _ => cases hkind

/-- Of tokens that are taken, each is taken behind those before it. -/
theorem exists_takes_of_foldlM {before behind : List Token} {token : Token}
    (h : (before ++ token :: behind).foldlM (take g input) .empty = .ok assembly) :
    ∃ reached next, before.foldlM (take g input) .empty = .ok reached ∧
      Takes g reached token next := by
  rw [List.foldlM_append] at h
  obtain ⟨reached, hread, hrest⟩ := exists_of_bind_eq_ok h
  obtain ⟨next, htake, -⟩ := exists_of_bind_eq_ok hrest
  exact ⟨reached, next, hread, takes_of_take_eq_ok htake⟩

/-- In tokens that are taken, commas and closing parentheses stand between parentheses. -/
theorem pos_of_occursAt {tokens : List Token}
    (h : tokens.foldlM (take g input) .empty = .ok assembly) {kind : TokenKind}
    (hkind : kind = .comma ∨ kind = .closeParen) {level : Int}
    (hoccurs : OccursAt kind level tokens) : 0 < level := by
  obtain ⟨before, token, behind, rfl, rfl, rfl⟩ := hoccurs
  obtain ⟨reached, next, hread, htakes⟩ := exists_takes_of_foldlM h
  rw [← depth_eq_of_foldlM hread]
  rcases hkind with hkind | hkind
  · exact Int.natCast_pos.mpr (htakes.depth_pos_of_comma hkind)
  · exact Int.natCast_pos.mpr (htakes.depth_pos_of_closeParen hkind)

/-- Tokens that are taken never close more parentheses than they have opened. -/
theorem depth_nonneg_of_foldlM {before behind : List Token}
    (h : (before ++ behind).foldlM (take g input) .empty = .ok assembly) :
    0 ≤ Formulary.depth before := by
  rw [List.foldlM_append] at h
  obtain ⟨reached, hread, -⟩ := exists_of_bind_eq_ok h
  rw [← depth_eq_of_foldlM hread]
  exact Int.natCast_nonneg _

end Assembly

/-! ### Errors about parentheses -/

/-- Errors about parentheses quote the text. If one says that a parenthesis has no partner, a
closing parenthesis occurs at depth zero, or the text can be cut into tokens and ends at a greater
depth. If one says that a comma is misplaced, it occurs at depth zero, and no closing parenthesis
does before it. If the text compiles, it is nowhere at a negative depth, it ends at depth zero, and
its commas occur at greater depths. -/
theorem Grammar.depth_of_compile (g : Grammar) (text : String) :
    (∀ shown, g.compile text = .error (.mismatchedParenthesis shown) → shown = text ∧
      (OccursAt .closeParen 0 (g.tokens text) ∨
        (Lexer.run g (.ofText text)).failure = none ∧ 0 < depth (g.tokens text))) ∧
    (∀ shown, g.compile text = .error (.misplacedComma shown) → shown = text ∧
      ∃ before comma behind, g.tokens text = before ++ comma :: behind ∧ comma.kind = .comma ∧
        depth before = 0 ∧ ¬ OccursAt .closeParen 0 before) ∧
    (∀ arena, g.compile text = .ok arena →
      (∀ before behind, g.tokens text = before ++ behind → 0 ≤ depth before) ∧
      depth (g.tokens text) = 0 ∧
      ∀ level, OccursAt .comma level (g.tokens text) → 1 ≤ level) := by
  refine ⟨fun shown h ↦ ?_, fun shown h ↦ ?_, fun arena h ↦ ?_⟩
  · cases refusal_of_compile_eq_error h with
    | token htokens hread hrefuses =>
      cases hrefuses with
      | missingOperands h => cases h
      | mismatchedParenthesis hreduced =>
        refine ⟨rfl, Or.inl ⟨_, _, _, htokens, rfl, ?_⟩⟩
        rw [← Assembly.depth_eq_of_foldlM hread, Assembly.depth_eq_zero_of_reduceGroup hreduced]
        rfl
    | missingOperands h => cases h
    | openParen hfailure hread hreduced =>
      refine ⟨rfl, Or.inr ⟨hfailure, ?_⟩⟩
      rw [← Assembly.depth_eq_of_foldlM hread, ← Assembly.depth_reduceGroup hreduced,
        Assembly.depth_openParen]
      exact Int.natCast_pos.mpr (Nat.succ_pos _)
  · cases refusal_of_compile_eq_error h with
    | token htokens hread hrefuses =>
      cases hrefuses with
      | missingOperands h => cases h
      | misplacedComma hreduced =>
        refine ⟨rfl, _, _, _, htokens, rfl, ?_, fun hcloses ↦ ?_⟩
        · rw [← Assembly.depth_eq_of_foldlM hread, Assembly.depth_eq_zero_of_reduceGroup hreduced]
          rfl
        · exact Int.lt_irrefl 0 (Assembly.pos_of_occursAt hread (Or.inr rfl) hcloses)
    | missingOperands h => cases h
  · obtain ⟨-, assembly, hread, hfinish⟩ := exists_of_compile_eq_ok h
    have hreduced := Assembly.exists_of_finish_eq_ok hfinish
    have hread : (g.tokens text).foldlM (Assembly.take g text) .empty = .ok assembly := hread
    refine ⟨fun before behind hsplit ↦ ?_, ?_, fun level hcomma ↦ ?_⟩
    · rw [hsplit] at hread
      exact Assembly.depth_nonneg_of_foldlM hread
    · rw [← Assembly.depth_eq_of_foldlM hread, Assembly.depth_eq_zero_of_reduceGroup hreduced]
      rfl
    · exact Assembly.pos_of_occursAt hread (Or.inl rfl) hcomma

end Formulary
