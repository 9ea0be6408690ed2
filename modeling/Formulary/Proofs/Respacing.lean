import Formulary.Compiler
import Formulary.Proofs.Assembly
import Formulary.Proofs.Lookahead

/-!
# The same tokens with other whitespace

A formula is assembled from its tokens, and its text is used only to be quoted by some errors
(`CompileError.quoting`). So two texts that are cut into the same tokens compile to the same arena,
or to errors that differ at most by the text that they quote (`Grammar.compile_of_run_eq`).

Main statement: a lexer divides every text into tokens and whitespace. When it meets no error, each
text that has the same tokens with whitespace between them is cut into the same tokens, whatever the
whitespace, and so it is compiled alike.
-/

set_option autoImplicit false
set_option relaxedAutoImplicit false

namespace Formulary

/-! ### Errors that quote the text -/

/-- The error that another text has for the same reason: it quotes that text. -/
def CompileError.quoting (input : String) : CompileError → CompileError
  | .mismatchedParenthesis _ => .mismatchedParenthesis input
  | .misplacedComma _ => .misplacedComma input
  | error => error

theorem mapError_bind {ε ε' α β : Type} (f : ε → ε') (x : Except ε α) (k : α → Except ε β) :
    (x >>= k).mapError f = x.mapError f >>= fun a ↦ (k a).mapError f := by
  cases x <;> rfl

theorem Forest.mapError_apply (forest : Forest) (operation : Operation) (other : String) :
    (forest.apply operation).mapError (.quoting other) = forest.apply operation := by
  rw [apply]
  split <;> rfl

namespace Assembly

variable (assembly : Assembly) (input other : String)

theorem mapError_reduceWhile (due : Pending → Option Operation) (forest : Forest)
    (pending : List Pending) :
    (reduceWhile due forest pending).mapError (.quoting other) = reduceWhile due forest pending := by
  induction pending generalizing forest with
  | nil => rfl
  | cons waiting others ih =>
    rw [reduceWhile]
    cases due waiting with
    | none => rfl
    | some operation => simp only [mapError_bind, Forest.mapError_apply, ih]

theorem mapError_reduceGroup :
    assembly.reduceGroup.mapError (.quoting other) = assembly.reduceGroup :=
  mapError_reduceWhile other _ _ _

theorem mapError_applyFunction :
    assembly.applyFunction.mapError (.quoting other) = assembly.applyFunction := by
  rw [applyFunction]
  split
  · rw [mapError_bind, Forest.mapError_apply]
    rfl
  · rfl

theorem mapError_takeOperator (o : Operator) :
    (assembly.takeOperator o).mapError (.quoting other) = assembly.takeOperator o := by
  rw [takeOperator, mapError_bind, mapError_reduceWhile]
  rfl

theorem mapError_takeComma :
    (assembly.takeComma input).mapError (.quoting other) = assembly.takeComma other := by
  rw [takeComma, mapError_bind, mapError_reduceGroup]
  refine congrArg (assembly.reduceGroup >>= ·) (funext fun reduced ↦ ?_)
  cases reduced.pending <;> rfl

theorem mapError_takeCloseParen :
    (assembly.takeCloseParen input).mapError (.quoting other) = assembly.takeCloseParen other := by
  rw [takeCloseParen, mapError_bind, mapError_reduceGroup]
  refine congrArg (assembly.reduceGroup >>= ·) (funext fun reduced ↦ ?_)
  cases reduced.pending with
  | nil => rfl
  | cons waiting others => exact mapError_applyFunction _ other

/-- A token is taken alike, whatever the text that an error would quote. -/
theorem mapError_take (g : Grammar) (token : Token) :
    (assembly.take g input token).mapError (.quoting other) = assembly.take g other token := by
  obtain ⟨kind, text⟩ := token
  cases kind with
  | number =>
    simp only [take]
    cases Numeral.value? text <;> rfl
  | identifier =>
    simp only [take]
    cases g.function? text <;> rfl
  | operator =>
    simp only [take]
    cases g.operator? text with
    | none => rfl
    | some o => exact mapError_takeOperator assembly other o
  | openParen => rfl
  | closeParen => exact mapError_takeCloseParen assembly input other
  | comma => exact mapError_takeComma assembly input other

theorem mapError_foldlM_take (g : Grammar) (tokens : List Token) :
    (tokens.foldlM (take g input) assembly).mapError (.quoting other) =
      tokens.foldlM (take g other) assembly := by
  induction tokens generalizing assembly with
  | nil => rfl
  | cons token tokens ih => simp only [List.foldlM_cons, mapError_bind, mapError_take, ih]

theorem mapError_finish :
    (assembly.finish input).mapError (.quoting other) = assembly.finish other := by
  rw [finish, mapError_bind, mapError_reduceGroup]
  refine congrArg (assembly.reduceGroup >>= ·) (funext fun reduced ↦ ?_)
  cases reduced.pending with
  | cons waiting others => rfl
  | nil =>
    rcases reduced.forest.roots with _ | ⟨root, _ | ⟨second, roots⟩⟩ <;> rfl

end Assembly

/-- Texts that are cut into the same tokens compile alike. -/
theorem Grammar.compile_of_run_eq {g : Grammar} {text other : String}
    (h : Lexer.run g (.ofText other) = Lexer.run g (.ofText text)) :
    g.compile other = (g.compile text).mapError (.quoting other) := by
  rw [compile, compile, h]
  simp only [mapError_bind, Assembly.mapError_foldlM_take]
  refine congrArg (_ >>= ·) (funext fun assembly ↦ ?_)
  cases (Lexer.run g (.ofText text)).failure with
  | none => exact (assembly.mapError_finish text other).symm
  | some error => rfl

/-! ### Texts of the same tokens -/

/-- Assumes: a reachable grammar. Its lexer divides a text into tokens and whitespace, and meets an
error at most at its end. If there is none, every text of these tokens with whitespace between them,
and any whitespace around them, is cut into the same tokens, and it compiles to the same expression
or to the same error, which quotes the other text if it quotes any. -/
theorem Grammar.Reachable.divides_and_build_of_spaced {g : Grammar} (hg : g.Reachable)
    (text : String) :
    Lexer.Divides text.toList (Lexer.run g (.ofText text)) ∧
    ((Lexer.run g (.ofText text)).failure = none → ∀ other : String,
      Spaced (Lexer.run g (.ofText text)).tokens other.toList →
        Lexer.run g (.ofText other) = Lexer.run g (.ofText text) ∧
        ∀ supply, Compiler.build g supply other =
          (Compiler.build g supply text).mapError (.quoting other)) := by
  have hruns := Lexer.runs_run g text.toList
  refine ⟨hruns.divides hg.consistent, fun hnone other hspaced ↦ ?_⟩
  have hsame : Lexer.run g (.ofText other) = Lexer.run g (.ofText text) := by
    have hother := Lexer.run_of_spaced hspaced (hruns.stands hg.consistent)
    exact hother.trans (hruns.eq_of_failure_eq_none hnone).symm
  refine ⟨hsame, fun supply ↦ ?_⟩
  rw [Compiler.build, Compiler.build, mapError_bind, compile_of_run_eq hsame]
  rfl

/-- A text without whitespace, whose last comma stands outside of all parentheses, and the text with
a blank before each token. -/
theorem Grammar.divides_and_build_of_spaced_call :
    Grammar.standard.Reachable ∧
    (Lexer.run .standard (.ofText "atan2(x,-2e3)+-y,")).failure = none ∧
    Spaced (Lexer.run .standard (.ofText "atan2(x,-2e3)+-y,")).tokens
      " atan2 ( x , -2e3 ) + - y ,".toList ∧
    Lexer.Divides "atan2(x,-2e3)+-y,".toList
      (Lexer.run .standard (.ofText "atan2(x,-2e3)+-y,")) ∧
    Compiler.build .standard .full " atan2 ( x , -2e3 ) + - y ," =
      (Compiler.build .standard .full "atan2(x,-2e3)+-y,").mapError
        (.quoting " atan2 ( x , -2e3 ) + - y ,") := by
  have hnone : (Lexer.run .standard (.ofText "atan2(x,-2e3)+-y,")).failure = none := by
    decide +kernel
  have htext : (Lexer.run .standard (.ofText "atan2(x,-2e3)+-y,")).tokens.flatMap
      (fun token ↦ ' ' :: token.text.toList) = " atan2 ( x , -2e3 ) + - y ,".toList := by
    decide +kernel
  have hspaced := spaced_flatMap (Lexer.run .standard (.ofText "atan2(x,-2e3)+-y,")).tokens
  rw [htext] at hspaced
  obtain ⟨hdivides, hrespaced⟩ :=
    Grammar.Reachable.divides_and_build_of_spaced .standard "atan2(x,-2e3)+-y,"
  exact ⟨.standard, hnone, hspaced, hdivides, (hrespaced hnone _ hspaced).2 .full⟩

end Formulary
