import Formulary.Proofs.Scanning

/-!
# Calls until the end of a text and behind it

The calls of a scanner are related to those of a lexer: between two calls, the scanner has scanned
as much of the text as the lexer has cut (`Scanner.Reads`), and each call keeps this up and has the
same outcome (`Scanner.CallsLike`).

Main statement: a grammar that is built by registrations scans every text to its end
(`Grammar.Reachable.scanning_ends`). Each call ends, each token takes a character, and behind the
last token or the first error nothing more is handed out.
-/

set_option autoImplicit false
set_option relaxedAutoImplicit false

namespace Formulary

open Text

namespace Lexer

/-- The lexer behind a number of calls. -/
def afterCalls (g : Grammar) (lexer : Lexer) (calls : Nat) : Lexer :=
  (fun lexer ↦ (next g lexer).2)^[calls] lexer

/-- Where a lexer hands out no token, it is exhausted. -/
theorem next_snd_of_ne (g : Grammar) (lexer : Lexer)
    (h : ∀ token, (next g lexer).1 ≠ some (.ok token)) : (next g lexer).2 = .exhausted := by
  cases lexer with
  | exhausted => rfl
  | reading rest =>
    cases hskip : rest.dropWhile isWhitespace with
    | nil => simp only [next, hskip]
    | cons c left =>
      have hahead : (reading rest).ahead = c :: left := hskip
      cases hcut : cutToken g c left with
      | error error => rw [next_of_cutToken_eq_error hahead hcut]
      | ok cut =>
        rw [next_of_cutToken_eq_ok hahead hcut] at h
        exact (h cut.1 rfl).elim

theorem run_exhausted (g : Grammar) : run g .exhausted = ⟨[], none, [], .exhausted⟩ :=
  run_of_next_none rfl

/-- A token that is cut off is not empty. -/
theorem text_ne_of_cutToken {g : Grammar} {c : Char} {rest left : List Char} {token : Token}
    (h : cutToken g c rest = .ok (token, left)) : token.text ≠ "" := by
  intro hempty
  have hshorter := length_lt_of_cutToken h
  have htext := (cuts_of_cutToken_eq_ok h).append_eq
  rw [hempty, String.toList_empty, List.nil_append] at htext
  rw [htext] at hshorter
  exact Nat.lt_irrefl _ hshorter

/-- Tokens that are not empty are no more than the characters of the text. -/
theorem Divided.length_le {tokens : List Token} {rest text : List Char}
    (h : Divided tokens rest text) : tokens.length ≤ text.length := by
  induction h with
  | nil rest => exact Nat.zero_le _
  | cons hblanks hne hrest ih =>
    have hpos := List.length_pos_iff.mpr hne
    simp only [List.length_cons, List.length_append]
    omega

end Lexer

/-- The answers of calls: the tokens, the error if there is one, and then nothing, as often as it is
asked for. -/
def LexerRun.answers (run : LexerRun) (asked : Nat) : List (Except LexError (Option Token)) :=
  run.tokens.map (fun token ↦ .ok (some token)) ++ (run.failure.toList.map .error ++
    List.replicate asked (.ok none))

theorem LexerRun.answers_isPrefix (run : LexerRun) (asked : Nat) :
    run.answers asked <+: run.answers (asked + 1) := by
  have hmore : List.replicate asked (.ok none) <+:
      List.replicate (asked + 1) (.ok none : Except LexError (Option Token)) :=
    ⟨[.ok none], List.replicate_succ'.symm⟩
  exact (List.prefix_append_right_inj _).mpr ((List.prefix_append_right_inj _).mpr hmore)

namespace Scanner

/-- What an iterator hands out for the answer of a call. -/
def item : Except LexError (Option Token) → Option (Except LexError Token)
  | .ok none => none
  | .ok (some token) => some (.ok token)
  | .error error => some (.error error)

variable {g : Grammar} {text : String} {scanner behind : Scanner} {lexer : Lexer}
  {answers : List (Except LexError (Option Token))}

/-- Whether a scanner stands in a text: its positions are borders of characters in the text, and the
token does not start behind its end. -/
structure Placed (text : String) (scanner : Scanner) : Prop where
  start_le : scanner.start ≤ scanner.pos
  pos_le : scanner.pos ≤ text.rawEndPos
  start_valid : scanner.start.Valid text
  pos_valid : scanner.pos.Valid text

theorem At.placed {before token rest : List Char} (h : scanner.At text before token rest) :
    scanner.Placed text := by
  have hpos : scanner.pos.Valid text := by
    rw [h.pos_eq, h.text_eq]
    exact .mk (before ++ token) rest rfl
  have hstart : scanner.start.Valid text := by
    rw [h.start_eq, h.text_eq, List.append_assoc]
    exact .mk before (token ++ rest) rfl
  have hle : scanner.start ≤ scanner.pos := by
    rw [h.start_eq, h.pos_eq, String.utf8Len_append]
    exact Nat.le_add_right _ _
  exact ⟨hle, hpos.le_rawEndPos, hstart, hpos⟩

/-- Whether a scanner has moved over whitespace and over a token, which has at least one
character. -/
structure Consumes (text : String) (scanner behind : Scanner) (token : Token) : Prop where
  text_ne : token.text ≠ ""
  moved : ∃ before blanks left, (∀ c ∈ blanks, isWhitespace c = true) ∧
    text = String.ofList (before ++ blanks ++ token.text.toList ++ left) ∧
    scanner.pos = ⟨String.utf8Len before⟩ ∧
    behind.pos = ⟨String.utf8Len (before ++ blanks ++ token.text.toList)⟩
  start_eq : behind.start = behind.pos

theorem At.consumes {before blanks rest left : List Char} {token : Token}
    (h : scanner.At text before [] rest) (hblanks : ∀ c ∈ blanks, isWhitespace c = true)
    (hne : token.text ≠ "")
    (hbehind : behind.At text (before ++ blanks ++ token.text.toList) [] left) :
    scanner.Consumes text behind token := by
  refine ⟨hne, ⟨before, blanks, left, hblanks, ?_, ?_, ?_⟩, ?_⟩
  · rw [hbehind.text_eq, List.append_nil]
  · rw [h.pos_eq, List.append_nil]
  · rw [hbehind.pos_eq, List.append_nil]
  · rw [hbehind.start_eq, hbehind.pos_eq, List.append_nil]

/-- Whether a scanner between two calls has scanned as much of a text as a lexer has cut. -/
inductive Reads (text : String) : Scanner → Lexer → Prop
  | reading {scanner : Scanner} {before rest : List Char} (hstate : scanner.state = .whitespace)
    (hat : scanner.At text before [] rest) : Reads text scanner (.reading rest)
  | exhausted {scanner : Scanner} {before token left : List Char} (hstate : scanner.state = .done)
    (hat : scanner.At text before token left) : Reads text scanner .exhausted

theorem reads_begin (text : String) : Reads text begin (.ofText text) :=
  .reading rfl (at_begin text)

theorem Reads.placed (h : Reads text scanner lexer) : scanner.Placed text := by
  cases h with
  | reading hstate hat => exact hat.placed
  | exhausted hstate hat => exact hat.placed

/-- Whether a call of a scanner has the same outcome as a call of a lexer. -/
structure CallsLike (g : Grammar) (text : String) (scanner : Scanner) (lexer : Lexer) (count : Nat)
    (answer : Except LexError (Option Token)) (behind : Scanner) : Prop where
  count_le : count ≤ 4
  answers : Answers g text scanner count answer behind
  item_eq : item answer = (Lexer.next g lexer).1
  reads : Reads text behind (Lexer.next g lexer).2
  consumes : ∀ token, answer = .ok (some token) → scanner.Consumes text behind token

/-- A call that yields what is cut off behind the whitespace has the outcome of the lexer. -/
theorem exists_callsLike_of_yields {before blanks rest left : List Char} {c : Char}
    (hat : scanner.At text before [] rest) (hblanks : ∀ c ∈ blanks, isWhitespace c = true)
    (hahead : (Lexer.reading rest).ahead = c :: left)
    (hyields : Yields g text (before ++ blanks) scanner 4 (Lexer.cutToken g c left)) :
    ∃ count answer behind, CallsLike g text scanner (.reading rest) count answer behind := by
  cases hcut : Lexer.cutToken g c left with
  | error error =>
    have hnext := Lexer.next_of_cutToken_eq_error hahead hcut
    rw [hcut] at hyields
    cases hyields with
    | error hcount hanswers hdone hbehind =>
      refine ⟨_, _, _, hcount, hanswers, ?_, ?_, fun token h ↦ by cases h⟩
      · rw [hnext]
        rfl
      · rw [hnext]
        exact .exhausted hdone hbehind
  | ok cut =>
    have hnext := Lexer.next_of_cutToken_eq_ok hahead hcut
    rw [hcut] at hyields
    cases hyields with
    | token hcount hanswers hreading hbehind =>
      refine ⟨_, _, _, hcount, hanswers, ?_, ?_, fun token h ↦ ?_⟩
      · rw [hnext]
        rfl
      · rw [hnext]
        exact .reading hreading hbehind
      · cases h
        exact hat.consumes hblanks (Lexer.text_ne_of_cutToken hcut) hbehind

/-- A call answers within four transitions. -/
theorem Reads.exists_callsLike (hg : g.Consistent) (h : Reads text scanner lexer) :
    ∃ count answer behind, CallsLike g text scanner lexer count answer behind := by
  cases h with
  | exhausted hstate hat =>
    have hdone : scanner.transition? text g = none := by
      rw [transition?, hstate]
    exact ⟨0, .ok none, scanner, Nat.zero_le 4, .done hdone, rfl, .exhausted hstate hat,
      fun token h ↦ by cases h⟩
  | @reading before rest hstate hat =>
    obtain ⟨here, hhere, hstep⟩ := transition?_of_whitespace g hstate hat
    cases hskip : rest.dropWhile isWhitespace with
    | nil =>
      have hnext : Lexer.next g (.reading rest) = (none, .exhausted) := by
        simp only [Lexer.next, hskip]
      rw [hskip, List.head?_nil, Option.elim_none] at hstep
      refine ⟨1, .ok none, { here with state := .done }, by decide, .next hstep (.done rfl), ?_, ?_,
        fun token h ↦ by cases h⟩
      · rw [hnext]
        rfl
      · rw [hnext]
        exact .exhausted rfl (hhere.withState .done)
    | cons c left =>
      rw [hskip, List.head?_cons, Option.elim_some] at hstep
      rw [hskip] at hhere
      exact exists_callsLike_of_yields hat (fun c hc ↦ List.mem_takeWhile_imp hc) hskip
        (yields_of_dispatch hg hstep hhere)

/-- The answers of calls one after the other. -/
inductive Calls (g : Grammar) (text : String) :
    Scanner → List (Except LexError (Option Token)) → Scanner → Prop
  | nil (scanner : Scanner) : Calls g text scanner [] scanner
  | cons {scanner here behind : Scanner} {count : Nat} {answer : Except LexError (Option Token)}
    {answers : List (Except LexError (Option Token))} (h : Answers g text scanner count answer here)
    (hrest : Calls g text here answers behind) : Calls g text scanner (answer :: answers) behind

/-- Whatever a call answers is what the lexer answers. -/
theorem Reads.callsLike (hg : g.Consistent) (h : Reads text scanner lexer) {count : Nat}
    {answer : Except LexError (Option Token)}
    (hanswers : Answers g text scanner count answer behind) :
    ∃ count, CallsLike g text scanner lexer count answer behind := by
  obtain ⟨other, another, here, hcalls⟩ := h.exists_callsLike hg
  obtain ⟨rfl, rfl⟩ := hanswers.unique hcalls.answers
  exact ⟨other, hcalls⟩

theorem Calls.reads (hg : g.Consistent) (h : Calls g text scanner answers behind)
    (hreads : Reads text scanner lexer) :
    Reads text behind (lexer.afterCalls g answers.length) := by
  induction h generalizing lexer with
  | nil => exact hreads
  | cons hanswers hrest ih =>
    obtain ⟨count, hcall⟩ := hreads.callsLike hg hanswers
    exact ih hcall.reads

/-- The first answer comes from the next token, and the others from what is behind it. -/
theorem exists_answers_run {answer : Except LexError (Option Token)}
    (h : item answer = (Lexer.next g lexer).1) (asked : Nat) :
    ∃ others, (lexer.run g).answers (asked + 1) = answer :: others ∧
      ((Lexer.next g lexer).2.run g).answers asked <+: others := by
  rcases hnext : Lexer.next g lexer with ⟨outcome, after⟩
  have hbehind : (∀ token, outcome ≠ some (.ok token)) → after = .exhausted := by
    have hlast := Lexer.next_snd_of_ne g lexer
    rwa [hnext] at hlast
  rw [hnext] at h
  obtain rfl : item answer = outcome := h
  rcases answer with error | none | token
  · obtain rfl : after = .exhausted := hbehind fun token htoken ↦ by cases htoken
    rw [Lexer.run_of_next_error hnext, Lexer.run_exhausted]
    exact ⟨_, rfl, LexerRun.answers_isPrefix _ asked⟩
  · obtain rfl : after = .exhausted := hbehind fun token htoken ↦ by cases htoken
    rw [Lexer.run_of_next_none hnext, Lexer.run_exhausted]
    exact ⟨_, rfl, List.prefix_refl _⟩
  · rw [Lexer.run_of_next_ok hnext]
    exact ⟨_, rfl, LexerRun.answers_isPrefix _ asked⟩

theorem Calls.answers_isPrefix (hg : g.Consistent) (h : Calls g text scanner answers behind)
    (hreads : Reads text scanner lexer) : answers <+: (lexer.run g).answers answers.length := by
  induction h generalizing lexer with
  | nil => exact List.nil_prefix
  | cons hanswers hrest ih =>
    -- The calls that are left ask the lexer behind the first call, whose run has the other answers.
    obtain ⟨count, hcall⟩ := hreads.callsLike hg hanswers
    obtain ⟨others, hrun, hothers⟩ := exists_answers_run hcall.item_eq _
    rw [List.length_cons, hrun]
    exact (List.prefix_cons_inj _).mpr ((ih hcall.reads).trans hothers)

theorem Reads.exists_calls (hg : g.Consistent) (h : Reads text scanner lexer) (asked : Nat) :
    ∃ answers behind, Calls g text scanner answers behind ∧ answers.length = asked := by
  induction asked generalizing scanner lexer with
  | zero => exact ⟨[], scanner, .nil scanner, rfl⟩
  | succ asked ih =>
    obtain ⟨count, answer, here, hcall⟩ := h.exists_callsLike hg
    obtain ⟨answers, behind, hcalls, hlength⟩ := ih hcall.reads
    exact ⟨answer :: answers, behind, .cons hcall.answers hcalls, congrArg (· + 1) hlength⟩

end Scanner

/-- A text is scanned call by call. Each call answers within four transitions, and the scanner
stands between characters of the text before it and behind it. A token takes at least one character,
and there are at most as many tokens as characters. Behind the last token comes the error, if there
is one, and then nothing, however often it is asked for. The calls of the lexer, which is an
iterator, have the same outcomes. -/
theorem Grammar.Reachable.scanning_ends {g : Grammar} (hg : g.Reachable) (text : String) :
    (Lexer.run g (.ofText text)).tokens.length ≤ text.length ∧
      ∀ answers scanner, Scanner.Calls g text .begin answers scanner →
        scanner.Placed text ∧
        answers <+: (Lexer.run g (.ofText text)).answers answers.length ∧
        ∃ count answer behind, behind.Placed text ∧ Scanner.CallsLike g text scanner
          ((Lexer.ofText text).afterCalls g answers.length) count answer behind := by
  refine ⟨?_, fun answers scanner hcalls ↦ ⟨?_, ?_, ?_⟩⟩
  · obtain ⟨blanks, -, hdivided⟩ := ((Lexer.runs_run g text.toList).divides hg.consistent).divided
    rw [← String.length_toList]
    exact hdivided.length_le
  · exact (hcalls.reads hg.consistent (Scanner.reads_begin text)).placed
  · exact hcalls.answers_isPrefix hg.consistent (Scanner.reads_begin text)
  · obtain ⟨count, answer, behind, hcall⟩ := (hcalls.reads hg.consistent
      (Scanner.reads_begin text)).exists_callsLike hg.consistent
    exact ⟨count, answer, behind, hcall.reads.placed, hcall⟩

/-- The scan of the first symbol goes on as far as the digit and then back behind the minus sign.
Two arrows are not a symbol. -/
theorem Grammar.scanning_ends_arrows : arrows.Reachable ∧
    (Lexer.run arrows (.ofText "-→→2")).tokens.length ≤ "-→→2".length ∧
    ∃ scanner : Scanner, scanner.Placed "-→→2" ∧ Scanner.Calls arrows "-→→2" .begin
      [.ok (some ⟨.operator, "-"⟩), .error (.invalidToken "→→"), .ok none, .ok none] scanner := by
  have hreachable : arrows.Reachable :=
    .registerOperator (g := standard) (o := tripledArrow) .standard (if_pos (by decide +kernel))
  obtain ⟨hfew, hends⟩ := Reachable.scanning_ends hreachable "-→→2"
  obtain ⟨answers, scanner, hcalls, hlength⟩ :=
    (Scanner.reads_begin "-→→2").exists_calls hreachable.consistent 4
  obtain ⟨hplaced, hanswers, -⟩ := hends answers scanner hcalls
  have hminus : Lexer.next arrows (.ofText "-→→2") =
      (some (.ok ⟨.operator, "-"⟩), .reading "→→2".toList) := by decide +kernel
  have harrows : Lexer.next arrows (.reading "→→2".toList) =
      (some (.error (.invalidToken "→→")), .exhausted) := by decide +kernel
  rw [Lexer.run_of_next_ok hminus, Lexer.run_of_next_error harrows, hlength] at hanswers
  have hfour := List.prefix_iff_eq_take.mp hanswers
  rw [hlength] at hfour
  rw [hfour] at hcalls
  exact ⟨hreachable, hfew, scanner, hplaced, hcalls⟩

end Formulary
