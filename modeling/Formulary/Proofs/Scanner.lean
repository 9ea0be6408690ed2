import Formulary.Proofs.NumeralLanguage
import Formulary.Proofs.SymbolScan

/-!
# A scanner with a position

Tokens can be scanned by a machine that keeps two positions in the text, counted in bytes: where the
token starts, and how far it has been scanned (`Scanner`). What the machine does next depends on its
state, and in most states it only looks at the next character, accepts it and goes on. A call takes
transitions from one state to another until a token is emitted, an error is met or the machine is
done (`Scanner.Answers`).

The machine is related to the cuttings of the lexer: while it stands on the border of two characters
(`Scanner.At`), what it accepts is what the cuttings take (`Scanner.Performs`). Main statements:
this holds of the digits of numerals (`Scanner.performs_acceptDecimal` and
`Scanner.performs_acceptHexDigits`), and a call has one answer (`Scanner.Answers.unique`).
-/

set_option autoImplicit false
set_option relaxedAutoImplicit false

namespace Formulary

open Text Cutting

/-! ### The machine -/

/-- What a scanner does next. -/
inductive ScanState
  | whitespace
  | number
  | hexadecimal
  | binary
  | numberEnd
  | identifier
  | symbol
  | done

/-- What a transition leads to, unless it meets an error: another state, or a token. -/
inductive ScanStep
  | next (state : ScanState)
  | emit (token : Token)

/-- Where the token that is being scanned starts, how far it has been scanned, and what comes next.
Positions are counted in bytes. -/
structure Scanner where
  start : String.Pos.Raw
  pos : String.Pos.Raw
  state : ScanState

/-- The outcome of a transition, and the scanner behind it. -/
abbrev Transition := Except LexError ScanStep × Scanner

namespace Scanner

/-- The scanner at the beginning of a text. -/
def begin : Scanner := ⟨0, 0, .whitespace⟩

section Machine

variable (text : String) (scanner : Scanner)

/-- The next character. -/
def peek : Option Char := scanner.pos.get? text

/-- The character behind the next one. -/
def peekSecond : Option Char := (scanner.peek text).bind fun c ↦ (scanner.pos + c).get? text

/-- The text that has been scanned. -/
def current : String := scanner.start.extract text scanner.pos

/-- Accepts the next character if it belongs to a class. -/
def accept (p : Char → Bool) : Bool × Scanner :=
  ((scanner.peek text).filter p).elim (false, scanner)
    fun c ↦ (true, { scanner with pos := scanner.pos + c })

/-- A character is at no position behind the text. -/
theorem lt_of_get?_eq_some {pos : String.Pos.Raw} {c : Char} (h : pos.get? text = some c) :
    pos.byteIdx < text.utf8ByteSize := by
  have hshift (chars : List Char) (i : String.Pos.Raw)
      (hchars : String.Pos.Raw.utf8GetAux? chars i pos = some c) :
      pos.byteIdx < i.byteIdx + String.utf8Len chars := by
    induction chars generalizing i with
    | nil => cases hchars
    | cons first chars ih =>
      have hpos := first.utf8Size_pos
      rw [String.utf8Len_cons]
      by_cases hi : i = pos
      · rw [hi]
        omega
      · rw [String.Pos.Raw.utf8GetAux?, if_neg hi] at hchars
        have hbehind := ih _ hchars
        rw [String.Pos.Raw.byteIdx_add_char] at hbehind
        omega
  have hbound := hshift text.toList 0 h
  rw [String.utf8Len_toList] at hbound
  simpa using hbound

theorem pos_of_accept {p : Char → Bool} (h : (scanner.accept text p).1 = true) :
    text.utf8ByteSize - (scanner.accept text p).2.pos.byteIdx <
      text.utf8ByteSize - scanner.pos.byteIdx := by
  rw [accept] at h ⊢
  cases hpeek : (scanner.peek text).filter p with
  | none =>
    rw [hpeek] at h
    cases h
  | some c =>
    have hinside := lt_of_get?_eq_some text (Option.filter_eq_some_iff.mp hpeek).1
    have hpos := c.utf8Size_pos
    rw [Option.elim_some, String.Pos.Raw.byteIdx_add_char]
    omega

/-- Accepts characters of a class as long as there are any. -/
def acceptRun (p : Char → Bool) (scanner : Scanner) : Scanner :=
  if (scanner.accept text p).1 = true then acceptRun p (scanner.accept text p).2
  else (scanner.accept text p).2
  termination_by text.utf8ByteSize - scanner.pos.byteIdx
  decreasing_by exact pos_of_accept text scanner ‹_›

/-- Accepts the next character if it belongs to a class, and then goes on. -/
def acceptThen (p : Char → Bool) (action : Scanner → Scanner) : Scanner :=
  if (scanner.accept text p).1 = true then action (scanner.accept text p).2
  else (scanner.accept text p).2

/-- Emits what has been scanned as a token. -/
def emit (kind : TokenKind) : Transition :=
  (.ok (.emit ⟨kind, scanner.current text⟩), { scanner with start := scanner.pos })

/-- Reports what has been scanned as a bad number. -/
def badNumber : Transition := (.error (.badNumberSyntax (scanner.current text)), scanner)

/-- Decides by the first character what the next token is. A sign belongs to a numeral only when a
digit follows it. -/
def dispatch (g : Grammar) (c : Char) : Transition :=
  if c.isDigit then (.ok (.next .number), scanner)
  else if Numeral.isSign c && (scanner.peekSecond text).any Char.isDigit then
    (.ok (.next .number), scanner)
  else if Grammar.isNameStart c then (.ok (.next .identifier), scanner)
  else if g.isSymbolChar c then (.ok (.next .symbol), scanner)
  else (.error (.unexpectedCharacter c), scanner)

/-- Skips whitespace. The next token starts behind it. -/
def skipWhitespace (g : Grammar) : Transition :=
  let skipped := scanner.acceptRun text isWhitespace
  let here : Scanner := { skipped with start := skipped.pos }
  (here.peek text).elim (.ok (.next .done), here) (here.dispatch text g)

/-- Accepts what is left of a decimal numeral behind its sign. -/
def acceptDecimal : Scanner :=
  let whole := scanner.acceptRun text Char.isDigit
  let fraction := whole.acceptThen text Numeral.isPoint (acceptRun text Char.isDigit)
  let signed := fraction.acceptThen text Numeral.isExponentMark
    fun marked ↦ (marked.accept text Numeral.isSign).2
  let exponent := signed.acceptRun text Char.isDigit
  (exponent.accept text Numeral.isImaginaryMark).2

/-- Goes on with the digits that a mark announces. The mark must not belong to a signed numeral. -/
def acceptMark (signed : Bool) (state : ScanState) : Transition :=
  if signed = true then scanner.badNumber text else (.ok (.next state), scanner)

/-- Scans a numeral behind its sign. A mark behind a leading zero decides which digits follow. -/
def scanUnsigned (signed : Bool) : Transition :=
  let zero := scanner.accept text (· == '0')
  if zero.1 = true then
    let hexadecimal := zero.2.accept text Numeral.isHexMark
    if hexadecimal.1 = true then hexadecimal.2.acceptMark text signed .hexadecimal
    else
      let binary := hexadecimal.2.accept text Numeral.isBinaryMark
      if binary.1 = true then binary.2.acceptMark text signed .binary
      else (.ok (.next .numberEnd), binary.2.acceptDecimal text)
  else (.ok (.next .numberEnd), zero.2.acceptDecimal text)

/-- Scans a numeral up to the mark behind its leading zero or, if there is none, up to its end. -/
def scanNumber : Transition :=
  let sign := scanner.accept text Numeral.isSign
  sign.2.scanUnsigned text sign.1

/-- Accepts hexadecimal digits. The first letter selects the case of the others. -/
def acceptHexDigits : Scanner :=
  let digits := scanner.acceptRun text Char.isDigit
  let lower := digits.accept text Numeral.isLowerHexLetter
  if lower.1 = true then
    lower.2.acceptRun text fun c ↦ c.isDigit || Numeral.isLowerHexLetter c
  else
    lower.2.acceptThen text Numeral.isUpperHexLetter
      (acceptRun text fun c ↦ c.isDigit || Numeral.isUpperHexLetter c)

/-- Ends a numeral, which must not run into a letter or digit. -/
def endNumber : Transition :=
  let accepted := scanner.accept text Char.isAlphanum
  if accepted.1 = true then accepted.2.badNumber text else accepted.2.emit text .number

/-- Accepts characters of symbols, at most as far as the longest symbol, and keeps the kind and the
end of the longest symbol that it has met. -/
def acceptSymbol (g : Grammar) (longest : Option (TokenKind × String.Pos.Raw))
    (scanner : Scanner) : Option (TokenKind × String.Pos.Raw) × Scanner :=
  let found := (g.symbolKind? (scanner.current text)).map fun kind ↦ (kind, scanner.pos)
  let longest := found.or longest
  if scanner.pos.byteIdx - scanner.start.byteIdx < g.maxSymbolLength ∧
      (scanner.accept text g.isSymbolChar).1 = true then
    acceptSymbol g longest (scanner.accept text g.isSymbolChar).2
  else (longest, scanner)
  termination_by text.utf8ByteSize - scanner.pos.byteIdx
  decreasing_by
    rename_i h
    exact pos_of_accept text scanner h.2

/-- Scans a symbol and goes back to the end of the longest one that it has met. -/
def scanSymbol (g : Grammar) : Transition :=
  let accepted := acceptSymbol text g none scanner
  accepted.1.elim (.error (.invalidToken (accepted.2.current text)), accepted.2)
    fun longest ↦ { accepted.2 with pos := longest.2 }.emit text longest.1

/-- The transition from the state of the scanner, unless it is done. -/
def transition? (g : Grammar) : Option Transition :=
  match scanner.state with
  | .whitespace => some (scanner.skipWhitespace text g)
  | .number => some (scanner.scanNumber text)
  | .hexadecimal => some (.ok (.next .numberEnd), scanner.acceptHexDigits text)
  | .binary => some (.ok (.next .numberEnd), scanner.acceptRun text Numeral.isBinaryDigit)
  | .numberEnd => some (scanner.endNumber text)
  | .identifier => some ((scanner.acceptRun text Grammar.isNameChar).emit text .identifier)
  | .symbol => some (scanner.scanSymbol text g)
  | .done => none

end Machine

/-- The answer of a call and the scanner behind it, after a number of transitions. -/
inductive Answers (g : Grammar) (text : String) :
    Scanner → Nat → Except LexError (Option Token) → Scanner → Prop
  /-- A scanner that is done has no more tokens. -/
  | done {scanner : Scanner} (h : scanner.transition? text g = none) :
    Answers g text scanner 0 (.ok none) scanner
  | next {scanner here behind : Scanner} {state : ScanState} {count : Nat}
    {answer : Except LexError (Option Token)}
    (h : scanner.transition? text g = some (.ok (.next state), here))
    (hrest : Answers g text { here with state := state } count answer behind) :
    Answers g text scanner (count + 1) answer behind
  /-- Behind a token, whitespace is skipped in the next call. -/
  | emit {scanner here : Scanner} {token : Token}
    (h : scanner.transition? text g = some (.ok (.emit token), here)) :
    Answers g text scanner 1 (.ok (some token)) { here with state := .whitespace }
  /-- Behind an error, the scanner is done. -/
  | error {scanner here : Scanner} {error : LexError}
    (h : scanner.transition? text g = some (.error error, here)) :
    Answers g text scanner 1 (.error error) { here with state := .done }

/-- A call has one answer. -/
theorem Answers.unique {g : Grammar} {text : String} {scanner first second : Scanner}
    {count other : Nat} {answer another : Except LexError (Option Token)}
    (hfirst : Answers g text scanner count answer first)
    (hsecond : Answers g text scanner other another second) :
    answer = another ∧ first = second := by
  induction hfirst generalizing other with
  | done h =>
    cases hsecond with
    | done => exact ⟨rfl, rfl⟩
    | next hother | emit hother | error hother =>
      rw [h] at hother
      cases hother
  | next h _ ih =>
    cases hsecond with
    | next hother hrest =>
      rw [h] at hother
      cases hother
      exact ih hrest
    | done hother | emit hother | error hother =>
      rw [h] at hother
      cases hother
  | emit h =>
    cases hsecond with
    | emit hother =>
      rw [h] at hother
      cases hother
      exact ⟨rfl, rfl⟩
    | done hother | next hother | error hother =>
      rw [h] at hother
      cases hother
  | error h =>
    cases hsecond with
    | error hother =>
      rw [h] at hother
      cases hother
      exact ⟨rfl, rfl⟩
    | done hother | next hother | emit hother =>
      rw [h] at hother
      cases hother

/-! ### On the border of two characters -/

section Border

variable {text : String} {scanner : Scanner} {before token rest : List Char} {c : Char}
  {p : Char → Bool}

/-- Whether the scanner stands between a token and the rest of the text, with the start of the token
where the text before it ends. -/
structure At (text : String) (scanner : Scanner) (before token rest : List Char) : Prop where
  text_eq : text = String.ofList (before ++ token ++ rest)
  start_eq : scanner.start = ⟨String.utf8Len before⟩
  pos_eq : scanner.pos = ⟨String.utf8Len (before ++ token)⟩

theorem at_begin (text : String) : begin.At text [] [] text.toList :=
  ⟨String.ofList_toList.symm, rfl, rfl⟩

theorem At.withState (h : scanner.At text before token rest) (state : ScanState) :
    At text { scanner with state := state } before token rest :=
  ⟨h.text_eq, h.start_eq, h.pos_eq⟩

/-- The token that has been scanned counts as text before the next one. -/
theorem At.restart (h : scanner.At text before token rest) :
    At text { scanner with start := scanner.pos } (before ++ token) [] rest := by
  refine ⟨?_, h.pos_eq, ?_⟩
  · rw [List.append_nil]
    exact h.text_eq
  · rw [List.append_nil]
    exact h.pos_eq

theorem At.peek_eq (h : scanner.At text before token rest) : scanner.peek text = rest.head? := by
  rw [peek, h.pos_eq, h.text_eq, String.get?_of_valid]

theorem At.current_eq (h : scanner.At text before token rest) :
    scanner.current text = String.ofList token := by
  rw [current, h.start_eq, h.pos_eq, h.text_eq, String.utf8Len_append, String.extract_of_valid]

theorem At.accepted (h : scanner.At text before token (c :: rest)) :
    At text { scanner with pos := scanner.pos + c } before (token ++ [c]) rest where
  text_eq := by rw [h.text_eq]; simp
  start_eq := h.start_eq
  pos_eq := by
    show scanner.pos + c = _
    rw [h.pos_eq, ← List.append_assoc, String.utf8Len_append _ [c]]
    simp [String.Pos.Raw.ext_iff]

theorem At.peekSecond_eq (h : scanner.At text before token (c :: rest)) :
    scanner.peekSecond text = rest.head? := by
  rw [peekSecond, h.peek_eq]
  exact h.accepted.peek_eq

theorem At.accept_of_pos (h : scanner.At text before token (c :: rest)) (hc : p c = true) :
    scanner.accept text p = (true, { scanner with pos := scanner.pos + c }) := by
  rw [accept, h.peek_eq, List.head?_cons, Option.filter_some, if_pos hc, Option.elim_some]

theorem At.accept_of_neg (h : scanner.At text before token rest)
    (hrest : ∀ c ∈ rest.head?, p c = false) : scanner.accept text p = (false, scanner) := by
  have hnone : rest.head?.filter p = none := by
    cases rest with
    | nil => rfl
    | cons c rest => simp [hrest c rfl]
  rw [accept, h.peek_eq, hnone, Option.elim_none]

/-- The next character is accepted if there is one of the class. -/
theorem At.accept_cases (h : scanner.At text before token rest) (p : Char → Bool) :
    (∃ c left, rest = c :: left ∧ p c = true ∧ (scanner.accept text p).1 = true ∧
      (scanner.accept text p).2.At text before (token ++ [c]) left) ∨
    ((∀ c ∈ rest.head?, p c = false) ∧ scanner.accept text p = (false, scanner)) := by
  by_cases hrest : ∀ c ∈ rest.head?, p c = false
  · exact Or.inr ⟨hrest, h.accept_of_neg hrest⟩
  · cases rest with
    | nil => exact (hrest fun c hc ↦ by cases hc).elim
    | cons c left =>
      have hc : p c = true := by simpa using hrest
      rw [h.accept_of_pos hc]
      exact Or.inl ⟨c, left, rfl, hc, rfl, h.accepted⟩

/-- What the scanner accepts is what a cutting takes off the rest of the text. -/
def Performs (text : String) (action : Scanner → Scanner) (cut : Cutting) : Prop :=
  ∀ ⦃scanner : Scanner⦄ ⦃before token rest : List Char⦄, scanner.At text before token rest →
    (action scanner).At text before (token ++ (cut rest).1) (cut rest).2

/-- Two actions one after the other accept what two cuttings take. -/
theorem Performs.then {first second : Scanner → Scanner} {cut next : Cutting}
    (hfirst : Performs text first cut) (hsecond : Performs text second next) :
    Performs text (fun scanner ↦ second (first scanner)) (followedBy cut next) := by
  intro scanner before token rest h
  have hboth := hsecond (hfirst h)
  rwa [List.append_assoc] at hboth

theorem Performs.acceptThen {action : Scanner → Scanner} {cut : Cutting}
    (haction : Performs text action cut) (p : Char → Bool) :
    Performs text (fun scanner ↦ scanner.acceptThen text p action) (behind p cut) := by
  intro scanner before token rest h
  beta_reduce
  rw [Scanner.acceptThen]
  obtain ⟨c, left, rfl, hc, haccept, hat⟩ | ⟨hrest, haccept⟩ := h.accept_cases p
  · have hmore := haction hat
    rw [if_pos haccept, behind_cons hc]
    rwa [List.append_assoc] at hmore
  · rw [haccept, if_neg Bool.false_ne_true, behind_of_head hrest, List.append_nil]
    exact h

theorem performs_accept (text : String) (p : Char → Bool) :
    Performs text (fun scanner ↦ (scanner.accept text p).2) (atMostOne p) := by
  have hnothing : Performs text id nothing := by
    intro scanner before token rest h
    rw [nothing, List.append_nil]
    exact h
  have hsame : (fun scanner ↦ (accept text scanner p).2) =
      fun scanner ↦ scanner.acceptThen text p id := by
    funext scanner
    rw [Scanner.acceptThen, id, ite_self]
  rw [hsame]
  exact hnothing.acceptThen p

theorem performs_acceptRun (text : String) (p : Char → Bool) :
    Performs text (acceptRun text p) (many p) := by
  intro scanner before token rest h
  induction rest generalizing scanner token with
  | nil =>
    rw [acceptRun, h.accept_of_neg (fun c hc ↦ by cases hc), if_neg Bool.false_ne_true]
    simpa [many] using h
  | cons c rest ih =>
    by_cases hc : p c = true
    · have hmore := ih h.accepted
      rw [acceptRun, h.accept_of_pos hc, if_pos rfl, many, List.takeWhile_cons_of_pos hc,
        List.dropWhile_cons_of_pos hc]
      rwa [List.append_assoc] at hmore
    · rw [acceptRun, h.accept_of_neg (by simpa using hc), if_neg Bool.false_ne_true, many,
        List.takeWhile_cons_of_neg hc, List.dropWhile_cons_of_neg hc, List.append_nil]
      exact h

end Border

end Scanner

/-! ### Numerals -/

namespace Text.Cutting

variable {p q : Char → Bool} {text : List Char}

/-- What is left behind the leading characters of a class does not start in the class. -/
theorem head_many (p : Char → Bool) (text : List Char) :
    ∀ c ∈ (many p text).2.head?, p c = false := by
  have hhead := List.head?_dropWhile_not p text
  intro c hc
  rw [many] at hc
  rw [Option.mem_def.mp hc] at hhead
  simpa using hhead

theorem head_behind {cut : Cutting} (hcut : ∀ text, ∀ c ∈ (cut text).2.head?, q c = false)
    (htext : ∀ c ∈ text.head?, q c = false) :
    ∀ c ∈ (behind p cut text).2.head?, q c = false := by
  cases text with
  | nil => exact htext
  | cons first rest =>
    by_cases hfirst : p first = true
    · rw [behind_cons hfirst]
      exact hcut rest
    · rw [behind, if_neg hfirst]
      exact htext

/-- Assumes: a text starts in a part of a class. Its leading characters of the class are this
character and those behind it. -/
theorem behind_many_of_head (hpq : ∀ c, q c = true → p c = true)
    (htext : text.head?.any q = true) : behind q (many p) text = many p text := by
  cases text with
  | nil => cases htext
  | cons c rest =>
    have hc : q c = true := htext
    rw [behind_cons hc, many, many, List.takeWhile_cons_of_pos (hpq c hc),
      List.dropWhile_cons_of_pos (hpq c hc)]

end Text.Cutting

namespace Numeral

/-- A decimal numeral without its sign. -/
def unsigned : Cutting :=
  followedBy (many Char.isDigit) <| followedBy fraction <|
    followedBy exponent (atMostOne isImaginaryMark)

/-- Where no digit is next, the sign and the digits of an exponent come behind its mark only. -/
theorem followedBy_exponentMark {rest : List Char} (h : ∀ c ∈ rest.head?, c.isDigit = false) :
    followedBy (behind isExponentMark (atMostOne isSign)) (many Char.isDigit) rest =
      exponent rest := by
  cases rest with
  | nil => rfl
  | cons c rest =>
    by_cases hc : isExponentMark c = true
    · rw [exponent, behind_cons hc, followedBy, behind_cons hc]
      rfl
    · have hmark : ∀ other ∈ (c :: rest).head?, isExponentMark other = false := by
        simpa using hc
      rw [exponent, behind_of_head hmark, followedBy, behind_of_head hmark]
      have hmany : many Char.isDigit ([] ++ c :: rest) = ([], c :: rest) :=
        many_append (List.forall_mem_nil _) h
      exact hmany

/-- Hexadecimal letters come behind the first of them. -/
theorem hexLetters_eq (text : List Char) : hexLetters text =
    if text.head?.any isLowerHexLetter = true then
      behind isLowerHexLetter (many fun c ↦ c.isDigit || isLowerHexLetter c) text
    else behind isUpperHexLetter (many fun c ↦ c.isDigit || isUpperHexLetter c) text := by
  by_cases hlower : text.head?.any isLowerHexLetter = true
  · rw [if_pos hlower, hexLetters_of_lower hlower,
      behind_many_of_head (fun _ ↦ Bool.or_inr) hlower]
  · rw [if_neg hlower]
    by_cases hupper : text.head?.any isUpperHexLetter = true
    · rw [hexLetters_of_upper hlower hupper, behind_many_of_head (fun _ ↦ Bool.or_inr) hupper]
    · rw [hexLetters_of_neither hlower hupper, behind_of_head]
      exact (Option.any_eq_false _ _).mp (Bool.eq_false_iff.mpr hupper)

/-- Digits in front of a decimal numeral without its sign belong to it. -/
theorem unsigned_cons {c : Char} (hc : c.isDigit = true) (rest : List Char) :
    unsigned (c :: rest) = (c :: (unsigned rest).1, (unsigned rest).2) := by
  have hmany : many Char.isDigit (c :: rest) =
      (c :: (many Char.isDigit rest).1, (many Char.isDigit rest).2) := by
    rw [many, List.takeWhile_cons_of_pos hc, List.dropWhile_cons_of_pos hc, many]
  rw [unsigned, followedBy, hmany]
  rfl

end Numeral

namespace Scanner

section Numerals

variable {text : String} {scanner : Scanner} {before token rest : List Char}

theorem performs_acceptDecimal (text : String) :
    Performs text (acceptDecimal text) Numeral.unsigned := by
  intro scanner before token rest h
  have hdigits := performs_acceptRun text Char.isDigit
  have hfraction := (hdigits.acceptThen Numeral.isPoint) (hdigits h)
  have hexponent := (((performs_accept text Numeral.isSign).acceptThen
    Numeral.isExponentMark).then hdigits) hfraction
  -- Digits are accepted behind the exponent whether it has a mark or not. Without a mark none are
  -- next, because those in front have been accepted.
  have hnext := head_behind (p := Numeral.isPoint) (head_many Char.isDigit)
    (head_many Char.isDigit rest)
  rw [Numeral.followedBy_exponentMark hnext] at hexponent
  have hall := performs_accept text Numeral.isImaginaryMark hexponent
  simp only [List.append_assoc] at hall
  exact hall

theorem performs_acceptHexDigits (text : String) :
    Performs text (acceptHexDigits text) Numeral.hexDigits := by
  intro scanner before token rest h
  have hdigits := performs_acceptRun text Char.isDigit h
  have hletters : (acceptHexDigits text scanner).At text before
      (token ++ (many Char.isDigit rest).1 ++
        (Numeral.hexLetters (many Char.isDigit rest).2).1)
      (Numeral.hexLetters (many Char.isDigit rest).2).2 := by
    rw [acceptHexDigits, Numeral.hexLetters_eq]
    obtain ⟨c, left, hleft, hc, haccept, hat⟩ | ⟨hnext, haccept⟩ :=
      hdigits.accept_cases Numeral.isLowerHexLetter
    · have hmore := performs_acceptRun text
        (fun c ↦ c.isDigit || Numeral.isLowerHexLetter c) hat
      rw [if_pos haccept, hleft, List.head?_cons, Option.any_some, if_pos hc, behind_cons hc]
      rwa [List.append_assoc] at hmore
    · rw [haccept, if_neg Bool.false_ne_true,
        if_neg (Bool.eq_false_iff.mp ((Option.any_eq_false _ _).mpr hnext))]
      exact (performs_acceptRun text _).acceptThen Numeral.isUpperHexLetter hdigits
  rw [List.append_assoc] at hletters
  exact hletters

end Numerals

end Scanner

end Formulary
