import Formulary.Proofs.Scanner

/-!
# Scanning a token

From each of its states, a scanner emits the token or meets the error that a lexer cuts off the text
(`Scanner.Yields`). In the states of numerals, names and symbols this takes at most three
transitions. The state of symbols is the only one that goes back: it scans the window on the
characters of symbols and returns to the end of the longest symbol in it (`Scanner.KeepsLongest`).

Main statement: from where a scanner has skipped whitespace, it yields what is cut off there
(`Scanner.yields_of_dispatch`). Within a call no transition leads back to a state that was left, so
no more than four of them are needed.
-/

set_option autoImplicit false
set_option relaxedAutoImplicit false

namespace Formulary

open Text Cutting

/-! ### Numerals behind a sign -/

namespace Numeral

variable {c : Char} {rest : List Char}

/-- A numeral without its sign needs a character of numerals to start with. -/
theorem unsigned_of_head (h : ∀ c ∈ rest.head?, isDecimalChar c = false) :
    unsigned rest = ([], rest) := by
  have hnot (p : Char → Bool) (hp : ∀ c, p c = true → isDecimalChar c = true) :
      ∀ c ∈ rest.head?, p c = false := fun c hc ↦
    Bool.eq_false_iff.mpr fun hpc ↦ Bool.false_ne_true ((h c hc).symm.trans (hp c hpc))
  have hdigits : many Char.isDigit rest = ([], rest) :=
    many_append (List.forall_mem_nil _) <| hnot _ fun c hc ↦
      isDecimalChar_of_isFloatChar c
        (isFloatChar_of_isFractionChar c (isFractionChar_of_isDigit c hc))
  have hfraction : fraction rest = ([], rest) :=
    behind_of_head (hnot _ fun c hc ↦
      isDecimalChar_of_isFloatChar c (isFloatChar_of_isFractionChar c (Bool.or_inl hc))) _
  have hexponent : exponent rest = ([], rest) :=
    behind_of_head (hnot _ fun c hc ↦
      isDecimalChar_of_isFloatChar c (isFloatChar_of_isExponentChar c (Bool.or_inl hc))) _
  have himaginary : atMostOne isImaginaryMark rest = ([], rest) :=
    behind_of_head (hnot _ fun c hc ↦ Bool.or_inr hc) _
  exact followedBy_eq hdigits (followedBy_eq hfraction (followedBy_eq hexponent himaginary))

theorem decimal_of_isSign (hc : isSign c = true) (rest : List Char) :
    decimal (c :: rest) = (c :: (unsigned rest).1, (unsigned rest).2) :=
  followedBy_eq (behind_cons hc nothing rest) rfl

theorem decimal_of_head (h : ∀ c ∈ rest.head?, isSign c = false) :
    decimal rest = unsigned rest := by
  have hsign : atMostOne isSign rest = ([], rest) := behind_of_head h nothing
  have hcut : followedBy (atMostOne isSign) unsigned rest =
      ([] ++ (unsigned rest).1, (unsigned rest).2) := followedBy_eq hsign rfl
  exact hcut

/-- A signed numeral is a decimal one. -/
theorem cut_of_isSign (hc : isSign c = true) (rest : List Char) :
    cut (c :: rest) = (c :: (unsigned rest).1, (unsigned rest).2) := by
  rw [Written.cut_eq_decimal fun mark left htext ↦ ?_, decimal_of_isSign hc]
  cases htext
  cases hc

/-- The marks of hexadecimal and binary numerals are letters that do not occur in decimal ones. -/
theorem isDecimalChar_of_mark (h : isHexMark c = true ∨ isBinaryMark c = true) :
    isDecimalChar c = false ∧ c.isAlphanum = true := by
  simp only [isHexMark, isBinaryMark, Bool.or_eq_true, beq_iff_eq] at h
  rcases h with (rfl | rfl) | rfl | rfl <;> exact ⟨rfl, rfl⟩

end Numeral

namespace Lexer

/-- A mark behind a signed zero ends the decimal numeral and belongs to the error. -/
theorem cutNumber_of_signed_mark {sign mark : Char} (hsign : Numeral.isSign sign = true)
    (hmark : Numeral.isHexMark mark = true ∨ Numeral.isBinaryMark mark = true)
    (rest : List Char) : cutNumber (sign :: '0' :: mark :: rest) =
      .error (.badNumberSyntax (String.ofList [sign, '0', mark])) := by
  obtain ⟨hdecimal, hletter⟩ := Numeral.isDecimalChar_of_mark hmark
  have hrest : Numeral.unsigned (mark :: rest) = ([], mark :: rest) :=
    Numeral.unsigned_of_head fun c hc ↦ by
      cases hc
      exact hdecimal
  have hcut : Numeral.cut (sign :: '0' :: mark :: rest) = ([sign, '0'], mark :: rest) := by
    rw [Numeral.cut_of_isSign hsign, Numeral.unsigned_cons rfl, hrest]
  have hnext : mark ∈ (Numeral.cut (sign :: '0' :: mark :: rest)).2.head? := by
    rw [hcut]
    rfl
  rw [cutNumber_of_isAlphanum hnext hletter, hcut]
  rfl

end Lexer

namespace Scanner

variable {g : Grammar} {text : String} {scanner here : Scanner} {state : ScanState}
  {before token left rest : List Char}

/-! ### What a call makes of a cutting -/

/-- What a call makes of what is cut off the text: behind a token, the scanner stands where the
token ends and is about to skip whitespace, and behind an error it is done. The call takes no more
than a number of transitions. -/
inductive Yields (g : Grammar) (text : String) (before : List Char) (scanner : Scanner)
    (bound : Nat) : Lexer.Cut → Prop
  | token {count : Nat} {token : Token} {behind : Scanner} {left : List Char}
    (hcount : count ≤ bound) (h : Answers g text scanner count (.ok (some token)) behind)
    (hstate : behind.state = .whitespace)
    (hat : behind.At text (before ++ token.text.toList) [] left) :
    Yields g text before scanner bound (.ok (token, left))
  | error {count : Nat} {error : LexError} {behind : Scanner} {taken left : List Char}
    (hcount : count ≤ bound) (h : Answers g text scanner count (.error error) behind)
    (hstate : behind.state = .done) (hat : behind.At text before taken left) :
    Yields g text before scanner bound (.error error)

section Yields

variable {bound : Nat} {cut : Lexer.Cut} {kind : TokenKind} {error : LexError}

theorem Yields.mono (h : Yields g text before scanner bound cut) {more : Nat} (hle : bound ≤ more) :
    Yields g text before scanner more cut := by
  cases h with
  | token hcount h hstate hat => exact .token (hcount.trans hle) h hstate hat
  | error hcount h hstate hat => exact .error (hcount.trans hle) h hstate hat

theorem Yields.next (h : scanner.transition? text g = some (.ok (.next state), here))
    (hrest : Yields g text before { here with state := state } bound cut) :
    Yields g text before scanner (bound + 1) cut := by
  cases hrest with
  | token hcount hrest hstate hat =>
    exact .token (Nat.succ_le_succ hcount) (.next h hrest) hstate hat
  | error hcount hrest hstate hat =>
    exact .error (Nat.succ_le_succ hcount) (.next h hrest) hstate hat

theorem yields_of_emit (h : scanner.transition? text g = some (here.emit text kind))
    (hat : here.At text before token left) :
    Yields g text before scanner 1 (.ok (⟨kind, String.ofList token⟩, left)) := by
  rw [emit, hat.current_eq] at h
  have hbehind := hat.restart.withState .whitespace
  refine .token (Nat.le_refl 1) (.emit h) rfl ?_
  rwa [String.toList_ofList]

theorem yields_of_error (h : scanner.transition? text g = some (.error error, here))
    (hat : here.At text before token left) : Yields g text before scanner 1 (.error error) :=
  .error (Nat.le_refl 1) (.error h) rfl (hat.withState .done)

theorem yields_of_badNumber (h : scanner.transition? text g = some (here.badNumber text))
    (hat : here.At text before token left) :
    Yields g text before scanner 1 (.error (.badNumberSyntax (String.ofList token))) := by
  rw [badNumber, hat.current_eq] at h
  exact yields_of_error h hat

end Yields

/-! ### Numerals -/

section Numerals

variable {c : Char}

theorem yields_numberEnd (g : Grammar) (hat : here.At text before token left)
    (hcut : Numeral.cut (c :: rest) = (token, left)) :
    Yields g text before { here with state := .numberEnd } 1 (Lexer.cutNumber (c :: rest)) := by
  have hstep : transition? text { here with state := .numberEnd } g =
      some (endNumber text { here with state := .numberEnd }) := rfl
  rw [endNumber] at hstep
  obtain ⟨other, more, rfl, hother, haccept, hbehind⟩ | ⟨hend, haccept⟩ :=
    (hat.withState .numberEnd).accept_cases Char.isAlphanum
  · have hnext : other ∈ (Numeral.cut (c :: rest)).2.head? := by
      rw [hcut]
      rfl
    rw [if_pos haccept] at hstep
    rw [Lexer.cutNumber_of_isAlphanum hnext hother, hcut]
    exact yields_of_badNumber hstep hbehind
  · rw [haccept, if_neg Bool.false_ne_true] at hstep
    rw [Lexer.cutNumber_of_cut hcut hend]
    exact yields_of_emit hstep (hat.withState .numberEnd)

theorem yields_hexadecimal (g : Grammar) {mark : Char} (hmark : Numeral.isHexMark mark = true)
    (hat : here.At text before ['0', mark] left) :
    Yields g text before { here with state := .hexadecimal } 2
      (Lexer.cutNumber ('0' :: mark :: left)) := by
  have hdigits := performs_acceptHexDigits text (hat.withState .hexadecimal)
  exact .next rfl (yields_numberEnd g hdigits (Numeral.cut_of_isHexMark hmark left))

theorem yields_binary (g : Grammar) {mark : Char} (hhex : ¬ Numeral.isHexMark mark = true)
    (hmark : Numeral.isBinaryMark mark = true) (hat : here.At text before ['0', mark] left) :
    Yields g text before { here with state := .binary } 2
      (Lexer.cutNumber ('0' :: mark :: left)) := by
  have hdigits := performs_acceptRun text Numeral.isBinaryDigit (hat.withState .binary)
  exact .next rfl (yields_numberEnd g hdigits (Numeral.cut_of_isBinaryMark hhex hmark left))

/-- What a transition makes of a numeral behind its sign. -/
inductive ScansUnsigned (text : String) (before sign : List Char) (signed : Bool) :
    List Char → Transition → Prop
  | hexadecimal {mark : Char} {left : List Char} {here : Scanner}
    (hmark : Numeral.isHexMark mark = true)
    (hat : here.At text before (sign ++ ['0', mark]) left) :
    ScansUnsigned text before sign signed ('0' :: mark :: left)
      (here.acceptMark text signed .hexadecimal)
  | binary {mark : Char} {left : List Char} {here : Scanner}
    (hhex : ¬ Numeral.isHexMark mark = true) (hmark : Numeral.isBinaryMark mark = true)
    (hat : here.At text before (sign ++ ['0', mark]) left) :
    ScansUnsigned text before sign signed ('0' :: mark :: left)
      (here.acceptMark text signed .binary)
  | decimal {rest : List Char} {here : Scanner}
    (hmark : ∀ mark left, rest = '0' :: mark :: left →
      Numeral.isHexMark mark = false ∧ Numeral.isBinaryMark mark = false)
    (hat : here.At text before (sign ++ (Numeral.unsigned rest).1) (Numeral.unsigned rest).2) :
    ScansUnsigned text before sign signed rest (.ok (.next .numberEnd), here)

theorem At.scansUnsigned {sign : List Char} (h : scanner.At text before sign rest)
    (signed : Bool) :
    ScansUnsigned text before sign signed rest (scanner.scanUnsigned text signed) := by
  rw [scanUnsigned]
  obtain ⟨c, left, rfl, hc, hzero, hat⟩ | ⟨hother, hzero⟩ := h.accept_cases (· == '0')
  · obtain rfl : c = '0' := eq_of_beq hc
    rw [if_pos hzero]
    obtain ⟨mark, left, rfl, hmark, hhex, hmarked⟩ | ⟨hnothex, hhex⟩ :=
      hat.accept_cases Numeral.isHexMark
    · rw [if_pos hhex]
      rw [List.append_assoc] at hmarked
      exact .hexadecimal hmark hmarked
    · rw [hhex, if_neg Bool.false_ne_true]
      obtain ⟨mark, left, rfl, hmark, hbinary, hmarked⟩ | ⟨hnotbinary, hbinary⟩ :=
        hat.accept_cases Numeral.isBinaryMark
      · rw [if_pos hbinary]
        rw [List.append_assoc] at hmarked
        exact .binary (by simp [hnothex mark rfl]) hmark hmarked
      · rw [hbinary, if_neg Bool.false_ne_true]
        refine .decimal (fun mark behind htext ↦ ?_) ?_
        · cases htext
          exact ⟨hnothex mark rfl, hnotbinary mark rfl⟩
        · have hdecimal := performs_acceptDecimal text hat
          rw [List.append_assoc] at hdecimal
          rwa [Numeral.unsigned_cons rfl]
  · rw [hzero, if_neg Bool.false_ne_true]
    refine .decimal (fun mark behind htext ↦ ?_) (performs_acceptDecimal text h)
    rw [htext] at hother
    cases hother '0' rfl

theorem yields_signed (g : Grammar) {sign : Char} (hsign : Numeral.isSign sign = true)
    (hstep : scanner.transition? text g = some (here.scanUnsigned text true))
    (hat : here.At text before [sign] rest) :
    Yields g text before scanner 2 (Lexer.cutNumber (sign :: rest)) := by
  have hscan := hat.scansUnsigned true
  generalize here.scanUnsigned text true = transition at hstep hscan
  -- Both sides refuse a mark behind a signed zero: the machine because of the sign, and the cutting
  -- because a decimal numeral runs into a letter.
  cases hscan with
  | hexadecimal hmark hmarked =>
    rw [Lexer.cutNumber_of_signed_mark hsign (Or.inl hmark)]
    exact (yields_of_badNumber hstep hmarked).mono (by decide)
  | binary hhex hmark hmarked =>
    rw [Lexer.cutNumber_of_signed_mark hsign (Or.inr hmark)]
    exact (yields_of_badNumber hstep hmarked).mono (by decide)
  | decimal hmark hdecimal =>
    exact .next hstep (yields_numberEnd g hdecimal (Numeral.cut_of_isSign hsign rest))

theorem yields_unsigned (g : Grammar) (hunsigned : Numeral.isSign c = false)
    (hstep : scanner.transition? text g = some (here.scanUnsigned text false))
    (hat : here.At text before [] (c :: rest)) :
    Yields g text before scanner 3 (Lexer.cutNumber (c :: rest)) := by
  have hscan := hat.scansUnsigned false
  generalize here.scanUnsigned text false = transition at hstep hscan
  cases hscan with
  | hexadecimal hmark hmarked => exact .next hstep (yields_hexadecimal g hmark hmarked)
  | binary hhex hmark hmarked => exact .next hstep (yields_binary g hhex hmark hmarked)
  | decimal hmark hdecimal =>
    have hhead : ∀ other ∈ (c :: rest).head?, Numeral.isSign other = false := by
      simpa using hunsigned
    have hcut : Numeral.cut (c :: rest) = Numeral.unsigned (c :: rest) := by
      rw [Numeral.Written.cut_eq_decimal hmark, Numeral.decimal_of_head hhead]
    exact (Yields.next hstep (yields_numberEnd g hdecimal hcut)).mono (by decide)

theorem yields_number (g : Grammar) (hat : here.At text before [] (c :: rest)) :
    Yields g text before { here with state := .number } 3 (Lexer.cutNumber (c :: rest)) := by
  have hstep : transition? text { here with state := .number } g =
      some (scanNumber text { here with state := .number }) := rfl
  rw [scanNumber] at hstep
  obtain ⟨sign, left, htext, hsign, haccept, hbehind⟩ | ⟨hunsigned, haccept⟩ :=
    (hat.withState .number).accept_cases Numeral.isSign
  · cases htext
    rw [haccept] at hstep
    exact (yields_signed g hsign hstep hbehind).mono (by decide)
  · rw [haccept] at hstep
    exact yields_unsigned g (hunsigned c rfl) hstep (hat.withState .number)

end Numerals

/-! ### Names and symbols -/

theorem yields_identifier (g : Grammar) (hat : here.At text before [] rest) :
    Yields g text before { here with state := .identifier } 1 (Lexer.cutIdentifier rest) :=
  yields_of_emit rfl (performs_acceptRun text Grammar.isNameChar (hat.withState .identifier))

section Symbols

variable {all : List Char}

/-- Where a symbol ends that was found in front of a text: its kind is kept, and its number of
characters is turned into a position. -/
def symbolEnd (before all : List Char) (found : TokenKind × Nat) : TokenKind × String.Pos.Raw :=
  (found.1, ⟨String.utf8Len (before ++ all.take found.2)⟩)

/-- Whether a scan stands behind a number of characters and has kept the longest symbol in front of
the text among them. -/
structure KeepsLongest (g : Grammar) (text : String) (before token hidden : List Char)
    (result : Option (TokenKind × String.Pos.Raw) × Scanner) : Prop where
  longest_eq : result.1 = (Lexer.longestSymbol g (token ++ hidden) token.length).map
    (symbolEnd before (token ++ hidden))
  stands : result.2.At text before token hidden

/-- The longest symbol is the one before, unless all that has been scanned is a symbol. -/
theorem longestSymbol_current (hg : g.Consistent) (hat : scanner.At text before token rest) :
    ((g.symbolKind? (scanner.current text)).map fun kind ↦ (kind, scanner.pos)).or
        ((Lexer.longestSymbol g (token ++ rest) (token.length - 1)).map
          (symbolEnd before (token ++ rest))) =
      (Lexer.longestSymbol g (token ++ rest) token.length).map
        (symbolEnd before (token ++ rest)) := by
  rw [hat.current_eq]
  cases token with
  | nil =>
    have hnone : g.symbolKind? (String.ofList []) = none := by
      refine Option.map_eq_none_iff.mpr <|
        Option.eq_none_iff_forall_ne_some.mpr fun symbol hsymbol ↦ ?_
      exact hg.ne_nil_of_mem_symbolTexts (Grammar.mem_symbolTexts.mpr ⟨symbol, hsymbol⟩) rfl
    rw [hnone]
    rfl
  | cons c token =>
    have htake : (c :: token ++ rest).take (token.length + 1) = c :: token :=
      List.take_left' rfl
    rw [List.length_cons, Nat.add_sub_cancel, Lexer.longestSymbol, htake]
    cases g.symbolKind? (String.ofList (c :: token)) with
    | none => rfl
    | some kind =>
      rw [hat.pos_eq]
      simp only [Option.map_some, Option.some_or, symbolEnd, htake]

/-- The length in bytes of what has been scanned. -/
theorem At.length_eq (hat : scanner.At text before token rest) :
    scanner.pos.byteIdx - scanner.start.byteIdx = String.utf8Len token := by
  rw [hat.pos_eq, hat.start_eq, String.utf8Len_append]
  exact Nat.add_sub_cancel_left _ _

theorem keepsLongest_of_stops (hg : g.Consistent) (hat : scanner.At text before token rest)
    (hstop : ¬ (String.utf8Len token < g.maxSymbolLength ∧
      (scanner.accept text g.isSymbolChar).1 = true)) :
    KeepsLongest g text before token rest
      (acceptSymbol text g ((Lexer.longestSymbol g (token ++ rest) (token.length - 1)).map
        (symbolEnd before (token ++ rest))) scanner) := by
  rw [acceptSymbol, hat.length_eq, if_neg hstop]
  exact ⟨longestSymbol_current hg hat, hat⟩

/-- What is scanned is the window on the characters of symbols. -/
theorem keepsLongest_acceptSymbol (hg : g.Consistent) (hat : scanner.At text before token rest) :
    ∃ hidden,
      Lexer.symbolWindow g (g.maxSymbolLength - String.utf8Len token) rest ++ hidden = rest ∧
      KeepsLongest g text before
        (token ++ Lexer.symbolWindow g (g.maxSymbolLength - String.utf8Len token) rest) hidden
        (acceptSymbol text g ((Lexer.longestSymbol g (token ++ rest) (token.length - 1)).map
          (symbolEnd before (token ++ rest))) scanner) := by
  induction rest generalizing scanner token with
  | nil =>
    have hkeeps := keepsLongest_of_stops hg hat fun h ↦ by
      rw [hat.accept_of_neg fun c hc ↦ by cases hc] at h
      cases h.2
    refine ⟨[], rfl, ?_⟩
    rw [Lexer.symbolWindow]
    rwa [List.append_nil] at hkeeps ⊢
  | cons c rest ih =>
    -- The window has room for the bytes that the scanner has still to go to the longest symbol.
    by_cases hmore : String.utf8Len token < g.maxSymbolLength ∧ g.isSymbolChar c = true
    · have haccept := hat.accept_of_pos hmore.2
      have hroom : g.maxSymbolLength - String.utf8Len (token ++ [c]) =
          g.maxSymbolLength - String.utf8Len token - c.utf8Size := by
        rw [String.utf8Len_append, String.utf8Len_cons, String.utf8Len_nil]
        omega
      have hwindow : Lexer.symbolWindow g (g.maxSymbolLength - String.utf8Len token) (c :: rest) =
          c :: Lexer.symbolWindow g (g.maxSymbolLength - String.utf8Len token - c.utf8Size) rest :=
        Lexer.symbolWindow_of_isSymbolChar hmore.2 (Nat.sub_pos_of_lt hmore.1)
      have hlonger : (token ++ [c]).length - 1 = token.length := by
        rw [List.length_append, List.length_singleton, Nat.add_sub_cancel]
      obtain ⟨hidden, hrest, hkeeps⟩ := ih hat.accepted
      rw [hroom] at hrest hkeeps
      refine ⟨hidden, by rw [hwindow, List.cons_append, hrest], ?_⟩
      rw [acceptSymbol, hat.length_eq, longestSymbol_current hg hat, haccept,
        if_pos ⟨hmore.1, rfl⟩, hwindow]
      rwa [hlonger, List.append_assoc, List.append_assoc] at hkeeps
    · have hwindow : Lexer.symbolWindow g (g.maxSymbolLength - String.utf8Len token) (c :: rest) =
          [] := by
        rw [Lexer.symbolWindow, if_neg]
        simpa [Nat.sub_pos_iff_lt] using hmore
      refine ⟨c :: rest, by rw [hwindow, List.nil_append], ?_⟩
      rw [hwindow, List.append_nil]
      refine keepsLongest_of_stops hg hat fun h ↦ hmore ⟨h.1, ?_⟩
      obtain ⟨other, left, htext, hother, -⟩ | ⟨-, hnone⟩ := hat.accept_cases g.isSymbolChar
      · cases htext
        exact hother
      · rw [hnone] at h
        cases h.2

/-- The scanner can go back to any character of the token. -/
theorem At.back (hat : scanner.At text before token left) (hall : token ++ left = all)
    (length : Nat) :
    At text { scanner with pos := ⟨String.utf8Len (before ++ all.take length)⟩ } before
      (all.take length) (all.drop length) := by
  refine ⟨?_, hat.start_eq, rfl⟩
  rw [hat.text_eq, List.append_assoc, hall, List.append_assoc, List.take_append_drop]

theorem yields_symbol (hg : g.Consistent) (hat : here.At text before [] rest) :
    Yields g text before { here with state := .symbol } 1 (Lexer.cutSymbol g rest) := by
  obtain ⟨hidden, hrest, hkeeps⟩ := keepsLongest_acceptSymbol hg (hat.withState .symbol)
  have hscan : KeepsLongest g text before (Lexer.symbolWindow g g.maxSymbolLength rest) hidden
      (acceptSymbol text g none { here with state := .symbol }) := hkeeps
  have hall : Lexer.symbolWindow g g.maxSymbolLength rest ++ hidden = rest := hrest
  have hshown : Lexer.longestSymbol g rest (Lexer.symbolWindow g g.maxSymbolLength rest).length =
      Lexer.longestSymbol g (Lexer.symbolWindow g g.maxSymbolLength rest)
        (Lexer.symbolWindow g g.maxSymbolLength rest).length :=
    Lexer.longestSymbol_congr fun length hle ↦ by rw [Lexer.take_symbolWindow hle]
  have hlongest := hscan.longest_eq
  have hstep : transition? text { here with state := .symbol } g =
      some (scanSymbol text { here with state := .symbol } g) := rfl
  rw [hall, hshown] at hlongest
  rw [scanSymbol, hlongest] at hstep
  rw [Lexer.cutSymbol]
  cases hfound : Lexer.longestSymbol g (Lexer.symbolWindow g g.maxSymbolLength rest)
      (Lexer.symbolWindow g g.maxSymbolLength rest).length with
  | none =>
    rw [hfound, Option.map_none, Option.elim_none, hscan.stands.current_eq] at hstep
    exact yields_of_error hstep hscan.stands
  | some found =>
    rw [hfound, Option.map_some, Option.elim_some] at hstep
    exact yields_of_emit hstep (hscan.stands.back hall found.2)

end Symbols

/-! ### A call -/

section Calls

theorem transition?_of_whitespace (g : Grammar) (hstate : scanner.state = .whitespace)
    (hat : scanner.At text before [] rest) :
    ∃ here : Scanner, here.At text (before ++ rest.takeWhile isWhitespace) []
        (rest.dropWhile isWhitespace) ∧
      scanner.transition? text g = some ((rest.dropWhile isWhitespace).head?.elim
        (.ok (.next .done), here) (here.dispatch text g)) := by
  have hhere := (performs_acceptRun text isWhitespace hat).restart
  refine ⟨_, hhere, ?_⟩
  rw [transition?, hstate]
  show some (scanner.skipWhitespace text g) = _
  rw [skipWhitespace, hhere.peek_eq]
  rfl

theorem yields_of_dispatch (hg : g.Consistent) {c : Char}
    (hstep : scanner.transition? text g = some (here.dispatch text g c))
    (hat : here.At text before [] (c :: left)) :
    Yields g text before scanner 4 (Lexer.cutToken g c left) := by
  simp only [dispatch, hat.peekSecond_eq, ← ite_or, ← Bool.or_eq_true] at hstep
  rw [← Lexer.startsNumber] at hstep
  rw [Lexer.cutToken]
  by_cases hnumber : Lexer.startsNumber c left = true
  · rw [if_pos hnumber] at hstep ⊢
    exact .next hstep (yields_number g hat)
  · rw [if_neg hnumber] at hstep ⊢
    by_cases hname : Grammar.isNameStart c = true
    · rw [if_pos hname] at hstep ⊢
      exact (Yields.next hstep (yields_identifier g hat)).mono (by decide)
    · rw [if_neg hname] at hstep ⊢
      by_cases hsymbol : g.isSymbolChar c = true
      · rw [if_pos hsymbol] at hstep ⊢
        exact (Yields.next hstep (yields_symbol hg hat)).mono (by decide)
      · rw [if_neg hsymbol] at hstep ⊢
        exact (yields_of_error hstep hat).mono (by decide)

end Calls

end Scanner

end Formulary
