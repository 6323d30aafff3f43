import DecimalFormula.Proofs.Scanning.Malformed

/-!
# One token

The scanner answers with a token if and only if blanks and then a lexeme stand at its cursor, and
the lexeme ends there: nothing that would extend it follows. The cursor moves behind the lexeme
(`Lexer.scanToken_eq_iff`). It answers with an error if and only if blanks and then a malformed
lexeme stand there, and with the error of that lexeme (`Lexer.scanToken_eq_error_iff`).

What stands at the cursor decides, so the proofs only go from lexemes and malformed lexemes to
answers. That one of the two stands there makes equivalences of these.
-/

namespace DecimalFormula

namespace TextCursor

/-! ## Runs of characters -/

variable {p : Char → Bool} {n : Nat} {cs rest : List Char}

theorem run_append (hcs : ∀ c ∈ cs, p c = true) (hrest : ∀ c ∈ rest.head?, p c = false) :
    (mk n (cs ++ rest)).run p = cs := by
  rw [run, List.takeWhile_append_of_pos hcs]
  cases rest with
  | nil => simp
  | cons c rest => rw [List.takeWhile_cons_of_neg (by simp [hrest c rfl]), List.append_nil]

theorem skip_append (hcs : ∀ c ∈ cs, p c = true) (hrest : ∀ c ∈ rest.head?, p c = false) :
    (mk n (cs ++ rest)).skip p = ⟨n + byteLength cs, rest⟩ := by
  rw [skip, run_append hcs hrest, List.dropWhile_append_of_pos hcs]
  cases rest with
  | nil => rfl
  | cons c rest => rw [List.dropWhile_cons_of_neg (by simp [hrest c rfl])]

theorem skip_cons {c : Char} (hc : p c = true) :
    (mk n (c :: cs)).skip p = (mk (n + c.utf8Size) cs).skip p := by
  rw [skip, skip, run, run, List.takeWhile_cons_of_pos hc, List.dropWhile_cons_of_pos hc,
    byteLength_cons, Nat.add_assoc]

end TextCursor

namespace Lexer

open TextCursor

variable {registry : Registry} {kind : TokenKind} {text : String} {cs rest : List Char} {n : Nat}

/-! ## From a lexeme to its token -/

/-- What is left behind whole digits: no digit, and perhaps a point. -/
theorem scanNumber_whole (hcs : ∀ c ∈ cs, c.isDigit = true)
    (hdigit : ∀ c ∈ rest.head?, c.isDigit = false) (hpoint : rest.head? ≠ some '.') :
    scanNumber ⟨n, cs ++ rest⟩ = finishNumber cs ⟨n, cs ++ rest⟩ ⟨n + byteLength cs, rest⟩ := by
  rw [scanNumber]
  dsimp only
  rw [run_append hcs hdigit, skip_append hcs hdigit, peek?_mk, if_neg hpoint]

theorem scanNumber_fraction {ds : List Char} (hcs : ∀ c ∈ cs, c.isDigit = true)
    (hds : ∀ c ∈ ds, c.isDigit = true) (hdigit : ∀ c ∈ rest.head?, c.isDigit = false) :
    scanNumber ⟨n, cs ++ '.' :: (ds ++ rest)⟩ =
      if rest.head? = some '.' then
        stopAt .secondPoint ⟨n + byteLength (cs ++ '.' :: ds), rest⟩
      else if ds.isEmpty then
        (.error ⟨.missingFraction rest.head?, .between (n + byteLength (cs ++ '.' :: ds) - 1)
          (n + byteLength (cs ++ '.' :: ds))⟩, ⟨n + byteLength (cs ++ '.' :: ds), rest⟩)
      else finishNumber (cs ++ '.' :: ds) ⟨n, cs ++ '.' :: (ds ++ rest)⟩
        ⟨n + byteLength (cs ++ '.' :: ds), rest⟩ := by
  have hdot : ∀ c ∈ ('.' :: (ds ++ rest)).head?, c.isDigit = false := by
    rintro c ⟨⟩
    rfl
  have hposition : n + byteLength cs + '.'.utf8Size + byteLength ds =
      n + byteLength (cs ++ '.' :: ds) := by
    rw [byteLength_append, byteLength_cons]
    omega
  rw [scanNumber]
  dsimp only
  rw [run_append hcs hdot, skip_append hcs hdot, advance_cons, run_append hds hdigit,
    skip_append hds hdigit, if_pos (by rfl), hposition]
  rfl

theorem scanNumber_of_numeral (hcs : Numeral cs) (hends : TokenKind.number.EndsAt rest) :
    scanNumber ⟨n, cs ++ rest⟩ = finishNumber cs ⟨n, cs ++ rest⟩ ⟨n + byteLength cs, rest⟩ := by
  obtain ⟨hdigit, hpoint⟩ := TokenKind.number_endsAt_iff.mp hends
  cases hcs with
  | whole _ hds => exact scanNumber_whole hds hdigit hpoint
  | fraction _ hds hne hes =>
    rw [List.append_assoc, List.cons_append, scanNumber_fraction hds hes hdigit, if_neg hpoint,
      if_neg (by simpa using hne)]

theorem byteLength_braced (cs : List Char) :
    byteLength ('\x7b' :: (cs ++ ['\x7d'])) = byteLength cs + 2 := by
  rw [byteLength_cons, byteLength_append, byteLength_cons, byteLength_nil,
    show '\x7b'.utf8Size = 1 from rfl, show '\x7d'.utf8Size = 1 from rfl]
  omega

theorem scanIdentifier_of_name {c : Char} (hc : startsIdentifier c = true)
    (hcs : ∀ d ∈ cs, continuesIdentifier d = true) :
    scanIdentifier ⟨n, '\x7b' :: (c :: cs ++ ['\x7d']) ++ rest⟩ =
      (.ok ⟨.identifier, .ofList (c :: cs), .between (n + 1) (n + 1 + byteLength (c :: cs))⟩,
        ⟨n + 1 + byteLength (c :: cs) + 1, rest⟩) := by
  have hname := forall_continuesIdentifier hc hcs
  have hbrace : ∀ d ∈ ('\x7d' :: rest).head?, continuesIdentifier d = false := by
    rintro d ⟨⟩
    decide
  have hchars : '\x7b' :: (c :: cs ++ ['\x7d']) ++ rest =
      '\x7b' :: (c :: cs ++ '\x7d' :: rest) := by
    simp
  rw [hchars, scanIdentifier]
  dsimp only
  rw [advance_cons, skip_append hname hbrace, run_append hname hbrace, peek?_mk, peek?_mk,
    if_pos (by simpa using hc), if_pos (by rfl)]
  rfl

theorem scanName_of_name (hcs : ∀ d ∈ cs, continuesName d = true)
    (hcontains : registry.contains (.ofList (cs.map Char.toUpper)) = true)
    (hends : TokenKind.function.EndsAt rest) :
    scanName registry ⟨n, cs ++ rest⟩ =
      accept .function (cs.map Char.toUpper) ⟨n, cs ++ rest⟩ ⟨n + byteLength cs, rest⟩ := by
  rw [scanName]
  dsimp only
  rw [run_append hcs hends, skip_append hcs hends, if_pos hcontains]

/-! ### What the first character decides -/

theorem scanLexeme_of_isDigit {c : Char} (hc : c.isDigit = true) (start : TextCursor) :
    scanLexeme registry c start = scanNumber start :=
  if_pos hc

theorem scanLexeme_brace (start : TextCursor) :
    scanLexeme registry '\x7b' start = scanIdentifier start :=
  rfl

theorem scanLexeme_of_isAlpha {c : Char} (hc : c.isAlpha = true) (start : TextCursor) :
    scanLexeme registry c start = scanName registry start := by
  have hne : ∀ d : Char, d.isAlpha = false → c ≠ d := by
    rintro d hd rfl
    rw [hd] at hc
    cases hc
  rw [scanLexeme, if_neg (by rw [isDigit_eq_false_of_isAlpha hc]; decide), if_neg (hne '!' rfl),
    if_neg (hne '>' rfl), if_neg (hne '<' rfl), if_neg (hne '\x7b' rfl), if_pos hc]

theorem scanLexeme_of_foreign {c : Char} (hc : Foreign c) (start : TextCursor) :
    scanLexeme registry c start = stopAt (.unrecognized c) start := by
  have hoperator {d : Char} {kind : TokenKind} (h : (d, kind) ∈ openOperators) : c ≠ d := by
    rintro rfl
    exact hc.operator kind h
  have hnot : c ≠ '!' := hoperator (.head _)
  have hgreater : c ≠ '>' := hoperator (.tail _ (.head _))
  have hless : c ≠ '<' := hoperator (.tail _ (.tail _ (.head _)))
  rw [scanLexeme, if_neg (by rw [hc.digit]; decide), if_neg hnot, if_neg hgreater, if_neg hless,
    if_neg hc.brace, if_neg (by rw [hc.alpha]; decide), hc.symbol]

/-- A character that a lexeme starts with, and what is scanned from there on. -/
theorem scanLexeme_of_lexeme {c : Char} (h : Lexeme registry kind text (c :: cs))
    (hends : kind.EndsAt rest) :
    scanLexeme registry c ⟨n, c :: cs ++ rest⟩ =
      (.ok ⟨kind, text, lexemeSpan kind n (c :: cs)⟩, ⟨n + byteLength (c :: cs), rest⟩) := by
  generalize hchars : c :: cs = chars at h
  cases h with
  | @symbol c' _ h =>
    obtain ⟨rfl, rfl⟩ := List.cons.inj hchars
    unfold TokenKind.ofSymbol? at h
    split at h <;> cases h <;> rfl
  | @openOperator c' _ h =>
    obtain ⟨rfl, rfl⟩ := List.cons.inj hchars
    have hequals : kind.extendedBy '=' = true → rest.head? ≠ some '=' := by
      intro hext heq
      rw [hends '=' heq] at hext
      cases hext
    simp only [openOperators, List.mem_cons, List.not_mem_nil, or_false, Prod.mk.injEq] at h
    obtain ⟨rfl, rfl⟩ | ⟨rfl, rfl⟩ | ⟨rfl, rfl⟩ := h
    all_goals
      have hpeek := hequals rfl
      simp [scanLexeme, scanWithEquals, hpeek, accept, lexemeSpan, Char.isDigit]
  | @closedOperator c' _ h =>
    obtain ⟨rfl, rfl⟩ := List.cons.inj hchars
    simp only [closedOperators, List.mem_cons, List.not_mem_nil, or_false, Prod.mk.injEq] at h
    obtain ⟨rfl, rfl⟩ | ⟨rfl, rfl⟩ | ⟨rfl, rfl⟩ := h
    all_goals rfl
  | number hnumeral hread =>
    subst hchars
    rw [scanLexeme_of_isDigit hnumeral.isDigit_head, scanNumber_of_numeral hnumeral hends,
      finishNumber, hread]
    rfl
  | @identifier d ds hd hds =>
    obtain ⟨rfl, rfl⟩ := List.cons.inj hchars
    rw [scanLexeme_brace, scanIdentifier_of_name hd hds, lexemeSpan, if_pos rfl, byteLength_braced,
      show n + (byteLength (d :: ds) + 2) - 1 = n + 1 + byteLength (d :: ds) by omega,
      show n + (byteLength (d :: ds) + 2) = n + 1 + byteLength (d :: ds) + 1 by omega]
  | function hc hcs hcontains =>
    obtain ⟨rfl, rfl⟩ := List.cons.inj hchars
    rw [scanLexeme_of_isAlpha hc, scanName_of_name (forall_continuesName hc hcs) hcontains hends]
    rfl

/-! ## From a malformed lexeme to its error -/

variable {c : Char} {tail : List Char} {t : Token} {e : LexicalError}

theorem scanIdentifier_of_badStart (h : ∀ c ∈ rest.head?, startsIdentifier c = false) :
    scanIdentifier ⟨n, '\x7b' :: rest⟩ = stopAt (.badIdentifierStart rest.head?) ⟨n + 1, rest⟩ := by
  have hstart : ¬ rest.head?.any startsIdentifier = true := by
    rw [Option.any_eq_true]
    rintro ⟨c, hc, hstarts⟩
    rw [h c hc] at hstarts
    cases hstarts
  rw [scanIdentifier]
  dsimp only
  rw [advance_cons, peek?_mk, if_neg hstart]
  rfl

theorem scanIdentifier_of_missingBrace (hc : startsIdentifier c = true)
    (hcs : ∀ d ∈ cs, continuesIdentifier d = true)
    (hrest : ∀ d ∈ rest.head?, continuesIdentifier d = false) (hbrace : rest.head? ≠ some '\x7d') :
    scanIdentifier ⟨n, '\x7b' :: (c :: cs ++ rest)⟩ =
      stopAt (.missingBrace rest.head?) ⟨n + 1 + byteLength (c :: cs), rest⟩ := by
  have hname := forall_continuesIdentifier hc hcs
  rw [scanIdentifier]
  dsimp only
  rw [advance_cons, skip_append hname hrest, peek?_mk, peek?_mk, if_pos (by simpa using hc),
    if_neg hbrace]
  rfl

theorem scanLexeme_of_malformed (h : Malformed registry n (c :: tail) e) :
    (scanLexeme registry c ⟨n, c :: tail⟩).1 = .error e := by
  generalize hchars : c :: tail = chars at h ⊢
  -- Three of the faults are about numbers, which are told by their first character.
  have hdigit {ds tail' : List Char} (hne : ds ≠ []) (hds : ∀ d ∈ ds, d.isDigit = true)
      (heq : c :: tail = ds ++ tail') : c.isDigit = true := by
    obtain ⟨d, ds, rfl⟩ := List.exists_cons_of_ne_nil hne
    obtain ⟨rfl, -⟩ := List.cons.inj heq
    exact hds c List.mem_cons_self
  cases h with
  | unrecognized hc =>
    obtain ⟨rfl, rfl⟩ := List.cons.inj hchars
    rw [scanLexeme_of_foreign hc]
    rfl
  | @secondPoint _ _ rest hne hds hes =>
    have hdot : ∀ d ∈ ('.' :: rest).head?, d.isDigit = false := by
      rintro d ⟨⟩
      rfl
    rw [scanLexeme_of_isDigit (hdigit hne hds hchars), scanNumber_fraction hds hes hdot,
      if_pos (by rfl)]
    rfl
  | @missingFraction ds rest hne hds hends =>
    obtain ⟨hdigit', hpoint⟩ := TokenKind.number_endsAt_iff.mp hends
    have hscan : scanNumber ⟨n, ds ++ '.' :: ([] ++ rest)⟩ = _ :=
      scanNumber_fraction hds (List.forall_mem_nil _) hdigit'
    rw [scanLexeme_of_isDigit (hdigit hne hds hchars), ← List.nil_append rest, hscan, if_neg hpoint,
      if_pos (by rfl), byteLength_append, byteLength_cons]
    rfl
  | outOfRange hcs hread hends =>
    obtain ⟨d, ds, rfl⟩ := List.exists_cons_of_ne_nil hcs.ne_nil
    obtain ⟨rfl, rfl⟩ := List.cons.inj hchars
    rw [scanLexeme_of_isDigit hcs.isDigit_head, scanNumber_of_numeral hcs hends, finishNumber,
      hread]
  | badIdentifierStart hstart =>
    obtain ⟨rfl, rfl⟩ := List.cons.inj hchars
    rw [scanLexeme_brace, scanIdentifier_of_badStart hstart]
    rfl
  | missingBrace hd hds hrest hbrace =>
    obtain ⟨rfl, rfl⟩ := List.cons.inj hchars
    rw [scanLexeme_brace, scanIdentifier_of_missingBrace hd hds hrest hbrace]
    rfl
  | unknownFunction hc hcs hends hcontains =>
    obtain ⟨rfl, rfl⟩ := List.cons.inj hchars
    have hname := forall_continuesName hc hcs
    rw [scanLexeme_of_isAlpha hc, scanName]
    dsimp only
    rw [run_append hname hends, skip_append hname hends, if_neg (by rw [hcontains]; decide)]

/-! ## Behind blanks -/

variable {blanks : List Char} {cursor next : TextCursor}

theorem scanToken_of_lexeme (hblanks : ∀ b ∈ blanks, isBlank b = true)
    (h : Lexeme registry kind text cs) (hends : kind.EndsAt rest) :
    scanToken registry ⟨n, blanks ++ (cs ++ rest)⟩ =
      (.ok ⟨kind, text, lexemeSpan kind (n + byteLength blanks) cs⟩,
        ⟨n + byteLength (blanks ++ cs), rest⟩) := by
  have hhead := h.isBlank_head rest
  obtain ⟨c, cs, rfl, -⟩ := h.exists_cons
  rw [scanToken, skip_append hblanks hhead, peek?_mk, List.cons_append, List.head?_cons]
  dsimp only
  rw [← List.cons_append, scanLexeme_of_lexeme h hends, byteLength_append, Nat.add_assoc]

theorem scanToken_of_blanks (hblanks : ∀ b ∈ blanks, isBlank b = true) :
    scanToken registry ⟨n, blanks⟩ =
      (.ok (.endAt (.ofNat (n + byteLength blanks))), ⟨n + byteLength blanks, []⟩) := by
  have hskip : (TextCursor.mk n (blanks ++ [])).skip isBlank = _ := skip_append hblanks (by simp)
  rw [List.append_nil] at hskip
  rw [scanToken, hskip]
  rfl

theorem scanToken_of_malformed (hblanks : ∀ b ∈ blanks, isBlank b = true)
    (h : Malformed registry (n + byteLength blanks) rest e) :
    (scanToken registry ⟨n, blanks ++ rest⟩).1 = .error e := by
  have hhead := h.isBlank_head
  obtain ⟨c, tail, rfl, -⟩ := h.exists_cons
  rw [scanToken, skip_append hblanks hhead, peek?_mk, List.head?_cons]
  exact scanLexeme_of_malformed h

/-- At every cursor stand blanks and nothing else, or blanks and a lexeme, or blanks and a malformed
lexeme. -/
theorem lexeme_or_malformed_ahead (registry : Registry) (cursor : TextCursor) :
    (∀ b ∈ cursor.rest, isBlank b = true) ∨
      (∃ blanks kind text cs rest, cursor.rest = blanks ++ (cs ++ rest) ∧
        (∀ b ∈ blanks, isBlank b = true) ∧ Lexeme registry kind text cs ∧ kind.EndsAt rest) ∨
      ∃ blanks rest e, cursor.rest = blanks ++ rest ∧ (∀ b ∈ blanks, isBlank b = true) ∧
        Malformed registry (cursor.position + byteLength blanks) rest e := by
  obtain ⟨blanks, rest, hrest, hblanks, hhead⟩ := exists_longest_run isBlank cursor.rest
  rw [hrest]
  cases rest with
  | nil =>
    left
    rwa [List.append_nil]
  | cons c tail =>
    right
    rcases startsLexeme_or_malformed registry (cursor.position + byteLength blanks) (hhead c rfl)
      tail with ⟨kind, text, cs, rest, rfl, hlex, hends⟩ | ⟨e, he⟩
    · exact .inl ⟨blanks, kind, text, c :: cs, rest, rfl, hblanks, hlex, hends⟩
    · exact .inr ⟨blanks, c :: tail, e, rfl, hblanks, he⟩

/-- A token is scanned exactly where blanks and a lexeme stand that ends behind them. -/
theorem scanToken_eq_iff : scanToken registry cursor = (.ok t, next) ∧ t.isEnd = false ↔
    ∃ blanks cs, cursor.rest = blanks ++ (cs ++ next.rest) ∧ (∀ b ∈ blanks, isBlank b = true) ∧
      Lexeme registry t.kind t.text cs ∧ t.kind.EndsAt next.rest ∧
      t.span = lexemeSpan t.kind (cursor.position + byteLength blanks) cs ∧
      next.position = cursor.position + byteLength (blanks ++ cs) := by
  obtain ⟨n, chars⟩ := cursor
  constructor
  · rintro ⟨h, hend⟩
    rcases lexeme_or_malformed_ahead registry ⟨n, chars⟩ with
      hblanks | ⟨blanks, kind, text, cs, rest, rfl, hblanks, hlex, hends⟩ |
      ⟨blanks, rest, e, rfl, hblanks, he⟩
    · rw [scanToken_of_blanks hblanks] at h
      cases h
      cases hend
    · rw [scanToken_of_lexeme hblanks hlex hends] at h
      cases h
      exact ⟨blanks, cs, rfl, hblanks, hlex, hends, rfl, rfl⟩
    · cases (scanToken_of_malformed hblanks he).symm.trans (congrArg Prod.fst h)
  · rintro ⟨blanks, cs, hrest, hblanks, hlex, hends, hspan, hposition⟩
    obtain ⟨kind, text, span⟩ := t
    obtain ⟨position, rest⟩ := next
    dsimp only at hrest hlex hends hspan hposition
    subst hrest hspan hposition
    exact ⟨scanToken_of_lexeme hblanks hlex hends,
      Token.isEnd_eq_false_iff.mpr hlex.kind_ne_endOfInput⟩

theorem scanToken_isEnd_iff : scanToken registry cursor = (.ok t, next) ∧ t.isEnd = true ↔
    (∀ b ∈ cursor.rest, isBlank b = true) ∧
      next = ⟨cursor.position + byteLength cursor.rest, []⟩ ∧
      t = .endAt (.ofNat next.position) := by
  obtain ⟨n, chars⟩ := cursor
  constructor
  · rintro ⟨h, hend⟩
    rcases lexeme_or_malformed_ahead registry ⟨n, chars⟩ with
      hblanks | ⟨blanks, kind, text, cs, rest, rfl, hblanks, hlex, hends⟩ |
      ⟨blanks, rest, e, rfl, hblanks, he⟩
    · rw [scanToken_of_blanks hblanks] at h
      cases h
      exact ⟨hblanks, rfl, rfl⟩
    · rw [scanToken_of_lexeme hblanks hlex hends] at h
      cases h
      exact absurd (Token.isEnd_iff.mp hend) hlex.kind_ne_endOfInput
    · cases (scanToken_of_malformed hblanks he).symm.trans (congrArg Prod.fst h)
  · rintro ⟨hblanks, rfl, rfl⟩
    exact ⟨scanToken_of_blanks hblanks, rfl⟩

theorem scanToken_eq_error_iff : (scanToken registry cursor).1 = .error e ↔
    ∃ blanks rest, cursor.rest = blanks ++ rest ∧ (∀ b ∈ blanks, isBlank b = true) ∧
      Malformed registry (cursor.position + byteLength blanks) rest e := by
  obtain ⟨n, chars⟩ := cursor
  constructor
  · intro h
    rcases lexeme_or_malformed_ahead registry ⟨n, chars⟩ with
      hblanks | ⟨blanks, kind, text, cs, rest, rfl, hblanks, hlex, hends⟩ |
      ⟨blanks, rest, e', rfl, hblanks, he⟩
    · rw [scanToken_of_blanks hblanks] at h
      cases h
    · rw [scanToken_of_lexeme hblanks hlex hends] at h
      cases h
    · cases h.symm.trans (scanToken_of_malformed hblanks he)
      exact ⟨blanks, rest, rfl, hblanks, he⟩
  · rintro ⟨blanks, rest, rfl, hblanks, he⟩
    exact scanToken_of_malformed hblanks he

end Lexer

end DecimalFormula
