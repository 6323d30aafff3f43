import DecimalFormula.Proofs.Scanning.Run

/-!
# The lexical grammar

A formula is a row of pieces, lexemes with blanks in front of them, and perhaps blanks behind the
last. A lexeme must end where the next piece starts, so there is one way at most to take a formula
apart. The scanner takes it apart in that way and answers with the tokens of the pieces; if there is
none, it takes apart what comes before the first malformed lexeme, and answers with the error of
that (`Lexer.scan_follows_grammar`).
-/

namespace DecimalFormula

/-! ## Pieces -/

/-- A lexeme with the blanks in front of it, and what token it is. -/
structure Piece where
  /-- The blanks. -/
  blanks : List Char
  /-- The kind of the token. -/
  kind : TokenKind
  /-- The text of the token. -/
  text : String
  /-- The characters of the lexeme. -/
  lexeme : List Char
deriving DecidableEq, Repr

namespace Piece

/-- The characters of a piece. -/
def chars (p : Piece) : List Char := p.blanks ++ p.lexeme

/-- The token of a piece that starts at an offset. -/
def token (p : Piece) (n : Nat) : Token :=
  ⟨p.kind, p.text, lexemeSpan p.kind (n + byteLength p.blanks) p.lexeme⟩

/-- A piece is in order in front of these characters. -/
structure Stands (registry : Registry) (p : Piece) (rest : List Char) : Prop where
  /-- The blanks are blanks. -/
  blank : ∀ b ∈ p.blanks, isBlank b = true
  /-- The lexeme is one, and this token. -/
  lexeme : Lexeme registry p.kind p.text p.lexeme
  /-- It does not go on in what follows. -/
  ends : p.kind.EndsAt rest

end Piece

/-- The characters of pieces in a row. -/
def spelling (pieces : List Piece) : List Char := pieces.flatMap Piece.chars

theorem spelling_cons (p : Piece) (ps : List Piece) : spelling (p :: ps) = p.chars ++ spelling ps :=
  List.flatMap_cons

/-- The tokens of pieces in a row that starts at an offset. -/
def tokensAt : Nat → List Piece → List Token
  | _, [] => []
  | n, p :: ps => p.token n :: tokensAt (n + byteLength p.chars) ps

/-- Pieces are in order in a row in front of these characters. -/
inductive Row (registry : Registry) (rest : List Char) : List Piece → Prop
  | nil : Row registry rest []
  | cons {p ps} : p.Stands registry (spelling ps ++ rest) → Row registry rest ps →
    Row registry rest (p :: ps)

/-- A formula consists of a row of pieces, blanks, and something left over. -/
structure Split (registry : Registry) (formula : String) (pieces : List Piece)
    (blanks rest : List Char) : Prop where
  /-- Together these are the formula. -/
  chars : formula.toList = spelling pieces ++ (blanks ++ rest)
  /-- The pieces are in order. -/
  row : Row registry (blanks ++ rest) pieces
  /-- The blanks are blanks. -/
  blank : ∀ b ∈ blanks, isBlank b = true

/-- What is left over of a formula starts with a malformed lexeme. -/
structure Refusal (registry : Registry) (formula : String) (pieces : List Piece)
    (blanks rest : List Char) (e : LexicalError) : Prop
    extends Split registry formula pieces blanks rest where
  /-- The lexeme and what is wrong with it. -/
  malformed : Malformed registry (byteLength (spelling pieces) + byteLength blanks) rest e

namespace Lexer

open TextCursor

variable {registry : Registry} {formula : String} {c c' next : TextCursor} {t : Token}
  {ts tokens : List Token} {p q : Piece} {pieces ps qs : List Piece} {n m : Nat}
  {blanks blanks' rest rest' : List Char} {e e' : LexicalError}

/-! ## Scanning takes a formula apart -/

theorem scanToken_of_stands (h : p.Stands registry rest) : scanToken registry ⟨n, p.chars ++ rest⟩ =
    (.ok (p.token n), ⟨n + byteLength p.chars, rest⟩) := by
  rw [Piece.chars, List.append_assoc]
  exact scanToken_of_lexeme h.blank h.lexeme h.ends

theorem isEnd_token_of_stands (h : p.Stands registry rest) : (p.token n).isEnd = false :=
  Token.isEnd_eq_false_iff.mpr h.lexeme.kind_ne_endOfInput

theorem exists_piece_of_scanToken (h : scanToken registry c = (.ok t, next))
    (hend : t.isEnd = false) : ∃ p : Piece, c.rest = p.chars ++ next.rest ∧
      p.Stands registry next.rest ∧ t = p.token c.position ∧
      next.position = c.position + byteLength p.chars := by
  obtain ⟨blanks, cs, hrest, hblanks, hlex, hends, hspan, hposition⟩ :=
    scanToken_eq_iff.mp ⟨h, hend⟩
  obtain ⟨kind, text, span⟩ := t
  refine ⟨⟨blanks, kind, text, cs⟩, ?_, ⟨hblanks, hlex, hends⟩, ?_, hposition⟩
  · rw [hrest, Piece.chars, List.append_assoc]
  · rw [Piece.token, ← hspan]

/-- Scanning one token after the other is taking the text apart, piece by piece. -/
theorem lexes_iff : Lexes registry c ts c' ↔ ∃ ps, c.rest = spelling ps ++ c'.rest ∧
    Row registry c'.rest ps ∧ ts = tokensAt c.position ps ∧
    c'.position = c.position + byteLength (spelling ps) := by
  constructor
  · intro h
    induction h with
    | nil => exact ⟨[], rfl, .nil, rfl, rfl⟩
    | cons hscan hend _ ih =>
      obtain ⟨p, hrest, hstands, rfl, hposition⟩ := exists_piece_of_scanToken hscan hend
      obtain ⟨ps, hrest', hrow, rfl, hposition'⟩ := ih
      refine ⟨p :: ps, ?_, .cons (hrest' ▸ hstands) hrow, ?_, ?_⟩
      · rw [hrest, hrest', spelling_cons, List.append_assoc]
      · rw [hposition, tokensAt]
      · rw [hposition', hposition, spelling_cons, byteLength_append, Nat.add_assoc]
  · rintro ⟨ps, hrest, hrow, rfl, hposition⟩
    obtain ⟨n, chars⟩ := c
    obtain ⟨m, rest⟩ := c'
    dsimp only at hrest hrow hposition
    subst hrest hposition
    induction hrow generalizing n with
    | nil => exact .nil
    | @cons p ps hstands _ ih =>
      rw [spelling_cons, byteLength_append, ← Nat.add_assoc, List.append_assoc]
      exact .cons (scanToken_of_stands hstands) (isEnd_token_of_stands hstands) (ih _)

/-! ## There is one way at most -/

theorem blanks_unique (hblanks : ∀ b ∈ blanks, isBlank b = true)
    (hblanks' : ∀ b ∈ blanks', isBlank b = true) (hrest : ∀ b ∈ rest.head?, isBlank b = false)
    (hrest' : ∀ b ∈ rest'.head?, isBlank b = false) (heq : blanks ++ rest = blanks' ++ rest') :
    blanks = blanks' ∧ rest = rest' := by
  have hrun : (TextCursor.mk 0 (blanks ++ rest)).run isBlank = blanks := run_append hblanks hrest
  rw [heq, run_append hblanks' hrest'] at hrun
  subst hrun
  exact ⟨rfl, List.append_cancel_left heq⟩

/-- What the scanner answers determines the piece. -/
theorem piece_unique (h : p.Stands registry rest) (h' : q.Stands registry rest')
    (heq : p.chars ++ rest = q.chars ++ rest') : p = q ∧ rest = rest' := by
  have hscan := scanToken_of_stands (n := 0) h
  rw [heq, scanToken_of_stands h'] at hscan
  obtain ⟨htoken, hnext⟩ := Prod.mk.inj hscan
  obtain ⟨hkind, htext, -⟩ := Token.mk.inj (Except.ok.inj htoken)
  obtain rfl : rest' = rest := (TextCursor.mk.inj hnext).2
  rw [Piece.chars, Piece.chars, List.append_assoc, List.append_assoc] at heq
  obtain ⟨hblanks, htail⟩ := blanks_unique h.blank h'.blank (h.lexeme.isBlank_head rest')
    (h'.lexeme.isBlank_head rest') heq
  have hlexeme := List.append_cancel_right htail
  obtain ⟨blanks, kind, text, lexeme⟩ := p
  dsimp only at hkind htext hblanks hlexeme
  subst hkind htext hblanks hlexeme
  exact ⟨rfl, rfl⟩

/-- No piece stands at the beginning of these characters. -/
def Stuck (registry : Registry) (rest : List Char) : Prop :=
  ∀ (p : Piece) (behind : List Char), p.Stands registry behind → rest ≠ p.chars ++ behind

theorem stuck_of_blank (hblanks : ∀ b ∈ blanks, isBlank b = true) : Stuck registry blanks := by
  rintro p behind hstands rfl
  have hscan := scanToken_of_stands (n := 0) hstands
  rw [scanToken_of_blanks hblanks] at hscan
  exact hstands.lexeme.kind_ne_endOfInput
    (congrArg Token.kind (Except.ok.inj (Prod.mk.inj hscan).1)).symm

theorem stuck_of_malformed (hblanks : ∀ b ∈ blanks, isBlank b = true)
    (h : Malformed registry (n + byteLength blanks) rest e) : Stuck registry (blanks ++ rest) := by
  intro p behind hstands heq
  have hscan := scanToken_of_malformed hblanks h
  rw [heq, scanToken_of_stands hstands] at hscan
  cases hscan

theorem row_unique (h : Row registry rest ps) (h' : Row registry rest' qs)
    (hstuck : Stuck registry rest) (hstuck' : Stuck registry rest')
    (heq : spelling ps ++ rest = spelling qs ++ rest') : ps = qs ∧ rest = rest' := by
  induction h generalizing qs with
  | nil =>
    cases h' with
    | nil => exact ⟨rfl, heq⟩
    | @cons q qs hq _ =>
      rw [spelling_cons, List.append_assoc] at heq
      exact absurd heq (hstuck q _ hq)
  | @cons p ps hp _ ih =>
    rw [spelling_cons, List.append_assoc] at heq
    cases h' with
    | nil => exact absurd heq.symm (hstuck' p _ hp)
    | @cons q qs hq hqs =>
      rw [spelling_cons, List.append_assoc] at heq
      obtain ⟨rfl, htail⟩ := piece_unique hp hq heq
      obtain ⟨rfl, hrest⟩ := ih hqs htail
      exact ⟨rfl, hrest⟩

/-! ## Whole formulas -/

theorem scan_eq_ok_iff_split : scan registry formula = .ok tokens ↔
    ∃ pieces blanks, Split registry formula pieces blanks [] ∧
      tokens = tokensAt 0 pieces ++ [.endAt (.ofNat (byteLength formula.toList))] := by
  rw [scan_eq_ok_iff]
  constructor
  · rintro ⟨body, ⟨n, blanks⟩, hlexes, hblanks, rfl⟩
    obtain ⟨pieces, hchars, hrow, rfl, -⟩ := lexes_iff.mp hlexes
    rw [← List.append_nil blanks] at hchars hrow
    exact ⟨pieces, blanks, ⟨hchars, hrow, hblanks⟩, rfl⟩
  · rintro ⟨pieces, blanks, ⟨hchars, hrow, hblanks⟩, rfl⟩
    rw [List.append_nil] at hchars hrow
    have hlexes : Lexes registry (.start formula.toList) (tokensAt 0 pieces)
        ⟨byteLength (spelling pieces), blanks⟩ :=
      lexes_iff.mpr ⟨pieces, hchars, hrow, rfl, (Nat.zero_add _).symm⟩
    exact ⟨_, _, hlexes, hblanks, rfl⟩

theorem scan_eq_error_iff_refusal : scan registry formula = .error e ↔
    ∃ pieces blanks rest, Refusal registry formula pieces blanks rest e := by
  simp only [scan_eq_error_iff, scanToken_eq_error_iff]
  constructor
  · rintro ⟨body, ⟨n, _⟩, hlexes, blanks, rest, rfl, hblanks, he⟩
    obtain ⟨pieces, hchars, hrow, -, hposition⟩ := lexes_iff.mp hlexes
    rw [hposition, TextCursor.start, Nat.zero_add] at he
    exact ⟨pieces, blanks, rest, ⟨hchars, hrow, hblanks⟩, he⟩
  · rintro ⟨pieces, blanks, rest, ⟨hchars, hrow, hblanks⟩, he⟩
    have hlexes : Lexes registry (.start formula.toList) (tokensAt 0 pieces)
        ⟨byteLength (spelling pieces), blanks ++ rest⟩ :=
      lexes_iff.mpr ⟨pieces, hchars, hrow, rfl, (Nat.zero_add _).symm⟩
    exact ⟨_, _, hlexes, blanks, rest, rfl, hblanks, he⟩

theorem split_unique (h : Split registry formula ps blanks [])
    (h' : Split registry formula qs blanks' []) : ps = qs ∧ blanks = blanks' := by
  have hstuck {blanks : List Char} (hblanks : ∀ b ∈ blanks, isBlank b = true) :
      Stuck registry (blanks ++ []) := by
    rw [List.append_nil]
    exact stuck_of_blank hblanks
  obtain ⟨hpieces, hblanks⟩ := row_unique h.row h'.row (hstuck h.blank) (hstuck h'.blank)
    (h.chars.symm.trans h'.chars)
  exact ⟨hpieces, List.append_cancel_right hblanks⟩

theorem refusal_unique (h : Refusal registry formula ps blanks rest e)
    (h' : Refusal registry formula qs blanks' rest' e') :
    ps = qs ∧ blanks = blanks' ∧ rest = rest' ∧ e = e' := by
  obtain ⟨hpieces, htail⟩ := row_unique h.row h'.row (stuck_of_malformed h.blank h.malformed)
    (stuck_of_malformed h'.blank h'.malformed) (h.chars.symm.trans h'.chars)
  obtain ⟨hblanks, hrest⟩ := blanks_unique h.blank h'.blank h.malformed.isBlank_head
    h'.malformed.isBlank_head htail
  have herror : scan registry formula = .error e :=
    scan_eq_error_iff_refusal.mpr ⟨ps, blanks, rest, h⟩
  rw [scan_eq_error_iff_refusal.mpr ⟨qs, blanks', rest', h'⟩] at herror
  exact ⟨hpieces, hblanks, hrest, (Except.error.inj herror).symm⟩

/-- **The lexical grammar.** A formula is scanned exactly if it is a row of pieces with blanks
behind it. It is such a row in one way only, and the tokens are those of the pieces, with the end of
input behind them. A formula is refused exactly if pieces and blanks lead up to a malformed lexeme,
and then the answer is what goes wrong first in that lexeme. That, too, happens in one place only.
-/
theorem scan_follows_grammar (registry : Registry) (formula : String) :
    (∀ tokens, scan registry formula = .ok tokens ↔
      ∃ pieces blanks, Split registry formula pieces blanks [] ∧
        tokens = tokensAt 0 pieces ++ [.endAt (.ofNat (byteLength formula.toList))]) ∧
    (∀ pieces blanks pieces' blanks', Split registry formula pieces blanks [] →
      Split registry formula pieces' blanks' [] → pieces = pieces' ∧ blanks = blanks') ∧
    (∀ e, scan registry formula = .error e ↔
      ∃ pieces blanks rest, Refusal registry formula pieces blanks rest e) ∧
    ∀ pieces blanks rest e pieces' blanks' rest' e',
      Refusal registry formula pieces blanks rest e →
      Refusal registry formula pieces' blanks' rest' e' →
      pieces = pieces' ∧ blanks = blanks' ∧ rest = rest' ∧ e = e' := by
  refine ⟨fun tokens ↦ scan_eq_ok_iff_split, ?_, fun e ↦ scan_eq_error_iff_refusal, ?_⟩
  · intro pieces blanks pieces' blanks' h h'
    exact split_unique h h'
  · intro pieces blanks rest e pieces' blanks' rest' e' h h'
    exact refusal_unique h h'

/-- A number is one lexeme with all its digits, and goes wrong where a digit is missing. -/
theorem scan_follows_grammar_numbers :
    (∃ pieces, Split .standard " 12" pieces [] [] ∧
      scan .standard " 12" = .ok [⟨.number, "12", ⟨1, 3⟩⟩, .endAt 3] ∧
      ∀ pieces' blanks', Split .standard " 12" pieces' blanks' [] → pieces' = pieces) ∧
    ∃ rest, Refusal .standard " 1." [] [' '] rest ⟨.missingFraction none, ⟨2, 3⟩⟩ ∧
      scan .standard " 1." = .error ⟨.missingFraction none, ⟨2, 3⟩⟩ ∧
      ∀ pieces' blanks' rest' e', Refusal .standard " 1." pieces' blanks' rest' e' →
        rest' = rest := by
  obtain ⟨haccepts, hunique, -, -⟩ := scan_follows_grammar .standard " 12"
  obtain ⟨-, -, hrefuses, honly⟩ := scan_follows_grammar .standard " 1."
  have hone {p : Char → Bool} {c : Char} (hc : p c = true) : ∀ d ∈ [c], p d = true :=
    List.forall_mem_singleton.mpr hc
  have hlexeme : Lexeme .standard .number "12" ['1', '2'] :=
    .number (d := ⟨false, 12, 0, by decide, by decide⟩)
      (.whole (List.cons_ne_nil _ _) (List.forall_mem_cons.mpr ⟨rfl, hone rfl⟩)) (by decide)
  have hsplit : Split .standard " 12" [⟨[' '], .number, "12", ['1', '2']⟩] [] [] :=
    ⟨rfl, .cons ⟨hone rfl, hlexeme, fun _ h ↦ by cases h⟩ .nil, List.forall_mem_nil _⟩
  have hmalformed : Malformed .standard 1 ['1', '.'] ⟨.missingFraction none, ⟨2, 3⟩⟩ :=
    .missingFraction (List.cons_ne_nil '1' []) (hone rfl) fun _ h ↦ by cases h
  have hrefusal : Refusal .standard " 1." [] [' '] ['1', '.'] ⟨.missingFraction none, ⟨2, 3⟩⟩ :=
    ⟨⟨rfl, .nil, hone rfl⟩, hmalformed⟩
  refine ⟨⟨_, hsplit, ?_, ?_⟩, _, hrefusal, ?_, ?_⟩
  · exact (haccepts _).mpr ⟨_, _, hsplit, rfl⟩
  · exact fun pieces' blanks' h ↦ (hunique _ _ _ _ h hsplit).1
  · exact (hrefuses _).mpr ⟨_, _, _, hrefusal⟩
  · exact fun pieces' blanks' rest' e' h ↦ (honly _ _ _ _ _ _ _ _ h hrefusal).2.2.1

end Lexer

end DecimalFormula
