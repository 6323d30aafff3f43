import DecimalFormula.Proofs.Scanning.Coverage

/-!
# Scanning goes on

A scanner that is asked for a token moves over some characters, and never back. There are two places
where it may stay where it is: at the end of the text, and at a character that no lexeme starts
with. It stays there whenever it is asked again, and gives the same answer
(`Lexer.scanToken_comes_to`). Behind everything else that is wrong with a lexeme it has moved, if
only over the first character of that lexeme, and goes on from there.
-/

namespace DecimalFormula

/-! ## Passing characters -/

namespace TextCursor

/-- Between two places in a text stand these characters. -/
structure Passes (c : TextCursor) (cs : List Char) (c' : TextCursor) : Prop where
  /-- They come first in what is left of the text. -/
  rest_eq : c.rest = cs ++ c'.rest
  /-- The position moves by their bytes. -/
  position_eq : c'.position = c.position + byteLength cs

/-- The second place lies behind the first one. -/
def Gains (c c' : TextCursor) : Prop := ∃ cs, cs ≠ [] ∧ c.Passes cs c'

variable {c c' c'' : TextCursor} {cs ds : List Char} {char : Char} {p : Char → Bool}

namespace Passes

theorem refl (c : TextCursor) : c.Passes [] c := ⟨rfl, rfl⟩

theorem trans (h : c.Passes cs c') (h' : c'.Passes ds c'') : c.Passes (cs ++ ds) c'' := by
  constructor
  · rw [h.rest_eq, h'.rest_eq, List.append_assoc]
  · rw [h'.position_eq, h.position_eq, byteLength_append, Nat.add_assoc]

theorem position_le (h : c.Passes cs c') : c.position ≤ c'.position := by
  rw [h.position_eq]
  exact Nat.le_add_right _ _

end Passes

theorem Passes.trans_gains (h : c.Passes cs c') (h' : c'.Gains c'') : c.Gains c'' := by
  obtain ⟨ds, hne, hpass⟩ := h'
  exact ⟨cs ++ ds, List.append_ne_nil_of_right_ne_nil cs hne, h.trans hpass⟩

theorem passes_advance (c : TextCursor) : c.Passes (c.rest.take 1) c.advance := by
  obtain ⟨n, rest⟩ := c
  cases rest with
  | nil => exact .refl _
  | cons ch rest => exact ⟨rfl, rfl⟩

theorem passes_skip (p : Char → Bool) (c : TextCursor) : c.Passes (c.run p) (c.skip p) :=
  ⟨(run_append_skip p c).symm, rfl⟩

namespace Gains

theorem position_lt (h : c.Gains c') : c.position < c'.position := by
  obtain ⟨cs, hne, hpass⟩ := h
  rw [hpass.position_eq]
  exact Nat.lt_add_of_pos_right (byteLength_pos hne)

theorem trans_passes (h : c.Gains c') (h' : c'.Passes ds c'') : c.Gains c'' := by
  obtain ⟨cs, hne, hpass⟩ := h
  exact ⟨cs ++ ds, List.append_ne_nil_of_left_ne_nil hne ds, hpass.trans h'⟩

end Gains

theorem gains_advance (h : c.peek? = some char) : c.Gains c.advance := by
  obtain ⟨n, rest⟩ := c
  obtain ⟨rest, rfl⟩ := List.head?_eq_some_iff.mp h
  exact ⟨[char], List.cons_ne_nil _ _, passes_advance _⟩

theorem gains_skip (h : c.peek? = some char) (hp : p char = true) : c.Gains (c.skip p) := by
  obtain ⟨n, rest⟩ := c
  obtain ⟨rest, rfl⟩ := List.head?_eq_some_iff.mp h
  refine ⟨_, ?_, passes_skip p _⟩
  rw [run, List.takeWhile_cons_of_pos hp]
  exact List.cons_ne_nil _ _

theorem skip_skip (p : Char → Bool) (c : TextCursor) : (c.skip p).skip p = c.skip p := by
  obtain ⟨n, rest⟩ := c
  rw [skip, skip, run, run]
  have hnot := List.head?_dropWhile_not p rest
  cases hrest : rest.dropWhile p with
  | nil => rfl
  | cons ch behind =>
    rw [hrest] at hnot
    have hch : ¬ p ch = true := by simpa using hnot
    rw [List.takeWhile_cons_of_neg hch, List.dropWhile_cons_of_neg hch]
    rfl

end TextCursor

namespace Lexer

open TextCursor

/-! ## Moving and staying -/

/-- An answer behind which a scanner stays where it is: the end of input, or a complaint about a
character that no lexeme starts with. -/
def Halts : Except LexicalError Token → Prop
  | .ok t => t.isEnd = true
  | .error e => ∃ c, e.cause = .unrecognized c

/-- The scanner has moved, and its answer does not keep it there. -/
structure Moves (start : TextCursor) (s : Scanned) : Prop where
  /-- The cursor lies behind the start. -/
  gains : start.Gains s.2
  /-- The answer is neither the end of input nor about an unrecognized character. -/
  goes_on : ¬ Halts s.1

variable {registry : Registry} {start stop : TextCursor} {char : Char}

theorem accept_moves {kind : TokenKind} {text : List Char} (h : start.Gains stop)
    (hkind : kind ≠ .endOfInput) : Moves start (accept kind text start stop) := by
  refine ⟨h, fun hend ↦ hkind ?_⟩
  exact Token.isEnd_iff.mp hend

theorem error_moves {cause : LexicalCause} {span : Span} (h : start.Gains stop)
    (hcause : ∀ c, cause ≠ .unrecognized c) : Moves start (.error ⟨cause, span⟩, stop) := by
  refine ⟨h, ?_⟩
  rintro ⟨c, hc⟩
  exact hcause c hc

theorem finishNumber_moves {text : List Char} (h : start.Gains stop) :
    Moves start (finishNumber text start stop) := by
  rw [finishNumber]
  cases Decimal.read? (.ofList text) with
  | some d => exact accept_moves h (by decide)
  | none => exact error_moves h (by simp)

theorem scanNumber_moves (h : start.peek? = some char) (hdigit : char.isDigit = true) :
    Moves start (scanNumber start) := by
  have hwhole : start.Gains (start.skip Char.isDigit) := gains_skip h hdigit
  have hfraction := (hwhole.trans_passes (passes_advance _)).trans_passes
    (passes_skip Char.isDigit _)
  rw [scanNumber]
  dsimp only
  split
  · split
    · exact error_moves hfraction (by simp)
    split
    · exact error_moves hfraction (by simp)
    · exact finishNumber_moves hfraction
  · exact finishNumber_moves hwhole

theorem scanWithEquals_moves {single double : TokenKind} (h : start.peek? = some char)
    (hsingle : single ≠ .endOfInput) (hdouble : double ≠ .endOfInput) :
    Moves start (scanWithEquals single double char start) := by
  have hadvance := gains_advance h
  rw [scanWithEquals]
  split
  · exact accept_moves (hadvance.trans_passes (passes_advance _)) hdouble
  · exact accept_moves hadvance hsingle

theorem scanIdentifier_moves (h : start.peek? = some char) :
    Moves start (scanIdentifier start) := by
  have hbrace := gains_advance h
  have hname := hbrace.trans_passes (passes_skip continuesIdentifier _)
  rw [scanIdentifier]
  dsimp only
  split
  · split
    · refine ⟨hname.trans_passes (passes_advance _), fun hend ↦ ?_⟩
      cases hend
    · exact error_moves hname (by simp)
  · exact error_moves hbrace (by simp)

theorem scanName_moves (h : start.peek? = some char) (halpha : char.isAlpha = true) :
    Moves start (scanName registry start) := by
  have hname : start.Gains (start.skip continuesName) := by
    refine gains_skip h ?_
    rw [continuesName, halpha, Bool.true_or]
  rw [scanName]
  split
  · exact accept_moves hname (by decide)
  · exact error_moves hname (by simp)

theorem scanLexeme_moves_or_stops (h : start.peek? = some char) :
    Moves start (scanLexeme registry char start) ∨
      scanLexeme registry char start = stopAt (.unrecognized char) start := by
  rw [scanLexeme]
  split
  · next hdigit => exact .inl (scanNumber_moves h hdigit)
  split
  · exact .inl (scanWithEquals_moves h (by decide) (by decide))
  split
  · exact .inl (scanWithEquals_moves h (by decide) (by decide))
  split
  · exact .inl (scanWithEquals_moves h (by decide) (by decide))
  split
  · exact .inl (scanIdentifier_moves h)
  split
  · next halpha => exact .inl (scanName_moves h halpha)
  cases hsymbol : TokenKind.ofSymbol? char with
  | some kind =>
    refine .inl (accept_moves (gains_advance h) ?_)
    rintro rfl
    cases (TokenKind.of_symbol hsymbol).1
  | none => exact .inr rfl

/-! ## One token -/

/-- What asking for a token comes to. -/
inductive ComesTo (c : TextCursor) : Scanned → Prop
  /-- Behind blanks the text has ended. -/
  | atEnd : (c.skip isBlank).peek? = none →
    ComesTo c (.ok (.endAt (.ofNat (c.skip isBlank).position)), c.skip isBlank)
  /-- Behind blanks stands a character that no lexeme starts with. -/
  | atForeign {char : Char} : (c.skip isBlank).peek? = some char →
    ComesTo c (stopAt (.unrecognized char) (c.skip isBlank))
  /-- The scanner has moved. -/
  | moved {s} : Moves c s → ComesTo c s

variable {c : TextCursor}

theorem scanToken_comes_to (registry : Registry) (c : TextCursor) :
    ComesTo c (scanToken registry c) := by
  rw [scanToken]
  cases hpeek : (c.skip isBlank).peek? with
  | none => exact .atEnd hpeek
  | some char =>
    rcases scanLexeme_moves_or_stops hpeek with hmoves | hstops
    · exact .moved ⟨(passes_skip isBlank c).trans_gains hmoves.gains, hmoves.goes_on⟩
    · dsimp only
      rw [hstops]
      exact .atForeign hpeek

theorem exists_passes_scanToken (registry : Registry) (c : TextCursor) :
    ∃ cs, c.Passes cs (scanToken registry c).2 := by
  have hcomes := scanToken_comes_to registry c
  generalize scanToken registry c = s at hcomes ⊢
  cases hcomes with
  | atEnd => exact ⟨_, passes_skip isBlank c⟩
  | atForeign => exact ⟨_, passes_skip isBlank c⟩
  | moved hmoves =>
    obtain ⟨cs, -, hpass⟩ := hmoves.gains
    exact ⟨cs, hpass⟩

theorem gains_or_halts (registry : Registry) (c : TextCursor) :
    c.Gains (scanToken registry c).2 ∨ Halts (scanToken registry c).1 := by
  have hcomes := scanToken_comes_to registry c
  generalize scanToken registry c = s at hcomes ⊢
  cases hcomes with
  | atEnd => exact .inr rfl
  | atForeign => exact .inr ⟨_, rfl⟩
  | moved hmoves => exact .inl hmoves.gains

/-- A scanner that stays stands behind the blanks, at the end or at the character it is about. -/
theorem scanToken_of_halts (h : Halts (scanToken registry c).1) :
    (scanToken registry c).2 = c.skip isBlank ∧
      ((c.skip isBlank).peek? = none ∧
          (scanToken registry c).1 = .ok (.endAt (.ofNat (c.skip isBlank).position)) ∨
        ∃ char, (c.skip isBlank).peek? = some char ∧
          (scanToken registry c).1 = .error ⟨.unrecognized char, (c.skip isBlank).here⟩) := by
  have hcomes := scanToken_comes_to registry c
  generalize scanToken registry c = s at hcomes h ⊢
  cases hcomes with
  | atEnd hpeek => exact ⟨rfl, .inl ⟨hpeek, rfl⟩⟩
  | atForeign hpeek => exact ⟨rfl, .inr ⟨_, hpeek, rfl⟩⟩
  | moved hmoves => exact absurd h hmoves.goes_on

/-- It gives the same answer again. -/
theorem scanToken_again (h : Halts (scanToken registry c).1) :
    scanToken registry (scanToken registry c).2 = scanToken registry c := by
  rw [(scanToken_of_halts h).1, scanToken, skip_skip]
  rfl

end Lexer

end DecimalFormula
