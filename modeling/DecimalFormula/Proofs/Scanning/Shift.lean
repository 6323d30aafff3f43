import DecimalFormula.Lexer

/-!
# Scanning from the middle of a text

A scanner sees the characters in front of it and the offset of the first of them. The offset decides
nothing: it only goes into the spans of the answers. So what a scanner answers in the middle of a
text is what it would answer at the start of the rest of it, with the spans moved
(`Lexer.scanToken_shift`). Offsets of more than 32 bits make no exception: what is cut off of a sum
is cut off of the sum of the remainders.

Every function of the scanner is shown to commute with moving the cursor. The one place where that
is not obvious is the error about a missing fraction, which counts back to the point: there is a
point in front of the cursor then, so counting back does not come to the start of the text.
-/

namespace DecimalFormula

/-! ## Moving -/

def Token.shift (offset : UInt32) (t : Token) : Token := { t with span := t.span.shift offset }

def LexicalError.shift (offset : UInt32) (e : LexicalError) : LexicalError :=
  { e with span := e.span.shift offset }

namespace TextCursor

def shift (offset : Nat) (c : TextCursor) : TextCursor := ⟨c.position + offset, c.rest⟩

variable (n : Nat) (c : TextCursor) (p : Char → Bool)

@[simp] theorem position_shift : (c.shift n).position = c.position + n := rfl

@[simp] theorem peek?_shift : (c.shift n).peek? = c.peek? := rfl

@[simp] theorem run_shift : (c.shift n).run p = c.run p := rfl

@[simp] theorem skip_shift : (c.shift n).skip p = (c.skip p).shift n := by
  rw [skip, skip, shift, shift, run, run]
  congr 1
  exact Nat.add_right_comm _ _ _

@[simp] theorem advance_shift : (c.shift n).advance = c.advance.shift n := by
  obtain ⟨position, rest⟩ := c
  cases rest with
  | nil => rfl
  | cons ch rest => rw [shift, advance_cons, advance_cons, shift, Nat.add_right_comm]

@[simp] theorem here_shift : (c.shift n).here = c.here.shift (.ofNat n) := by
  rw [here, here, advance_shift, position_shift, position_shift, Span.shift_between]

theorem shift_start (text : List Char) : (start text).shift n = ⟨n, text⟩ := by
  rw [shift, start, Nat.zero_add]

end TextCursor

namespace Lexer

/-- The answer in a text that is read from a later offset on. -/
def shiftAnswer (offset : UInt32) : Except LexicalError Token → Except LexicalError Token
  | .ok t => .ok (t.shift offset)
  | .error e => .error (e.shift offset)

/-- What is scanned in a text that is read from a later offset on. -/
def shiftScanned (offset : Nat) (s : Scanned) : Scanned :=
  (shiftAnswer (.ofNat offset) s.1, s.2.shift offset)

/-! ## The functions of the scanner, one by one -/

variable {registry : Registry} {n : Nat} {start stop : TextCursor}

theorem accept_shift (kind : TokenKind) (text : List Char) :
    accept kind text (start.shift n) (stop.shift n) =
      shiftScanned n (accept kind text start stop) := by
  rw [accept, TextCursor.position_shift, TextCursor.position_shift, ← Span.shift_between]
  rfl

theorem error_shift (cause : LexicalCause) (a b : Nat) :
    (.error ⟨cause, .between (a + n) (b + n)⟩, stop.shift n) =
      shiftScanned n (.error ⟨cause, .between a b⟩, stop) := by
  rw [← Span.shift_between]
  rfl

theorem stopAt_shift (cause : LexicalCause) :
    stopAt cause (start.shift n) = shiftScanned n (stopAt cause start) := by
  rw [stopAt, TextCursor.here_shift]
  rfl

theorem finishNumber_shift (text : List Char) :
    finishNumber text (start.shift n) (stop.shift n) =
      shiftScanned n (finishNumber text start stop) := by
  rw [finishNumber, finishNumber]
  cases Decimal.read? (.ofList text) with
  | some d => exact accept_shift .number text
  | none => exact error_shift _ _ _

/-- Behind a character there is an offset to count back. -/
theorem position_pos_of_peek? {c : TextCursor} {char : Char} (h : c.peek? = some char)
    (p : Char → Bool) : 0 < (c.advance.skip p).position := by
  obtain ⟨position, rest⟩ := c
  obtain ⟨rest, rfl⟩ := List.head?_eq_some_iff.mp h
  rw [TextCursor.advance_cons, TextCursor.position_skip]
  have hsize := char.utf8Size_pos
  dsimp only
  omega

theorem scanNumber_shift : scanNumber (start.shift n) = shiftScanned n (scanNumber start) := by
  rw [scanNumber, scanNumber]
  dsimp only
  rw [TextCursor.skip_shift, TextCursor.peek?_shift, TextCursor.advance_shift,
    TextCursor.skip_shift, TextCursor.peek?_shift, TextCursor.run_shift, TextCursor.run_shift]
  split
  · next hpoint =>
    have hpos := position_pos_of_peek? hpoint Char.isDigit
    generalize ((start.skip Char.isDigit).advance).skip Char.isDigit = behind at hpos ⊢
    split
    · exact stopAt_shift .secondPoint
    split
    · have hback : behind.position + n - 1 = behind.position - 1 + n := by omega
      rw [TextCursor.position_shift, hback]
      exact error_shift _ _ _
    · exact finishNumber_shift _
  · exact finishNumber_shift _

theorem scanWithEquals_shift (single double : TokenKind) (char : Char) :
    scanWithEquals single double char (start.shift n) =
      shiftScanned n (scanWithEquals single double char start) := by
  rw [scanWithEquals, scanWithEquals, TextCursor.advance_shift, TextCursor.peek?_shift,
    TextCursor.advance_shift]
  split
  · exact accept_shift _ _
  · exact accept_shift _ _

theorem scanIdentifier_shift :
    scanIdentifier (start.shift n) = shiftScanned n (scanIdentifier start) := by
  rw [scanIdentifier, scanIdentifier]
  dsimp only
  rw [TextCursor.advance_shift, TextCursor.peek?_shift, TextCursor.skip_shift,
    TextCursor.peek?_shift, TextCursor.advance_shift, TextCursor.run_shift]
  split
  · split
    · rw [accept_shift]
      rfl
    · exact stopAt_shift _
  · exact stopAt_shift _

theorem scanName_shift :
    scanName registry (start.shift n) = shiftScanned n (scanName registry start) := by
  rw [scanName, scanName, TextCursor.skip_shift, TextCursor.run_shift]
  split
  · exact accept_shift _ _
  · exact error_shift _ _ _

theorem scanLexeme_shift (char : Char) :
    scanLexeme registry char (start.shift n) =
      shiftScanned n (scanLexeme registry char start) := by
  rw [scanLexeme, scanLexeme]
  split
  · exact scanNumber_shift
  split
  · exact scanWithEquals_shift _ _ _
  split
  · exact scanWithEquals_shift _ _ _
  split
  · exact scanWithEquals_shift _ _ _
  split
  · exact scanIdentifier_shift
  split
  · exact scanName_shift
  cases TokenKind.ofSymbol? char with
  | some kind =>
    dsimp only
    rw [TextCursor.advance_shift]
    exact accept_shift _ _
  | none => exact stopAt_shift _

/-- **The offset decides nothing.** -/
theorem scanToken_shift (registry : Registry) (n : Nat) (c : TextCursor) :
    scanToken registry (c.shift n) = shiftScanned n (scanToken registry c) := by
  rw [scanToken, scanToken]
  rw [TextCursor.skip_shift, TextCursor.peek?_shift]
  cases (c.skip isBlank).peek? with
  | none =>
    dsimp only
    rw [TextCursor.position_shift, UInt32.ofNat_add]
    rfl
  | some char => exact scanLexeme_shift char

/-- What is scanned in the middle of a text is what is scanned at the start of the rest. -/
theorem scanToken_eq_shift_start (registry : Registry) (c : TextCursor) :
    scanToken registry c = shiftScanned c.position (scanToken registry (.start c.rest)) := by
  rw [← scanToken_shift, TextCursor.shift_start]

end Lexer

end DecimalFormula
