import DecimalFormula.Decimal.Text
import DecimalFormula.Error
import DecimalFormula.Registry
import DecimalFormula.TextCursor
import DecimalFormula.Token

/-!
# Scanning a formula

The scanner reads one token at a time, from a cursor to the cursor behind it. Spaces and tabs before
a token are passed over; no other character is a blank. Words are checked against the registry while
scanning, so an unknown function name never reaches the parser, and numbers are read as decimals, so
every number token has a value.

A scanner that has met an error stands where it stopped and may be asked again. It makes no attempt
to recover: an unrecognised character is reported again and again, while behind a malformed number,
identifier or name the rest is scanned as if it stood alone. `Lexer.run` stops at the first error.
-/

namespace DecimalFormula

/-! ## Character classes -/

def isBlank (c : Char) : Bool := c == ' ' || c == '\t'

def startsIdentifier (c : Char) : Bool := c.isAlpha || c == '_'

/-- Whether an identifier may go on with a character. -/
def continuesIdentifier (c : Char) : Bool := c.isAlphanum || c == '_'

/-- Whether a function name may go on with a character. It starts with a letter. -/
def continuesName (c : Char) : Bool := c.isAlpha || c == '.'

/-! ## One token -/

/-- The outcome of scanning one token, and the cursor behind it or where the scanner stopped. -/
abbrev Scanned := Except LexicalError Token × TextCursor

namespace Lexer

/-- A token from one cursor to another. -/
def accept (kind : TokenKind) (text : List Char) (start stop : TextCursor) : Scanned :=
  (.ok ⟨kind, .ofList text, .between start.position stop.position⟩, stop)

/-- An error at the cursor where the scanner stops. -/
def stopAt (cause : LexicalCause) (cursor : TextCursor) : Scanned :=
  (.error ⟨cause, cursor.here⟩, cursor)

def finishNumber (text : List Char) (start stop : TextCursor) : Scanned :=
  match Decimal.read? (.ofList text) with
  | some _ => accept .number text start stop
  | none => (.error ⟨.outOfRange (.ofList text), .between start.position stop.position⟩, stop)

/-- A number: digits, and behind a point more digits. -/
def scanNumber (start : TextCursor) : Scanned :=
  let whole := start.run Char.isDigit
  let behindWhole := start.skip Char.isDigit
  if behindWhole.peek? = some '.' then
    let atFraction := behindWhole.advance
    let fraction := atFraction.run Char.isDigit
    let behindFraction := atFraction.skip Char.isDigit
    if behindFraction.peek? = some '.' then stopAt .secondPoint behindFraction
    else if fraction.isEmpty then
      (.error ⟨.missingFraction behindFraction.peek?,
        .between (behindFraction.position - 1) behindFraction.position⟩, behindFraction)
    else finishNumber (whole ++ '.' :: fraction) start behindFraction
  else finishNumber whole start behindWhole

/-- An operator that a following `=` belongs to. -/
def scanWithEquals (single double : TokenKind) (char : Char) (start : TextCursor) : Scanned :=
  let behind := start.advance
  if behind.peek? = some '=' then accept double [char, '='] start behind.advance
  else accept single [char] start behind

/-- A name in braces. The span of the token is that of the name alone. -/
def scanIdentifier (brace : TextCursor) : Scanned :=
  let start := brace.advance
  if start.peek?.any startsIdentifier then
    let behind := start.skip continuesIdentifier
    if behind.peek? = some '\x7d' then
      ((accept .identifier (start.run continuesIdentifier) start behind).1, behind.advance)
    else stopAt (.missingBrace behind.peek?) behind
  else stopAt (.badIdentifierStart start.peek?) start

/-- A function name, in any letter case. -/
def scanName (registry : Registry) (start : TextCursor) : Scanned :=
  let name := (start.run continuesName).map Char.toUpper
  let behind := start.skip continuesName
  if registry.contains (.ofList name) then accept .function name start behind
  else (.error ⟨.unknownFunction (.ofList name), .between start.position behind.position⟩, behind)

/-- A token that starts at the cursor with the given character. -/
def scanLexeme (registry : Registry) (char : Char) (start : TextCursor) : Scanned :=
  if char.isDigit then scanNumber start
  else if char = '!' then scanWithEquals .not .notEqual char start
  else if char = '>' then scanWithEquals .greater .greaterOrEqual char start
  else if char = '<' then scanWithEquals .less .lessOrEqual char start
  else if char = '\x7b' then scanIdentifier start
  else if char.isAlpha then scanName registry start
  else
    match TokenKind.ofSymbol? char with
    | some kind => accept kind [char] start start.advance
    | none => stopAt (.unrecognized char) start

/-- The next token, behind any blanks. At the end of the text it is the end of input, every time. -/
def scanToken (registry : Registry) (cursor : TextCursor) : Scanned :=
  let start := cursor.skip isBlank
  match start.peek? with
  | none => (.ok (.endAt (.ofNat start.position)), start)
  | some char => scanLexeme registry char start

/-! ### Progress -/

private theorem length_run_pos {p : Char → Bool} {c : TextCursor} {char : Char}
    (hpeek : c.peek? = some char) (hp : p char = true) :
    (c.skip p).rest.length < c.rest.length := by
  obtain ⟨n, cs⟩ := c
  cases cs with
  | nil => simp at hpeek
  | cons d ds =>
    obtain rfl : d = char := by simpa using hpeek
    have := (List.dropWhile_suffix p (l := ds)).length_le
    simp only [TextCursor.skip, List.dropWhile_cons, hp, if_true, List.length_cons]
    omega

private theorem length_advance_lt {c : TextCursor} {char : Char} (hpeek : c.peek? = some char) :
    c.advance.rest.length < c.rest.length := by
  obtain ⟨n, cs⟩ := c
  cases cs <;> simp at hpeek ⊢

/-- A token that is not the end of input takes at least one character. -/
theorem scanToken_length_lt {registry : Registry} {cursor : TextCursor} {t : Token}
    (h : (scanToken registry cursor).1 = .ok t) (hend : t.isEnd = false) :
    (scanToken registry cursor).2.rest.length < cursor.rest.length := by
  have hskip := cursor.length_rest_skip_le isBlank
  unfold scanToken at h ⊢
  dsimp only at h ⊢
  split
  · next hpeek =>
    rw [hpeek] at h
    simp only [Except.ok.injEq] at h
    rw [← h] at hend
    simp [Token.isEnd] at hend
  · next char hpeek =>
    rw [hpeek] at h
    dsimp only at h
    generalize cursor.skip isBlank = start at h hpeek hskip ⊢
    have hadvance := length_advance_lt hpeek
    refine Nat.lt_of_lt_of_le ?_ hskip
    -- The first character of a lexeme is always taken. What is scanned behind it can only add to
    -- that.
    unfold scanLexeme at h ⊢
    by_cases hdigit : char.isDigit
    · rw [if_pos hdigit] at h ⊢
      have hwhole := length_run_pos hpeek hdigit
      have h1 := (start.skip Char.isDigit).length_rest_advance_le
      have h2 := (start.skip Char.isDigit).advance.length_rest_skip_le Char.isDigit
      unfold scanNumber finishNumber accept
      dsimp only
      repeat' split
      all_goals (simp only [stopAt]; omega)
    · rw [if_neg hdigit] at h ⊢
      have hequals : ∀ single double, (scanWithEquals single double char start).2.rest.length
          < start.rest.length := by
        intro single double
        have := start.advance.length_rest_advance_le
        unfold scanWithEquals accept
        dsimp only
        split <;> (dsimp only; omega)
      split
      · exact hequals _ _
      split
      · exact hequals _ _
      split
      · exact hequals _ _
      split
      · have h1 := start.advance.length_rest_skip_le continuesIdentifier
        have h2 := (start.advance.skip continuesIdentifier).length_rest_advance_le
        unfold scanIdentifier
        dsimp only
        repeat' split
        all_goals (simp only [stopAt]; omega)
      split
      · next halpha =>
        have := length_run_pos (p := continuesName) hpeek (by simp [continuesName, halpha])
        unfold scanName accept
        dsimp only
        split <;> (dsimp only; omega)
      · next halpha =>
        split
        · exact hadvance
        · next hsymbol =>
          simp_all [stopAt]

/-! ## All tokens -/

/-- Scans up to the end of input, which is the last token then, or up to the first error. -/
def run (registry : Registry) (cursor : TextCursor) : List Token × Option LexicalError :=
  match _h : scanToken registry cursor with
  | (.error e, _) => ([], some e)
  | (.ok t, next) =>
    if _hend : t.isEnd then ([t], none)
    else
      let r := run registry next
      (t :: r.1, r.2)
termination_by cursor.rest.length
decreasing_by
  have := @scanToken_length_lt registry cursor t (by rw [_h])
    ((Bool.not_eq_true _).mp _hend)
  rwa [_h] at this

/-- The tokens of a formula, the end of input last. -/
def scan (registry : Registry) (formula : String) : Except LexicalError (List Token) :=
  match run registry (.start formula.toList) with
  | (tokens, none) => .ok tokens
  | (_, some e) => .error e

end Lexer

/-! ## Scanning step by step -/

/-- A scanner at work on a formula. -/
structure Lexer where
  /-- The functions whose names it knows. -/
  registry : Registry
  /-- Where it stands. -/
  cursor : TextCursor
  /-- Whether `Lexer.next?` has come to the end or to an error. -/
  finished : Bool

namespace Lexer

def ofFormula (registry : Registry) (formula : String) : Lexer :=
  ⟨registry, .start formula.toList, false⟩

def position (l : Lexer) : UInt32 := .ofNat l.cursor.position

/-- Scans one token, whatever was scanned before. -/
def nextToken (l : Lexer) : Except LexicalError Token × Lexer :=
  let (outcome, cursor) := scanToken l.registry l.cursor
  (outcome, { l with cursor := cursor })

/-- Scans one token, unless the end of input or an error has been answered already. -/
def next? (l : Lexer) : Option (Except LexicalError Token) × Lexer :=
  if l.finished then (none, l)
  else
    let (outcome, l') := l.nextToken
    let last := match outcome with
      | .ok t => t.isEnd
      | .error _ => true
    (some outcome, { l' with finished := last })

/-- The state of a scanner, on five lines. -/
def render (l : Lexer) : String :=
  let char := match l.cursor.peek? with
    | some c => "Some(" ++ Text.quoteChar c ++ ")"
    | none => "None"
  "Lexer \x7b\n\tposition: " ++ toString l.position ++ ",\n\tch: " ++ char ++
    ",\n\tfinished: " ++ toString l.finished ++ "\n\x7d"

end Lexer

end DecimalFormula
