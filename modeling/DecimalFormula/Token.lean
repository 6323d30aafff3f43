import DecimalFormula.Span

/-!
# Tokens of a formula

A token is one lexical unit: its kind, its text and where it stands. The text of an identifier is
the bare name, without the braces that surround it in the formula; the text of a function name is
in upper case. For every other kind the text is what stands in the formula.
-/

namespace DecimalFormula

/-! ## Kinds -/

/-- The kinds of lexical units. -/
inductive TokenKind
  | number
  | plus
  | minus
  | times
  | divide
  | power
  | leftParen
  | rightParen
  | and
  | or
  | not
  | equal
  | notEqual
  | greater
  | greaterOrEqual
  | less
  | lessOrEqual
  | comma
  | identifier
  | function
  | endOfInput
deriving DecidableEq, Repr, Inhabited

namespace TokenKind

/-- The name of a kind in listings of tokens and trees. -/
def name : TokenKind → String
  | number => "Number"
  | plus => "Plus"
  | minus => "Minus"
  | times => "Mul"
  | divide => "Div"
  | power => "Pow"
  | leftParen => "LParen"
  | rightParen => "RParen"
  | and => "And"
  | or => "Or"
  | not => "Not"
  | equal => "Equal"
  | notEqual => "NotEqual"
  | greater => "GreaterThan"
  | greaterOrEqual => "GreaterThanOrEqual"
  | less => "LessThan"
  | lessOrEqual => "LessThanOrEqual"
  | comma => "Comma"
  | identifier => "Identifier"
  | function => "Function"
  | endOfInput => "Eof"

/-- The kind of an operator or delimiter that is one character whatever follows it. -/
def ofSymbol? : Char → Option TokenKind
  | '+' => some plus
  | '-' => some minus
  | '*' => some times
  | '/' => some divide
  | '^' => some power
  | '(' => some leftParen
  | ')' => some rightParen
  | '&' => some and
  | '|' => some or
  | '=' => some equal
  | ',' => some comma
  | _ => none

/-- Whether the kind compares two operands. -/
def isComparison : TokenKind → Bool
  | equal | notEqual | greater | greaterOrEqual | less | lessOrEqual => true
  | _ => false

/-- Whether the kind is an operator, of one operand or of two. -/
def isOperator : TokenKind → Bool
  | plus | minus | times | divide | power | and | or | not => true
  | k => k.isComparison

/-- What a token of this kind looks like, or a word for it when its text varies. -/
def literal : TokenKind → String
  | number => "number"
  | plus => "+"
  | minus => "-"
  | times => "*"
  | divide => "/"
  | power => "^"
  | leftParen => "("
  | rightParen => ")"
  | and => "&"
  | or => "|"
  | not => "!"
  | equal => "="
  | notEqual => "!="
  | greater => ">"
  | greaterOrEqual => ">="
  | less => "<"
  | lessOrEqual => "<="
  | comma => ","
  | identifier => "identifier"
  | function => "function"
  | endOfInput => "end of input"

/-- Whether tokens of this kind differ in their texts, or, as at the end of input, have none. -/
def isNamedByWord : TokenKind → Bool
  | number | identifier | function | endOfInput => true
  | _ => false

/-- How messages refer to a kind: a fixed literal stands between backticks, a word does not. -/
def describe (k : TokenKind) : String :=
  if k.isNamedByWord then k.literal else "`" ++ k.literal ++ "`"

end TokenKind

/-! ## Tokens -/

/-- One lexical unit. -/
structure Token where
  /-- What sort of unit it is. -/
  kind : TokenKind
  /-- The literal, the bare identifier name or the function name in upper case. -/
  text : String
  /-- Where it stands in the formula. -/
  span : Span
deriving DecidableEq, Repr, Inhabited

namespace Token

/-- The token that ends every scanned formula. It has no text and covers nothing. -/
def endAt (offset : UInt32) : Token := ⟨.endOfInput, "", .emptyAt offset⟩

/-- Whether the token ends the input. -/
def isEnd (t : Token) : Bool := t.kind == .endOfInput

/-- A token as it can be written in a formula again: an identifier gets its braces back. -/
def render (t : Token) : String :=
  match t.kind with
  | .identifier => "\x7b" ++ t.text ++ "\x7d"
  | .endOfInput => t.kind.literal
  | _ => t.text

@[simp] theorem endAt_kind (n : UInt32) : (endAt n).kind = .endOfInput := rfl

@[simp] theorem isEnd_iff {t : Token} : t.isEnd = true ↔ t.kind = .endOfInput := by
  simp [isEnd]

theorem isEnd_eq_false_iff {t : Token} : t.isEnd = false ↔ t.kind ≠ .endOfInput := by
  rw [← Bool.not_eq_true, isEnd_iff]

end Token

end DecimalFormula
