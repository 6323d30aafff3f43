import DecimalFormula.Token

/-!
# Cursors in a list of tokens

A token cursor stands at a token. It holds that token, the ones behind it and the number of tokens
that were passed. It never moves past an end of input, so a parser may always ask for the current
token, and a list of tokens without an end of input is given one.
-/

namespace DecimalFormula

/-- A place in a list of tokens. -/
structure TokenCursor where
  /-- The number of tokens in front. -/
  index : Nat
  /-- The token it stands at. -/
  current : Token
  /-- The tokens behind the current one. -/
  ahead : List Token
deriving DecidableEq, Repr, Inhabited

namespace TokenCursor

/-- A list of tokens with an end of input, which is added if the last token is none. It stands where
the last token stops. -/
def closed (tokens : List Token) : List Token :=
  match tokens.getLast? with
  | none => [.endAt 0]
  | some last => if last.isEnd then tokens else tokens ++ [.endAt last.span.stop]

/-- The cursor at the first of some tokens. -/
def start (tokens : List Token) : TokenCursor :=
  match closed tokens with
  | [] => ⟨0, .endAt 0, []⟩
  | first :: rest => ⟨0, first, rest⟩

/-- The kind of the current token. -/
def kind (c : TokenCursor) : TokenKind := c.current.kind

/-- The cursor at the next token. -/
def advance (c : TokenCursor) : TokenCursor :=
  match c.ahead with
  | [] => c
  | next :: rest => if c.current.isEnd then c else ⟨c.index + 1, next, rest⟩

/-- The current token and all behind it. -/
def tokens (c : TokenCursor) : List Token := c.current :: c.ahead

theorem closed_ne_nil (tokens : List Token) : closed tokens ≠ [] := by
  unfold closed
  split
  · simp
  · next last h =>
    split
    · rintro rfl
      simp at h
    · simp

/-- No token is lost at the start. -/
theorem tokens_start (tokens : List Token) : (start tokens).tokens = closed tokens := by
  unfold start
  split
  · next h => exact absurd h (closed_ne_nil tokens)
  · next first rest h => exact h.symm

end TokenCursor

end DecimalFormula
