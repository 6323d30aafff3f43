import DecimalFormula.Error
import DecimalFormula.Grammar
import DecimalFormula.TokenCursor
import DecimalFormula.Tree.Basic

/-!
# Parsing tokens into a tree

The parser follows the grammar from its loosest level down, deciding each step by the current token
alone. It counts the levels that it has entered and not left, and enters none beyond its limit.

A step that fails ends the whole run. The levels that were entered by then are not left, so a parser
that is asked again goes on from there with a depth that is greater than before.
-/

namespace DecimalFormula

/-- A parser at work on a list of tokens. -/
structure Parser where
  /-- The functions that may be called. -/
  registry : Registry
  /-- How many levels may be entered one inside the other. -/
  limit : Nat
  /-- The current token. -/
  cursor : TokenCursor
  /-- How many levels are entered and not left. -/
  depth : Int

namespace Parser

/-- The number of levels that may be entered unless another is asked for: enough for 31 nested
parentheses, which take eight levels each, or a chain of 249 operands. -/
def defaultLimit : Nat := 256

/-- A parser in front of some tokens. -/
def ofTokens (registry : Registry) (limit : Nat) (tokens : List Token) : Parser :=
  ⟨registry, limit, .start tokens, 0⟩

def index (p : Parser) : Nat := p.cursor.index

def current (p : Parser) : Token := p.cursor.current

def advance (p : Parser) : Token × Parser := (p.current, { p with cursor := p.cursor.advance })

/-- How many more levels may be entered. -/
def headroom (p : Parser) : Nat := (p.limit - p.depth).toNat

/-- The complaint about the current token where one of other kinds has to stand. -/
def mismatch (cursor : TokenCursor) (expected : List TokenKind) : ParseCause :=
  if cursor.current.isEnd then .unexpectedEnd expected
  else .unexpectedToken cursor.current expected

end Parser

/-! ## Steps -/

/-- A step of a parser. If it fails, the parser is left as it is then. -/
abbrev Parsing (α : Type) : Type := ExceptT ParseError (StateM Parser) α

namespace Parsing

/-- What comes of a step, and the parser behind it. -/
def runOn {α : Type} (step : Parsing α) (p : Parser) : Except ParseError α × Parser := step.run p

def current : Parsing Token := return (← get).current

def advance : Parsing Token := modifyGet Parser.advance

/-- Fails in front of the current token. -/
def complain {α : Type} (cause : ParseCause) (span : Span) : Parsing α := do
  throw ⟨cause, span, (← get).index⟩

/-- Fails at a token that cannot stand there. -/
def unexpected {α : Type} (expected : List TokenKind) : Parsing α := do
  complain (Parser.mismatch (← get).cursor expected) (← current).span

def expect (kind : TokenKind) : Parsing Token := do
  if (← current).kind = kind then advance else unexpected [kind]

def tooDeep {α : Type} : Parsing α := do
  complain (.tooDeep (← get).limit) (← current).span

def enter : Parsing Unit := do
  let p ← get
  if p.limit ≤ p.depth then tooDeep else set { p with depth := p.depth + 1 }

def leave : Parsing Unit := modify fun p ↦ { p with depth := p.depth - 1 }

def moreArguments (argument : Parsing Tree) : (fuel : Nat) → Parsing (List Tree)
  | 0 => return []
  | fuel + 1 => do
    if (← current).kind = .comma then
      let _ ← advance
      let first ← argument
      let rest ← moreArguments argument fuel
      return first :: rest
    else return []

/-- The arguments of a call, up to what should be its closing parenthesis. Every argument but the
first takes a comma, so the tokens ahead are fuel enough. -/
def arguments (argument : Parsing Tree) : Parsing (List Tree) := do
  if (← current).kind = .rightParen then return []
  let first ← argument
  let rest ← moreArguments argument (← get).cursor.tokens.length
  return first :: rest

/-- Finishes a call at its closing parenthesis. A wrong number of arguments is an error of the call
as a whole, which the parser is left standing in. -/
def finishCall (name : Token) (args : List Tree) : Parsing Tree := do
  let close ← current
  if close.kind = .rightParen then
    let span := name.span.merge close.span
    match (← get).registry.arity? name.text with
    | none => complain (.unknownFunction name.text) name.span
    | some arity =>
      if arity.accepts args.length then
        let _ ← advance
        return .call name.text name args span
      else complain (.wrongArgumentCount name.text arity args.length) span
  else unexpected [.comma, .rightParen]

/-- A number, an identifier, a call or a formula in parentheses. -/
def primary (formula : Parsing Tree) : Parsing Tree := do
  match (← current).kind with
  | .number => return .leaf .number (← advance)
  | .identifier => return .leaf .identifier (← advance)
  | .function =>
    let name ← advance
    let _ ← expect .leftParen
    let args ← arguments formula
    finishCall name args
  | .leftParen =>
    let _ ← advance
    let inner ← formula
    let _ ← expect .rightParen
    return inner
  | _ => unexpected Level.operandKinds

/-- An operator of a level in front of its operand, or a part of the next tighter level, behind
which an operator of the level may stand with what belongs to its right. -/
def operation (part : Level → Parsing Tree) (level : Level) : Parsing Tree := do
  match level.sign? (← current).kind with
  | some operator =>
    let token ← advance
    return .mkUnary operator token (← part level)
  | none =>
    let left ← part level.tighter
    match level.operator? (← current).kind with
    | none => return left
    | some operator =>
      let token ← advance
      return .mkBinary operator token left (← part level.right)

/-- What stands at a level of the grammar. -/
def production (part : Level → Parsing Tree) : Level → Parsing Tree
  | .primary => primary (part .disjunction)
  | level => operation part level

/-- A step within a level, which is entered before it and, unless it fails, left behind it. -/
def within (step : Parsing Tree) : Parsing Tree := do
  enter
  let tree ← step
  leave
  return tree

/-- A part of a formula at a level of the grammar. With as much fuel as headroom the fuel does not
run out, because without headroom no level is entered. -/
def level : (fuel : Nat) → Level → Parsing Tree
  | 0, _ => tooDeep
  | fuel + 1, kind => within (production (level fuel) kind)

/-- A formula that takes all the tokens from the current one on. -/
def formula : Parsing Tree := do
  let tree ← level (← get).headroom .disjunction
  let next ← current
  if next.isEnd then return tree else complain (.incompleteParse next) next.span

end Parsing

namespace Parser

/-- Passes a token of some kind, or complains about the current one. -/
def expectKind (p : Parser) (kind : TokenKind) : Except ParseError Token × Parser :=
  (Parsing.expect kind).runOn p

/-- Parses a formula that takes all the tokens from the current one on. -/
def parse (p : Parser) : Except ParseError Tree × Parser := Parsing.formula.runOn p

end Parser

/-- The tree of some tokens, read by a fresh parser. -/
def Tree.ofTokens (registry : Registry) (limit : Nat) (tokens : List Token) :
    Except ParseError Tree :=
  (Parser.ofTokens registry limit tokens).parse.1

end DecimalFormula
