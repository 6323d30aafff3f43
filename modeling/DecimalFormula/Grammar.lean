import DecimalFormula.Operator

/-!
# Levels of precedence

Formulas follow this grammar, in which a level stands above those that bind tighter:

```text
disjunction := conjunction [ `|` disjunction ]
conjunction := negation [ `&` conjunction ]
negation    := `!` negation | comparison
comparison  := sum [ ( `=` | `!=` | `>` | `>=` | `<` | `<=` ) sum ]
sum         := product [ ( `+` | `-` ) sum ]
product     := power [ ( `*` | `/` ) product ]
power       := ( `+` | `-` ) power | primary [ `^` power ]
primary     := NUMBER | IDENTIFIER | `(` disjunction `)`
             | FUNCTION `(` [ disjunction { `,` disjunction } ] `)`
```

Operators group to the right at every level: `2-3-4` is `2-(3-4)`. Comparisons do not group at all,
so `a > b > c` is no formula. A sign covers the whole power behind it: `-2^2` is `-(2^2)`.

All levels but the last have one shape, which is given here as a table: operators that may stand in
front, a tighter level, and operators that may follow it, with the level of what comes behind them.
-/

namespace DecimalFormula

/-- The levels of precedence, the loosest first. -/
inductive Level
  | disjunction
  | conjunction
  | negation
  | comparison
  | sum
  | product
  | power
  | primary
deriving DecidableEq, Repr, Inhabited

def UnaryOp.level : UnaryOp → Level
  | not => .negation
  | plus | minus => .power

def BinaryOp.level : BinaryOp → Level
  | or => .disjunction
  | and => .conjunction
  | equal | notEqual | greater | greaterOrEqual | less | lessOrEqual => .comparison
  | add | subtract => .sum
  | multiply | divide => .product
  | power => .power

namespace Level

/-- The operator that a token of some kind is in front of an operand of this level. -/
def sign? (level : Level) (kind : TokenKind) : Option UnaryOp :=
  (UnaryOp.ofKind? kind).filter (·.level = level)

/-- The operator of this level that a token of some kind is behind an operand. -/
def operator? (level : Level) (kind : TokenKind) : Option BinaryOp :=
  (BinaryOp.ofKind? kind).filter (·.level = level)

/-- The next tighter level, to which the operand in front of an operator belongs. -/
def tighter : Level → Level
  | disjunction => conjunction
  | conjunction => negation
  | negation => comparison
  | comparison => sum
  | sum => product
  | product => power
  | power | primary => primary

/-- The level of what stands behind an operator. -/
def right : Level → Level
  | comparison => sum
  | level => level

/-- The kinds of token that a message names where an operand is missing. -/
def operandKinds : List TokenKind :=
  [.number, .identifier, .function, .leftParen, .plus, .minus]

end Level

end DecimalFormula
