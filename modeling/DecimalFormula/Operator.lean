import DecimalFormula.Decimal.Power
import DecimalFormula.Token

/-!
# Operators and what they compute

Operators take decimals and answer a decimal. Comparisons and logical operators answer one or zero,
and read every number but zero as true. Only the arithmetic operators can fail.
-/

namespace DecimalFormula

/-! ## Operators of one operand -/

/-- The operators that stand in front of their operand. -/
inductive UnaryOp
  | plus
  | minus
  | not
deriving DecidableEq, Repr, Inhabited

namespace UnaryOp

def ofKind? : TokenKind → Option UnaryOp
  | .plus => some plus
  | .minus => some minus
  | .not => some not
  | _ => none

def name : UnaryOp → String
  | plus => "Plus"
  | minus => "Minus"
  | not => "Not"

def literal : UnaryOp → String
  | plus => "+"
  | minus => "-"
  | not => "!"

/-- How an operator is written behind its operand, where the signs would be mistaken for the
operators of two operands. -/
def word : UnaryOp → String
  | plus => "pos"
  | minus => "neg"
  | not => "!"

def apply : UnaryOp → Decimal → Decimal
  | plus, x => x
  | minus, x => x.neg
  | not, x => .ofBool !x.truthy

end UnaryOp

/-! ## Operators of two operands -/

/-- The operators that stand between their operands. -/
inductive BinaryOp
  | or
  | and
  | equal
  | notEqual
  | greater
  | greaterOrEqual
  | less
  | lessOrEqual
  | add
  | subtract
  | multiply
  | divide
  | power
deriving DecidableEq, Repr, Inhabited

/-- Why an operator has no value at its operands. -/
inductive OperationError
  /-- The divisor is zero. -/
  | divisionByZero
  /-- Zero is raised to a negative power. -/
  | zeroToNegativePower
  /-- A negative number is raised to a power that is not whole. -/
  | noRealPower
  /-- The result is too large for a decimal. -/
  | overflow (operator : BinaryOp)
deriving DecidableEq, Repr

namespace BinaryOp

def ofKind? : TokenKind → Option BinaryOp
  | .or => some or
  | .and => some and
  | .equal => some equal
  | .notEqual => some notEqual
  | .greater => some greater
  | .greaterOrEqual => some greaterOrEqual
  | .less => some less
  | .lessOrEqual => some lessOrEqual
  | .plus => some add
  | .minus => some subtract
  | .times => some multiply
  | .divide => some divide
  | .power => some power
  | _ => none

def name : BinaryOp → String
  | or => "Or"
  | and => "And"
  | equal => "Equal"
  | notEqual => "NotEqual"
  | greater => "GreaterThan"
  | greaterOrEqual => "GreaterThanOrEqual"
  | less => "LessThan"
  | lessOrEqual => "LessThanOrEqual"
  | add => "Add"
  | subtract => "Sub"
  | multiply => "Mul"
  | divide => "Div"
  | power => "Pow"

def literal : BinaryOp → String
  | or => "|"
  | and => "&"
  | equal => "="
  | notEqual => "!="
  | greater => ">"
  | greaterOrEqual => ">="
  | less => "<"
  | lessOrEqual => "<="
  | add => "+"
  | subtract => "-"
  | multiply => "*"
  | divide => "/"
  | power => "^"

def isComparison : BinaryOp → Bool
  | equal | notEqual | greater | greaterOrEqual | less | lessOrEqual => true
  | _ => false

/-- Whether the operator combines truth values. -/
def isLogical : BinaryOp → Bool
  | or | and => true
  | _ => false

/-- A result, or the overflow of an operator. -/
def orOverflow (operator : BinaryOp) : Option Decimal → Except OperationError Decimal
  | some value => .ok value
  | none => .error (.overflow operator)

def apply (operator : BinaryOp) (x y : Decimal) : Except OperationError Decimal :=
  match operator with
  | or => .ok (.ofBool (x.truthy || y.truthy))
  | and => .ok (.ofBool (x.truthy && y.truthy))
  | equal => .ok (.ofBool (x.same y))
  | notEqual => .ok (.ofBool !(x.same y))
  | greater => .ok (.ofBool (y.lt x))
  | greaterOrEqual => .ok (.ofBool (y.le x))
  | less => .ok (.ofBool (x.lt y))
  | lessOrEqual => .ok (.ofBool (x.le y))
  | add => orOverflow add (x.add? y)
  | subtract => orOverflow subtract (x.sub? y)
  | multiply => orOverflow multiply (x.mul? y)
  | divide => if y.isZero then .error .divisionByZero else orOverflow divide (x.div? y)
  | power =>
    match x.pow y with
    | .ok value => .ok value
    | .error .zeroToNegative => .error .zeroToNegativePower
    | .error .noRealResult => .error .noRealPower
    | .error .overflow => .error (.overflow power)

theorem literal_of_ofKind? {k : TokenKind} {operator : BinaryOp} (h : ofKind? k = some operator) :
    k.literal = operator.literal := by
  cases k <;> simp only [ofKind?, Option.some.injEq, reduceCtorEq] at h <;> subst h <;> rfl

end BinaryOp

theorem UnaryOp.literal_of_ofKind? {k : TokenKind} {operator : UnaryOp}
    (h : UnaryOp.ofKind? k = some operator) : k.literal = operator.literal := by
  cases k <;> simp only [UnaryOp.ofKind?, Option.some.injEq, reduceCtorEq] at h <;> subst h <;> rfl

namespace OperationError

def headline : OperationError → String
  | divisionByZero => "Division by zero"
  | zeroToNegativePower => "Zero raised to a negative power"
  | noRealPower => "Power has no real result"
  | overflow _ => "Arithmetic overflow"

def notes : OperationError → List String
  | divisionByZero => []
  | zeroToNegativePower => ["This would divide by zero"]
  | noRealPower => ["A negative base needs a whole exponent"]
  | overflow operator => ["The result of `" ++ operator.literal ++ "` does not fit in a decimal"]

end OperationError

end DecimalFormula
