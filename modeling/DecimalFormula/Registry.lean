import DecimalFormula.Decimal.Arithmetic
import DecimalFormula.NameMap
import DecimalFormula.Text.Words

/-!
# Functions that formulas can call

A registry maps upper-case names to functions. One registry serves the scanner, which knows a word
for a function only if it is registered, the parser, which checks the number of arguments, and the
evaluator, which applies the function.

Names are put in upper case both when a function is registered and when it is looked up, so letter
case never matters; only the letters `a` to `z` have an upper case here. That every name in a
registry is in upper case is a field of the type.

A function is a body together with the number of arguments it is registered for. The two are
independent. A body may be any function of the values of the arguments, and it may fail in any way
that a call can: one of the six standard bodies that is registered for a number of arguments it
cannot take complains itself when it is called, under its own name.
-/

namespace DecimalFormula

/-! ## Numbers of arguments -/

/-- How many arguments a function takes. -/
inductive Arity
  /-- Exactly this many. -/
  | exactly (count : Nat)
  /-- One or more. -/
  | atLeastOne
  /-- Any number, none included. -/
  | any
deriving DecidableEq, Repr, Inhabited

namespace Arity

def accepts : Arity → Nat → Bool
  | exactly expected, count => expected == count
  | atLeastOne, count => 0 < count
  | any, _ => true

def describe : Arity → String
  | exactly count => if count = 1 then "1 argument" else toString count ++ " arguments"
  | atLeastOne => "at least 1 argument"
  | any => "any number of arguments"

def name : Arity → String
  | exactly count => "Exact(" ++ toString count ++ ")"
  | atLeastOne => "AtLeastOne"
  | any => "Any"

end Arity

/-! ## Calls that fail -/

/-- Why a call has no value. -/
inductive CallError
  /-- No function has this name. -/
  | unknownFunction (name : String)
  /-- The function does not take so many arguments. -/
  | wrongArgumentCount (function : String) (expected : Arity) (got : Nat)
  /-- A sum on the way to the result is too large. -/
  | overflow
deriving DecidableEq, Repr

/-- The complaint about a number of arguments. -/
def argumentCountMessage (function : String) (expected : Arity) (got : Nat) : String :=
  "`" ++ function ++ "` requires " ++ expected.describe ++ ", but got " ++ toString got

def CallError.message : CallError → String
  | unknownFunction name => "unknown function `" ++ name ++ "`"
  | wrongArgumentCount function expected got => argumentCountMessage function expected got
  | overflow => "arithmetic overflow"

/-! ## Standard bodies -/

/-- What a standard function computes. -/
inductive Body
  /-- The largest argument, the first of several equal ones. -/
  | maximum
  /-- The smallest argument, the first of several equal ones. -/
  | minimum
  /-- The second of three arguments if the first is true, otherwise the third. -/
  | choice
  /-- The sum, from left to right. -/
  | sum
  /-- The sum divided by the number of arguments. -/
  | average
  /-- The argument without its sign. -/
  | absolute
deriving DecidableEq, Repr, Inhabited

namespace Body

def name : Body → String
  | maximum => "MAX"
  | minimum => "MIN"
  | choice => "IF"
  | sum => "SUM"
  | average => "AVG"
  | absolute => "ABS"

def arity : Body → Arity
  | maximum | minimum | average => .atLeastOne
  | choice => .exactly 3
  | sum => .any
  | absolute => .exactly 1

/-- The larger of two numbers, the first if they are equal. -/
def larger (best next : Decimal) : Decimal := if best.lt next then next else best

/-- The smaller of two numbers, the first if they are equal. -/
def smaller (best next : Decimal) : Decimal := if next.lt best then next else best

def total? (args : List Decimal) : Option Decimal :=
  args.foldlM Decimal.add? .zero

/-- The complaint of a body about the number of its arguments. -/
def reject (body : Body) (count : Nat) : Except CallError Decimal :=
  .error (.wrongArgumentCount body.name body.arity count)

def orOverflow : Option Decimal → Except CallError Decimal
  | some value => .ok value
  | none => .error .overflow

/-- The value of a body at its arguments. -/
def apply (body : Body) (args : List Decimal) : Except CallError Decimal :=
  match body, args with
  | maximum, first :: rest => .ok (rest.foldl larger first)
  | minimum, first :: rest => .ok (rest.foldl smaller first)
  | choice, [condition, yes, no] => .ok (if condition.truthy then yes else no)
  | sum, args => orOverflow (total? args)
  | average, first :: rest =>
    orOverflow ((total? (first :: rest)).bind fun t ↦ t.divNat? (rest.length + 1))
  | absolute, [value] => .ok value.abs
  | body, args => body.reject args.length

end Body

/-! ## Registries -/

/-- A body registered for a number of arguments. -/
structure Function where
  /-- How many arguments a call has to have. -/
  arity : Arity
  /-- What a call computes of the values of its arguments, or why it has no value. -/
  body : List Decimal → Except CallError Decimal

/-- How listings write a function. Its body is not shown. -/
def Function.describe (f : Function) : String :=
  "Function \x7b arity: " ++ f.arity.name ++ ", .. \x7d"

/-- A standard body for a number of arguments that need not be the one it needs. -/
def Body.registeredFor (b : Body) (arity : Arity) : Function := ⟨arity, b.apply⟩

/-- A table of functions by name. -/
structure Registry where
  /-- The functions under their names. -/
  functions : NameMap Function
  /-- All names are in upper case. -/
  upper : ∀ e ∈ functions.entries, Text.upper e.1 = e.1

namespace Registry

def empty : Registry := ⟨.empty, by simp [NameMap.empty]⟩

/-- Registers a function, in place of the one that had its name. -/
def register (r : Registry) (name : String) (f : Function) : Registry :=
  ⟨r.functions.insert (Text.upper name) f, fun e he ↦ by
    rcases NameMap.mem_insertEntry he with rfl | he
    · exact Text.upper_upper name
    · exact r.upper e he⟩

/-- Registers functions one after the other. -/
def registerAll (r : Registry) (functions : List (String × Function)) : Registry :=
  functions.foldl (fun r e ↦ r.register e.1 e.2) r

/-- Each standard body under its own name, for the number of arguments it needs. -/
def standard : Registry :=
  empty.registerAll <|
    [Body.maximum, .minimum, .choice, .sum, .average, .absolute].map fun b ↦
      (b.name, b.registeredFor b.arity)

instance : Inhabited Registry := ⟨standard⟩

/-- The function with a name, in any letter case. -/
def get? (r : Registry) (name : String) : Option Function := r.functions.get? (Text.upper name)

def contains (r : Registry) (name : String) : Bool := (r.get? name).isSome

def arity? (r : Registry) (name : String) : Option Arity := (r.get? name).map Function.arity

def names (r : Registry) : List String := r.functions.names

def size (r : Registry) : Nat := r.functions.size

def isEmpty (r : Registry) : Bool := r.functions.isEmpty

/-- Calls a function. The number of arguments is checked against the registered one first; what else
there is to check is left to the body. -/
def call (r : Registry) (name : String) (args : List Decimal) : Except CallError Decimal :=
  match r.get? name with
  | none => .error (.unknownFunction name)
  | some f =>
    if f.arity.accepts args.length then f.body args
    else .error (.wrongArgumentCount (Text.upper name) f.arity args.length)

/-! ### Lookups -/

@[simp] theorem get?_upper (r : Registry) (name : String) :
    r.get? (Text.upper name) = r.get? name := by
  simp [get?]

@[simp] theorem get?_empty (name : String) : empty.get? name = none := rfl

theorem get?_register (r : Registry) (name : String) (f : Function) (n : String) :
    (r.register name f).get? n = if Text.upper n = Text.upper name then some f else r.get? n :=
  NameMap.get?_insert _ _ _ _

theorem arity?_isSome (r : Registry) (name : String) :
    (r.arity? name).isSome = r.contains name := by
  simp [arity?, contains]

end Registry

end DecimalFormula
