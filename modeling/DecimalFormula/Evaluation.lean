import DecimalFormula.Decimal.Text
import DecimalFormula.Error
import DecimalFormula.NameMap
import DecimalFormula.Tree.Basic

/-!
# Evaluating a tree

Every node has a step of its own, which computes its value from the values of its children. A tree
is evaluated by taking the steps of its nodes from left to right, children before parents. All
children are evaluated whatever their values are: no operator and no function can leave one out.

The first step that fails ends the evaluation. Its error points at the token of its node and passes
through all the applications around it.
-/

namespace DecimalFormula

/-! ## Values of identifiers

Bindings give identifiers their values for one evaluation. A value is kept as the text it was given
as and is read as a number only where a formula uses it, so a malformed value does no harm until
then. Names are the bare ones, without braces, and letter case matters. -/

/-- The texts bound to names. -/
abbrev Bindings := NameMap String

namespace Bindings

/-- Binds a name. The first component is the text that was bound to it before. -/
def set (b : Bindings) (name value : String) : Option String × Bindings :=
  (b.get? name, b.insert name value)

/-- Unbinds a name. The first component is the text that was bound to it. -/
def remove (b : Bindings) (name : String) : Option String × Bindings :=
  (b.get? name, b.erase name)

/-- The bound names with their texts, by increasing name. -/
def toList (b : Bindings) : List (String × String) := b.entries

end Bindings

/-! ## The step of one node -/

def readDecimal (text : String) : Except EvalCause Decimal :=
  match Decimal.readValue? text with
  | some value => .ok value
  | none => .error (.malformedDecimal text)

/-- The value of a leaf: a number is its text, and an identifier the text bound to it. -/
def leafStep (bindings : Bindings) (kind : LeafKind) (text : String) : Except EvalCause Decimal :=
  match kind with
  | .number => readDecimal text
  | .identifier =>
    match bindings.get? text with
    | some bound => readDecimal bound
    | none => .error (.missingIdentifier text)

def binaryStep (operator : BinaryOp) (x y : Decimal) : Except EvalCause Decimal :=
  (operator.apply x y).mapError .operation

def callStep (registry : Registry) (name : String) (args : List Decimal) :
    Except EvalCause Decimal :=
  (registry.call name args).mapError (.call name)

/-! ## Trees -/

/-- What comes of a step of the node with the given token. -/
def located (token : Token) (outcome : Except EvalCause Decimal) : Except EvalError Decimal :=
  outcome.mapError (.ofToken token)

namespace Tree

mutual

def evaluate (registry : Registry) (bindings : Bindings) : Tree → Except EvalError Decimal
  | leaf kind token => located token (leafStep bindings kind token.text)
  | unary operator token operand _ =>
    ((evaluate registry bindings operand).mapError (.through token)).map operator.apply
  | binary operator token left right _ =>
    ((evaluate registry bindings left).mapError (.through token)).bind fun x ↦
      ((evaluate registry bindings right).mapError (.through token)).bind fun y ↦
        located token (binaryStep operator x y)
  | call name token args _ =>
    ((evaluateAll registry bindings args).mapError (.through token)).bind fun values ↦
      located token (callStep registry name values)

def evaluateAll (registry : Registry) (bindings : Bindings) :
    List Tree → Except EvalError (List Decimal)
  | [] => .ok []
  | x :: xs =>
    (evaluate registry bindings x).bind fun value ↦
      (evaluateAll registry bindings xs).map (value :: ·)

end

end Tree

end DecimalFormula
