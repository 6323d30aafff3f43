import DecimalFormula.Error
import DecimalFormula.Evaluation
import DecimalFormula.Lexer
import DecimalFormula.Parser
import DecimalFormula.Text.Utf8
import DecimalFormula.Text.Words

/-!
# From a text to a value

An engine is a registry and a limit on nesting. The same registry serves scanning, parsing and
evaluation, so what one of them accepts the next one knows.
-/

namespace DecimalFormula

/-- What formulas are read and evaluated with. -/
structure Engine where
  /-- The functions that formulas may call. -/
  registry : Registry
  /-- How many levels of the grammar may be entered one inside the other. -/
  limit : Nat

/-- A formula that was read from a file, with its text. -/
structure Parsed where
  /-- The text without the line ends behind it. -/
  source : String
  /-- The tree of the text. -/
  root : Tree
deriving DecidableEq

namespace Engine

/-- The standard functions under the default limit. -/
def standard : Engine := ⟨.standard, Parser.defaultLimit⟩

instance : Inhabited Engine := ⟨standard⟩

def lex (e : Engine) (formula : String) : Except Error (List Token) :=
  (Lexer.scan e.registry formula).mapError (.lexical formula)

def parseTokens (e : Engine) (formula : String) (tokens : List Token) : Except Error Tree :=
  (Tree.ofTokens e.registry e.limit tokens).mapError (.parse formula)

def parse (e : Engine) (formula : String) : Except Error Tree :=
  (e.lex formula).bind (e.parseTokens formula)

def evaluate (e : Engine) (bindings : Bindings) (tree : Tree) : Except Error Decimal :=
  (tree.evaluate e.registry bindings).mapError (.evaluation none)

def evalFormula (e : Engine) (bindings : Bindings) (formula : String) : Except Error Decimal :=
  (e.parse formula).bind fun tree ↦
    (e.evaluate bindings tree).mapError (.withSource formula)

/-! ## Files -/

def isLineEnd (c : Char) : Bool := c == '\r' || c == '\n'

/-- The formula in the bytes of a file. Line ends behind it do not count; a line end inside it is
left to the scanner, which refuses it. -/
def formulaOfBytes (bytes : List UInt8) : Except FileError String :=
  match Text.Utf8.decode bytes with
  | .ok cs => .ok (.ofList (Text.dropTrailing isLineEnd cs))
  | .error .malformed => .error .invalidData
  | .error .truncated => .error .unexpectedEnd

/-- The formula in a file, given what came of reading the bytes. -/
def parseFile (e : Engine) (contents : Except FileError (List UInt8)) : Except Error Parsed :=
  ((contents.bind formulaOfBytes).mapError .file).bind fun source ↦
    (e.parse source).map (.mk source)

end Engine

end DecimalFormula
