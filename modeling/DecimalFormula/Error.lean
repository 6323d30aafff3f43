import DecimalFormula.Operator
import DecimalFormula.Registry
import DecimalFormula.Span
import DecimalFormula.Text.Display
import DecimalFormula.Token

/-!
# Errors

Scanning, parsing and evaluating go wrong in their own ways, each of which names a cause and a place
in the formula. An error of the library is one of these, together with the formula it is about, or
the failure to read a file.
-/

namespace DecimalFormula

/-! ## Errors of scanning

A lexical error is a cause and the place where the scanner stopped. The place is the character under
the cursor, empty at the end of the text, except that a number or a name that is wrong as a whole is
reported as a whole, and a missing digit at the point before it. -/

inductive LexicalCause
  /-- No lexeme starts with this character. -/
  | unrecognized (char : Char)
  /-- A number has a second point. -/
  | secondPoint
  /-- A number ends with its point. -/
  | missingFraction (found : Option Char)
  /-- A number has more digits than a decimal holds. -/
  | outOfRange (literal : String)
  /-- The first character of an identifier is neither a letter nor an underscore. -/
  | badIdentifierStart (found : Option Char)
  /-- An identifier is not followed by its closing brace. -/
  | missingBrace (found : Option Char)
  /-- A word is not the name of a registered function. -/
  | unknownFunction (name : String)
deriving DecidableEq, Repr

structure LexicalError where
  /-- What is wrong. -/
  cause : LexicalCause
  /-- Where it is wrong. -/
  span : Span
deriving DecidableEq, Repr

namespace LexicalCause

/-- The character the scanner stopped at, for the causes that are about one. -/
def offending? : LexicalCause → Option Char
  | unrecognized char => some char
  | secondPoint => some '.'
  | missingFraction found | badIdentifierStart found | missingBrace found => found
  | outOfRange _ | unknownFunction _ => none

def describeFound : Option Char → String
  | some char => "found " ++ Text.quoteChar char
  | none => "found end of input"

def headline : LexicalCause → String
  | unrecognized _ => "Unexpected character"
  | secondPoint => "Only one `.` is allowed in a number"
  | missingFraction _ => "Expected a digit after `.`"
  | outOfRange _ => "Number cannot be represented exactly"
  | badIdentifierStart _ => "Identifier must start with a letter or `_`"
  | missingBrace _ => "Expected `\x7d` after an identifier"
  | unknownFunction _ => "Unknown function name"

def notes : LexicalCause → List String
  | unrecognized char => ["Don't know what to do with " ++ Text.quoteChar char]
  | secondPoint => []
  | missingFraction found => ["Numbers must end with a digit, " ++ describeFound found]
  | outOfRange literal => ["`" ++ literal ++ "` has too many digits"]
  | badIdentifierStart found | missingBrace found => [describeFound found]
  | unknownFunction name => ["No function `" ++ name ++ "` is registered"]

end LexicalCause

def LexicalError.message (e : LexicalError) : String :=
  e.cause.headline ++ " at index " ++ toString e.span.start ++
    if e.cause.notes.isEmpty then "" else " (" ++ "; ".intercalate e.cause.notes ++ ")"

/-! ## Errors of parsing

A parse error is a cause, the span it is about and the number of tokens that had been passed. Where
some kinds of token would have been in place, the cause lists them in the order in which the message
names them. -/

/-- Why tokens make no formula. -/
inductive ParseCause
  /-- A token stands where one of other kinds has to. -/
  | unexpectedToken (token : Token) (expected : List TokenKind)
  /-- The input ends where a token of one of these kinds has to stand. -/
  | unexpectedEnd (expected : List TokenKind)
  /-- A function is called with a number of arguments it does not take. -/
  | wrongArgumentCount (function : String) (expected : Arity) (got : Nat)
  /-- Something follows a complete formula. -/
  | incompleteParse (token : Token)
  /-- The formula is nested deeper than the limit. -/
  | tooDeep (limit : Nat)
  /-- A function is called that the registry does not know. -/
  | unknownFunction (name : String)
deriving DecidableEq, Repr

structure ParseError where
  /-- What is wrong. -/
  cause : ParseCause
  /-- Where it is wrong. -/
  span : Span
  /-- The number of tokens in front. -/
  index : Nat
deriving DecidableEq, Repr

/-- How messages refer to a token that was met. -/
def Token.describe (t : Token) : String :=
  match t.kind with
  | .number => "the number " ++ t.text
  | .identifier => "the identifier " ++ t.render
  | .function => "the function `" ++ t.text ++ "`"
  | kind => kind.describe

namespace ParseCause

def headline : ParseCause → String
  | unexpectedToken .. => "Not expected this"
  | unexpectedEnd _ => "Unexpected end of input"
  | wrongArgumentCount .. => "Wrong number of arguments"
  | incompleteParse _ => "Expected end of input"
  | tooDeep _ => "Expression is nested too deeply"
  | unknownFunction _ => "Function has no arity rule"

/-- One line for each kind of token that would have been in place. -/
def alternatives (expected : List TokenKind) : List String :=
  expected.map fun kind ↦ "- " ++ kind.describe

def notes : ParseCause → List String
  | unexpectedToken token expected =>
    ("Found " ++ token.describe ++ ", expected one of: ") :: alternatives expected
  | unexpectedEnd expected => "Expected one of: " :: alternatives expected
  | wrongArgumentCount function expected got => [argumentCountMessage function expected got]
  | incompleteParse token => ["Found " ++ token.describe ++ " after a complete expression"]
  | tooDeep limit => ["The limit is " ++ toString limit ++ " grammar levels"]
  | unknownFunction name => ["`" ++ name ++ "` is missing from the registry"]

end ParseCause

def ParseError.message (e : ParseError) : String :=
  e.cause.headline ++ " at index " ++ toString e.span.start ++ " (token " ++ toString e.index ++
    ")" ++ if e.cause.notes.isEmpty then "" else ": " ++ " ".intercalate e.cause.notes

/-! ## Errors of evaluation

An evaluation error is a cause, the span of the token of the node that failed, and a frame for every
application around that node, the innermost first. -/

/-- Why a node of a tree has no value. -/
inductive EvalCause
  /-- An identifier is not bound. -/
  | missingIdentifier (name : String)
  /-- The text of a number, or the one bound to an identifier, is no decimal. -/
  | malformedDecimal (text : String)
  /-- An operator has no value at its operands. -/
  | operation (error : OperationError)
  /-- A function has no value at its arguments. -/
  | call (function : String) (error : CallError)
deriving DecidableEq, Repr

/-- An application that an error came out of. -/
structure Frame where
  /-- The operator or the function as the formula has it. -/
  operator : String
  /-- Where it stands. -/
  span : Span
deriving DecidableEq, Repr

structure EvalError where
  /-- What failed. -/
  cause : EvalCause
  /-- The token of the node that failed. -/
  span : Span
  /-- The applications around that node, the innermost first. -/
  frames : List Frame
deriving DecidableEq, Repr

/-- The frame of an application. -/
def Frame.ofToken (t : Token) : Frame := ⟨t.text, t.span⟩

namespace EvalCause

def headline : EvalCause → String
  | missingIdentifier _ => "Identifier has no value"
  | malformedDecimal _ => "Value is not a decimal number"
  | operation error => error.headline
  | call .. => "Function call failed"

def notes : EvalCause → List String
  | missingIdentifier name => ["No value was bound to `\x7b" ++ name ++ "\x7d`"]
  | malformedDecimal text => ["Could not read " ++ Text.quote text ++ " as a decimal"]
  | operation error => error.notes
  | call function error => [function ++ ": " ++ error.message]

end EvalCause

namespace EvalError

/-- An error at a token, with no application around it yet. -/
def ofToken (token : Token) (cause : EvalCause) : EvalError := ⟨cause, token.span, []⟩

/-- The error when it comes out of the application at a token. -/
def through (token : Token) (e : EvalError) : EvalError :=
  { e with frames := e.frames ++ [.ofToken token] }

def message (e : EvalError) : String :=
  e.cause.headline ++ " at index " ++ toString e.span.start ++
    (if e.cause.notes.isEmpty then "" else " (" ++ "; ".intercalate e.cause.notes ++ ")") ++
    String.join (e.frames.map fun f ↦
      ", in `" ++ f.operator ++ "` at index " ++ toString f.span.start)

end EvalError

/-! ## Errors of the library

An error is an error of scanning, parsing or evaluating, together with the formula it is about, or
the failure to read a file. Errors of evaluation may lack the formula: a tree can be evaluated
without it.

Errors fall into five kinds. All but one are about the formula; a `system` error means that a value
that was supplied from outside is no number, that a file cannot be read, or that the parts of the
library were given different registries. -/

/-! ### Kinds -/

/-- What sort of failure an error is. -/
inductive ErrorKind
  /-- Characters make no token. -/
  | illegalCharacter
  /-- Tokens make no formula. -/
  | illegalSyntax
  /-- A formula has no value. -/
  | illegalCalculation
  /-- A formula is nested too deeply. -/
  | tooDeep
  /-- Something other than the formula is at fault. -/
  | system
deriving DecidableEq, Repr

namespace ErrorKind

def title : ErrorKind → String
  | illegalCharacter => "Illegal character"
  | illegalSyntax => "Illegal syntax"
  | illegalCalculation => "Illegal calculation"
  | tooDeep => "Expression too deep"
  | system => "System error"

/-- The kind in the middle of a line. -/
def phrase : ErrorKind → String
  | illegalCharacter => "illegal character"
  | illegalSyntax => "illegal syntax"
  | illegalCalculation => "illegal calculation"
  | tooDeep => "expression too deep"
  | system => "system error"

/-- Whether the formula is at fault. -/
def isUserError (kind : ErrorKind) : Bool := kind != system

end ErrorKind

def ParseError.kind (e : ParseError) : ErrorKind :=
  match e.cause with
  | .tooDeep _ => .tooDeep
  | .unknownFunction _ => .system
  | _ => .illegalSyntax

def EvalError.kind (e : EvalError) : ErrorKind :=
  match e.cause with
  | .malformedDecimal _ | .call _ (.unknownFunction _) => .system
  | .call _ (.wrongArgumentCount ..) => .illegalSyntax
  | _ => .illegalCalculation

/-! ### Errors -/

/-- Why a file cannot be read as text. -/
inductive FileError
  | notFound
  | isDirectory
  | notDirectory
  | invalidData
  | unexpectedEnd
deriving DecidableEq, Repr

def FileError.message : FileError → String
  | notFound => "entity not found"
  | isDirectory => "is a directory"
  | notDirectory => "not a directory"
  | invalidData => "invalid data"
  | unexpectedEnd => "unexpected end of file"

/-- Any failure of the library. -/
inductive Error
  | lexical (source : String) (error : LexicalError)
  | parse (source : String) (error : ParseError)
  | evaluation (source? : Option String) (error : EvalError)
  | file (error : FileError)
deriving DecidableEq, Repr

namespace Error

def kind : Error → ErrorKind
  | lexical .. => .illegalCharacter
  | parse _ e => e.kind
  | evaluation _ e => e.kind
  | file _ => .system

def message : Error → String
  | lexical _ e => ErrorKind.illegalCharacter.phrase ++ ": " ++ e.message
  | parse _ e => e.kind.phrase ++ ": " ++ e.message
  | evaluation _ e => e.kind.phrase ++ ": " ++ e.message
  | file e => "IO operation failed: " ++ e.message

/-- Gives the formula to an error of evaluation. -/
def withSource (source : String) : Error → Error
  | evaluation _ e => evaluation (some source) e
  | e => e

end Error

end DecimalFormula
