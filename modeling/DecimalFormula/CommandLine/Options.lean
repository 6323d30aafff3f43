import DecimalFormula.Text.Words

/-!
# What the arguments of the program may say

The commands and options of the program, the values that options take, and what can be wrong with
all of them. How a list of arguments is read is told in `DecimalFormula.CommandLine.Invocation`.
-/

namespace DecimalFormula

namespace CommandLine

/-! ## Commands and options

The program has six commands. Three take a formula or a file of one as their argument, and three
read lines until the input ends. Every option belongs to the program as a whole or to some commands;
those of the whole program may be given in front of the command and behind it. -/

/-! ### Commands -/

/-- The names of commands. -/
inductive Verb
  | eval
  | file
  | check
  | tokens
  | trees
  | values
deriving DecidableEq, Repr

namespace Verb

def all : List Verb := [eval, file, check, tokens, trees, values]

def word : Verb → String
  | eval => "eval"
  | file => "file"
  | check => "check"
  | tokens => "rlpl"
  | trees => "rppl"
  | values => "repl"

def ofWord? (word : String) : Option Verb := all.find? (·.word == word)

def takesArgument : Verb → Bool
  | eval | file | check => true
  | tokens | trees | values => false

def evaluates : Verb → Bool
  | eval | file => true
  | _ => false

end Verb

/-- The word that asks for help in place of a command. -/
def helpWord : String := "help"

/-! ### Options -/

/-- The options. -/
inductive Switch
  | verbose
  | maxDepth
  | define
  | printTree
  | printPolish
  | help
  | version
deriving DecidableEq, Repr

namespace Switch

def all : List Switch := [verbose, maxDepth, define, printTree, printPolish, help, version]

def long : Switch → String
  | verbose => "verbose"
  | maxDepth => "max-depth"
  | define => "define"
  | printTree => "print-ast"
  | printPolish => "postfix"
  | help => "help"
  | version => "version"

def short? : Switch → Option Char
  | verbose => some 'v'
  | define => some 'd'
  | help => some 'h'
  | version => some 'V'
  | maxDepth | printTree | printPolish => none

def takesValue : Switch → Bool
  | maxDepth | define => true
  | _ => false

def usage : Switch → String
  | verbose => "--verbose..."
  | maxDepth => "--max-depth <MAX_DEPTH>"
  | define => "--define <NAME=VALUE>"
  | s => "--" ++ s.long

/-- Whether an option may be given to a command, or in front of all commands. -/
def isKnownTo (scope : Option Verb) : Switch → Bool
  | verbose | maxDepth | help => true
  | version => scope.isNone
  | define | printTree | printPolish => scope.any Verb.evaluates

def ofLong? (scope : Option Verb) (name : String) : Option Switch :=
  all.find? fun s ↦ s.isKnownTo scope && s.long == name

def ofShort? (scope : Option Verb) (letter : Char) : Option Switch :=
  all.find? fun s ↦ s.isKnownTo scope && s.short? == some letter

end Switch

/-- How messages write the argument of the command that reads a file. -/
def pathUsage : String := "<PATH>"

/-! ## Numbers in arguments

A number is one or more digits after an optional plus sign, and stays below `2 ^ 64`. It is read
from left to right, and the first thing that is wrong with it is reported. -/

inductive NumberFault
  | empty
  | notDigit
  | tooLarge
deriving DecidableEq, Repr

def NumberFault.message : NumberFault → String
  | empty => "cannot parse integer from empty string"
  | notDigit => "invalid digit found in string"
  | tooLarge => "number too large to fit in target type"

def numberLimit : Nat := UInt64.size

def readDigits (n : Nat) : List Char → Except NumberFault Nat
  | [] => .ok n
  | c :: cs =>
    if !c.isDigit then .error .notDigit
    else
      let next := n * 10 + (c.toNat - '0'.toNat)
      if next < numberLimit then readDigits next cs else .error .tooLarge

def readNumber (text : String) : Except NumberFault Nat :=
  match text.toList with
  | [] => .error .empty
  | ['+'] => .error .notDigit
  | '+' :: digits => readDigits 0 digits
  | digits => readDigits 0 digits

end CommandLine

/-! ## Definitions of identifiers

A definition gives a name and the text of a value as one word, `NAME=VALUE`. The name may be written
with its braces, any number of them, and both parts may have white space around them. Whether the
value is a number is not asked here. -/

/-- A name and the text of its value. -/
structure Definition where
  name : String
  value : String
deriving DecidableEq, Repr

namespace Definition

/-- Why a text defines nothing. -/
inductive Fault
  /-- There is no equals sign. -/
  | missingValue (text : String)
  /-- Nothing stands in front of the equals sign, braces and white space apart. -/
  | emptyName
deriving DecidableEq, Repr

def Fault.message : Fault → String
  | missingValue text => "expected NAME=VALUE, got `" ++ text ++ "`"
  | emptyName => "identifier name must not be empty"

/-- A name without opening braces in front and closing braces behind. -/
def bareName (cs : List Char) : List Char :=
  Text.dropTrailing (· == '\x7d') (cs.dropWhile (· == '\x7b'))

/-- Reads a definition. The first equals sign ends the name. -/
def read (text : String) : Except Fault Definition :=
  match text.toList.dropWhile (· != '=') with
  | [] => .error (.missingValue text)
  | _ :: value =>
    let name := bareName (Text.trim (text.toList.takeWhile (· != '=')))
    if name.isEmpty then .error .emptyName
    else .ok ⟨.ofList name, .ofList (Text.trim value)⟩

end Definition

/-! ## Errors of usage

What can be wrong with the arguments of the program. Arguments and options are named in messages as
the help writes them. -/

/-- Why arguments ask for nothing that can be done. -/
inductive UsageError
  /-- There are no arguments at all. -/
  | nothingGiven
  /-- There are options but no command. -/
  | missingCommand
  /-- There is no such command. -/
  | unknownCommand (name : String)
  /-- There is no place for an argument, or no such option. -/
  | unexpectedArgument (argument : String)
  /-- An option that takes no value is given one. -/
  | unexpectedValue (value option : String)
  /-- An option or an argument lacks its value. -/
  | missingValue (option : String)
  /-- The value of an option cannot be read. -/
  | invalidValue (value option reason : String)
  /-- An option that may be given once is given again. -/
  | repeated (option : String)
  /-- A command lacks its argument. -/
  | missingArgument
deriving DecidableEq, Repr

namespace UsageError

/-- What the program is for, in one line. -/
def purpose : String := "Parses and evaluates decimal formulas"

def message : UsageError → String
  | nothingGiven => purpose
  | missingCommand => "error: 'formulac' requires a subcommand but one was not provided"
  | unknownCommand name => "error: unrecognized subcommand '" ++ name ++ "'"
  | unexpectedArgument argument => "error: unexpected argument '" ++ argument ++ "' found"
  | unexpectedValue value option =>
    "error: unexpected value '" ++ value ++ "' for '" ++ option ++
      "' found; no more were expected"
  | missingValue option =>
    "error: a value is required for '" ++ option ++ "' but none was supplied"
  | invalidValue value option reason =>
    "error: invalid value '" ++ value ++ "' for '" ++ option ++ "': " ++ reason
  | repeated option => "error: the argument '" ++ option ++ "' cannot be used multiple times"
  | missingArgument => "error: the following required arguments were not provided:"

/-- The text of an error as far as the first line goes. -/
def line (e : UsageError) : String := .ofList (e.message.toList.takeWhile (· != '\n'))

end UsageError

end DecimalFormula
