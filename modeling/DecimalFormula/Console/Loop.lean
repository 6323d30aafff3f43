import DecimalFormula.Console.Commands

/-!
# Reading lines until the input ends

Three loops read a line after the other. Two of them show every line, as tokens or as a tree. The
third evaluates formulas and keeps bindings between the lines, which lines that start with a point
change and list. Errors are reported and do not end a loop.

A loop is a step from its bindings and a line to what is written and the bindings for the next line;
leaving the loop is the lack of a next line.
-/

namespace DecimalFormula.Console

open CommandLine

inductive Loop
  | tokens
  | trees
  | values
deriving DecidableEq, Repr

namespace Loop

def prompt : Loop → String
  | tokens | trees => ">> "
  | values => "=> "

/-- The line that leaves a loop. -/
def exitWord : String := ".exit"

/-! ## Lines as tokens and as trees -/

/-- A token on a line of its own. -/
def tokenLine (t : Token) : Event :=
  .line (t.kind.name ++ " " ++ Text.quote t.text ++ " at " ++ t.span.render)

/-- The tokens of a line up to the first error. -/
def tokenEvents (e : Engine) (line : String) : List Event :=
  let (scanned, error?) := Lexer.run e.registry (.start line.toList)
  scanned.map tokenLine ++
    match error? with
    | some err => [.report (.lexical line err)]
    | none => []

/-- A line as a tree. -/
def treeEvents (e : Engine) (line : String) : List Event :=
  parseEvents e line ++
    match e.parse line with
    | .ok tree => treeLines tree
    | .error err => [.report err]

/-! ## Lines as formulas and as commands -/

def help : String :=
  ".set <name> <value>  bind \x7bname\x7d to a decimal value\n" ++
  ".unset <name>        remove a binding\n" ++
  ".vars                list bindings\n" ++
  ".funcs               list functions\n" ++
  ".exit                leave"

def braced (name : String) : String := "\x7b" ++ name ++ "\x7d"

/-- The name that a word stands for, with or without its braces. -/
def nameOf (word : List Char) : String := .ofList (Definition.bareName word)

/-- What a line does. -/
inductive Request
  | nothing
  | exit
  | help
  | listBindings
  | listFunctions
  | set (name value : String)
  /-- The value to be bound is no number. -/
  | badValue (value : String)
  | setUsage
  | unset (name : String)
  | unsetUsage
  | unknownCommand (word : String)
  | formula (text : String)
deriving DecidableEq, Repr

/-- Reads a line. White space around it does not count, and further words behind a command do not
either. -/
def Request.ofLine (line : String) : Request :=
  let text := Text.trim line.toList
  match Text.words text with
  | [] => nothing
  | first :: rest =>
    let word := String.ofList first
    if word = exitWord then exit
    else if word = ".help" then help
    else if word = ".vars" then listBindings
    else if word = ".funcs" then listFunctions
    else if word = ".set" then
      match rest with
      | name :: value :: _ =>
        if (Decimal.readValue? (.ofList value)).isSome then set (nameOf name) (.ofList value)
        else badValue (.ofList value)
      | _ => setUsage
    else if word = ".unset" then
      match rest with
      | name :: _ => unset (nameOf name)
      | [] => unsetUsage
    else if word.startsWith "." then unknownCommand word
    else formula (.ofList text)

def Request.bindings (b : Bindings) : Request → Bindings
  | set name value => b.insert name value
  | unset name => b.erase name
  | _ => b

def Request.events (e : Engine) (b : Bindings) : Request → List Event
  | nothing | exit | set .. => []
  | help => [.line Loop.help]
  | listBindings => b.toList.map fun (name, value) ↦ .line (braced name ++ " = " ++ value)
  | listFunctions => [.line (", ".intercalate e.registry.names)]
  | badValue value => [.line ("`" ++ value ++ "` is not a decimal")]
  | setUsage => [.line "usage: .set <name> <value>"]
  | unset name => if b.contains name then [] else [.line (braced name ++ " is not bound")]
  | unsetUsage => [.line "usage: .unset <name>"]
  | unknownCommand word => [.line ("unknown command `" ++ word ++ "`, try .help")]
  | formula text =>
    evalFormulaEvents e b text ++
      match e.evalFormula b text with
      | .ok value => [.line value.render]
      | .error err => [.report err]

/-! ## Steps -/

def step (loop : Loop) (e : Engine) (b : Bindings) (line : String) : List Event × Option Bindings :=
  match loop with
  | .values =>
    let request := Request.ofLine line
    (request.events e b, if request = .exit then none else some (request.bindings b))
  | .tokens | .trees =>
    if line.isEmpty then ([], some b)
    else if line = exitWord then ([], none)
    else (if loop = .tokens then tokenEvents e line else treeEvents e line, some b)

/-- All lines, with a prompt in front of each and of the end of the input. -/
def events (loop : Loop) (e : Engine) (b : Bindings) : List String → List Event
  | [] => [.print loop.prompt]
  | line :: lines =>
    let (written, next?) := loop.step e b line
    .print loop.prompt :: written ++
      match next? with
      | some next => events loop e next lines
      | none => []

/-! ## Lines of an input -/

/-- A line without its line end, which is a line feed after an optional carriage return. -/
def chomp (cs : List Char) : List Char :=
  let cs := if cs.getLast? = some '\n' then cs.dropLast else cs
  if cs.getLast? = some '\r' then cs.dropLast else cs

/-- Splits an input behind each line feed. -/
def splitLines (current : List Char) : List Char → List (List Char)
  | [] => if current.isEmpty then [] else [current.reverse]
  | c :: cs =>
    if c = '\n' then (c :: current).reverse :: splitLines [] cs
    else splitLines (c :: current) cs

/-- The lines of an input, without their line ends. -/
def linesOf (input : String) : List String :=
  (splitLines [] input.toList).map fun cs ↦ .ofList (chomp cs)

/-- A loop over a whole input. -/
def run (loop : Loop) (e : Engine) (input : String) : Run :=
  ⟨loop.events e .empty (linesOf input), .success⟩

end Loop

end DecimalFormula.Console
