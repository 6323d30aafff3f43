import DecimalFormula.CommandLine.Options
import DecimalFormula.Parser

/-!
# Reading the arguments of the program

Arguments are read from left to right, first those in front of the command and then, by the same
rules, those behind it. An argument is an option with two hyphens, a group of one-letter options
behind one hyphen, the value that the option in front of it waits for, or the argument of the
command. Behind `--` there are no more options.

A value that stands in an argument of its own is looked at only when the next argument that means
something has been recognised. So an unknown option is reported before a malformed value in front of
it. For the same reason the arguments in front of the command are settled last.
-/

namespace DecimalFormula.CommandLine

/-- Why reading ends early. -/
inductive Halt
  | usage (error : UsageError)
  | help
  | version
deriving DecidableEq, Repr

/-- What was read last and not yet looked at. -/
inductive Pending
  /-- An option and its value, or an option that waits for its value. -/
  | option (switch : Switch) (value? : Option String)
  /-- The argument of the command. -/
  | argument (value : String)
deriving DecidableEq, Repr

/-- What the arguments in front of the command, or those behind it, have given so far. -/
structure Given where
  /-- How often more messages were asked for. -/
  verbosity : Nat
  limit? : Option Nat
  definitions : List Definition
  printTree : Bool
  printPolish : Bool
  argument? : Option String
  /-- Whether there is an argument of the command, looked at or not. -/
  hasArgument : Bool
  pending? : Option Pending
  /-- Whether `--` was read. -/
  trailing : Bool
deriving DecidableEq, Repr

namespace Given

/-- Before the first argument. -/
def nothing : Given := ⟨0, none, [], false, false, none, false, none, false⟩

def awaitsValue (g : Given) : Bool :=
  match g.pending? with
  | some (.option _ none) => true
  | _ => false

/-- The largest verbosity that is counted. -/
def maxVerbosity : Nat := 255

/-- Stops with an error of usage. -/
def reject {α : Type} (error : UsageError) : Except Halt α := .error (.usage error)

def applyValue (g : Given) (s : Switch) (value : String) : Except Halt Given :=
  match s with
  | .maxDepth =>
    if g.limit?.isSome then reject (.repeated s.usage)
    else
      match readNumber value with
      | .ok n => .ok { g with limit? := some n }
      | .error fault => reject (.invalidValue value s.usage fault.message)
  | .define =>
    match Definition.read value with
    | .ok d => .ok { g with definitions := g.definitions ++ [d] }
    | .error fault => reject (.invalidValue value s.usage fault.message)
  | _ => reject (.unexpectedValue value s.usage)

def applyFlag (g : Given) (s : Switch) : Except Halt Given :=
  match s with
  | .verbose => .ok { g with verbosity := min (g.verbosity + 1) maxVerbosity }
  | .printTree =>
    if g.printTree then reject (.repeated s.usage) else .ok { g with printTree := true }
  | .printPolish =>
    if g.printPolish then reject (.repeated s.usage) else .ok { g with printPolish := true }
  | .help => .error .help
  | .version => .error .version
  | .maxDepth | .define => reject (.missingValue s.usage)

/-- Looks at what is pending. Only a path has to be something. -/
def settle (scope : Option Verb) (g : Given) : Except Halt Given :=
  let rest := { g with pending? := none }
  match g.pending? with
  | none => .ok g
  | some (.option s none) => reject (.missingValue s.usage)
  | some (.option s (some value)) => rest.applyValue s value
  | some (.argument value) =>
    if scope = some .file ∧ value.isEmpty then reject (.missingValue pathUsage)
    else .ok { rest with argument? := some value }

end Given

/-! ## One argument -/

/-- Splits an option with two hyphens into its name and its value, if one is attached. -/
def longOption? (arg : String) : Option (String × Option String) :=
  match arg.toList with
  | '-' :: '-' :: cs =>
    let name := String.ofList (cs.takeWhile (· != '='))
    match cs.dropWhile (· != '=') with
    | [] => some (name, none)
    | _ :: value => some (name, some (.ofList value))
  | _ => none

/-- The letters behind one hyphen. A hyphen alone is no option. -/
def shortOptions? (arg : String) : Option (List Char) :=
  match arg.toList with
  | '-' :: c :: cs => some (c :: cs)
  | _ => none

def readLong (scope : Option Verb) (g : Given) (name : String) (value? : Option String) :
    Except Halt Given :=
  match Switch.ofLong? scope name with
  | none => Given.reject (.unexpectedArgument ("--" ++ name))
  | some s =>
    match value? with
    | some value =>
      if s.takesValue then (g.settle scope).bind (·.applyValue s value)
      else Given.reject (.unexpectedValue value s.usage)
    | none =>
      (g.settle scope).bind fun g ↦
        if s.takesValue then .ok { g with pending? := some (.option s none) } else g.applyFlag s

/-- Reads a group of one-letter options. The rest of the group is the value of an option that takes
one, after an optional equals sign. -/
def readShort (scope : Option Verb) (g : Given) : List Char → Except Halt Given
  | [] => .ok g
  | c :: cs =>
    match Switch.ofShort? scope c with
    | none => Given.reject (.unexpectedArgument (.ofList ['-', c]))
    | some s =>
      (g.settle scope).bind fun g ↦
        if s.takesValue then
          match cs with
          | [] => .ok { g with pending? := some (.option s none) }
          | '=' :: value => g.applyValue s (.ofList value)
          | value => g.applyValue s (.ofList value)
        else (g.applyFlag s).bind fun g ↦ readShort scope g cs

/-- The complaint about an argument that has no place. -/
def stray (scope : Option Verb) (g : Given) (arg : String) : UsageError :=
  if scope.isSome || (g.trailing && ((Verb.ofWord? arg).isSome || arg == helpWord)) then
    .unexpectedArgument arg
  else .unknownCommand arg

def readArgument (scope : Option Verb) (g : Given) (arg : String) : Except Halt Given :=
  if scope.any Verb.takesArgument && !g.hasArgument then
    (g.settle scope).map fun g ↦
      { g with pending? := some (.argument arg), hasArgument := true }
  else Given.reject (stray scope g arg)

def readOne (scope : Option Verb) (g : Given) (arg : String) : Except Halt Given :=
  if g.trailing then readArgument scope g arg
  else if arg = "--" then .ok { g with trailing := true }
  else
    match longOption? arg, shortOptions? arg with
    | some (name, value?), _ => readLong scope g name value?
    | none, some letters => readShort scope g letters
    | none, none =>
      match g.pending? with
      | some (.option s none) => .ok { g with pending? := some (.option s (some arg)) }
      | _ => readArgument scope g arg

/-! ## All arguments -/

/-- What the program is asked to do with a formula besides evaluating it. -/
structure Settings where
  definitions : List Definition
  printTree : Bool
  printPolish : Bool
deriving DecidableEq, Repr

/-- What the program is asked to do. -/
inductive Command
  /-- Evaluate a formula. -/
  | eval (formula : String) (settings : Settings)
  /-- Evaluate the formula in a file. -/
  | file (path : String) (settings : Settings)
  /-- Show a formula as a tree. -/
  | check (formula : String)
  /-- Show the tokens of every line. -/
  | tokens
  /-- Show every line as a tree. -/
  | trees
  /-- Evaluate every line. -/
  | values
deriving DecidableEq, Repr

/-- A command with the options of the whole program. -/
structure Invocation where
  verbosity : Nat
  limit : Nat
  command : Command
deriving DecidableEq, Repr

def Given.command (g : Given) (verb : Verb) : Except Halt Command :=
  let settings := ⟨g.definitions, g.printTree, g.printPolish⟩
  match verb, g.argument? with
  | .eval, some formula => .ok (.eval formula settings)
  | .file, some path => .ok (.file path settings)
  | .check, some formula => .ok (.check formula)
  | .tokens, _ => .ok .tokens
  | .trees, _ => .ok .trees
  | .values, _ => .ok .values
  | _, none => Given.reject .missingArgument

def readRest (verb : Verb) (args : List String) : Except Halt Given :=
  (args.foldlM (readOne (some verb)) .nothing).bind (·.settle (some verb))

/-- The options of the whole program behind the command override those in front of it. -/
def invocation (front rest : Given) (command : Command) : Invocation where
  verbosity := if rest.verbosity = 0 then front.verbosity else rest.verbosity
  limit := (rest.limit?.or front.limit?).getD Parser.defaultLimit
  command := command

/-- Answers a request for help on a command, which has to exist. -/
def readHelp (args : List String) : Halt :=
  match args with
  | [] => .help
  | word :: rest =>
    if (Verb.ofWord? word).isSome then
      match rest with
      | [] => .help
      | extra :: _ => .usage (.unknownCommand extra)
    else if word = helpWord then .help
    else .usage (.unknownCommand word)

/-- Reads arguments up to the command and from there on. -/
def readFrom (g : Given) : List String → Except Halt Invocation
  | [] =>
    (g.settle none).bind fun g ↦
      Given.reject (if g.verbosity = 0 ∧ g.limit?.isNone then .nothingGiven else .missingCommand)
  | arg :: args =>
    if g.trailing || g.awaitsValue then (readOne none g arg).bind (readFrom · args)
    else if arg = helpWord then .error (readHelp args)
    else
      match Verb.ofWord? arg with
      | some verb =>
        (readRest verb args).bind fun rest ↦
          (rest.command verb).bind fun command ↦
            (g.settle none).map fun front ↦ invocation front rest command
      | none => (readOne none g arg).bind (readFrom · args)

def read (args : List String) : Except Halt Invocation := readFrom .nothing args

end DecimalFormula.CommandLine
