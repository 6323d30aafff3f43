import DecimalFormula.Console.Loop
import DecimalFormula.Error

/-!
# The program as a function

What the program writes and how it ends, as a function of its arguments, its input and the files it
can read.
-/

namespace DecimalFormula.Console

open CommandLine

/-! ## Folders of files

What can be read by a path: a file among those of a folder, given by their paths in it. A path is
taken apart at its slashes, and parts that lead nowhere are left out. -/

/-- The files of a folder, by path. -/
abbrev Folder := List (String × List UInt8)

namespace Folder

/-- What stands between the slashes of a path. -/
def pieces (path : String) : List String := (path.toList.splitOn '/').map .ofList

def parts (path : String) : List String :=
  (pieces path).filter fun part ↦ part != "" && part != "."

def namesFolder (path : String) : Bool :=
  match (pieces path).getLast? with
  | some last => last == "" || last == "." || last == ".."
  | none => true

/-- The bytes of the file with a path. -/
def read (folder : Folder) (path : String) : Except FileError (List UInt8) :=
  let wanted := parts path
  let isAbove (part whole : List String) : Bool := part.isPrefixOf whole && part != whole
  if path.startsWith "/" then if wanted.isEmpty then .error .isDirectory else .error .notFound
  else if wanted.isEmpty || wanted.all (· == "..") then .error .isDirectory
  else
    match folder.find? fun f ↦ parts f.1 == wanted with
    | some f => if namesFolder path then .error .notDirectory else .ok f.2
    | none =>
      if folder.any fun f ↦ isAbove wanted (parts f.1) then .error .isDirectory
      else if folder.any fun f ↦ isAbove (parts f.1) wanted then .error .notDirectory
      else .error .notFound

end Folder

/-! ## Invocations -/

/-- The name and the version of the program. -/
def versionLine : String := "formulac 0.1.0\n"

def helpText : String :=
  UsageError.purpose ++ "\n\nUsage: formulac [OPTIONS] <COMMAND>\n\nCommands:\n" ++
  "  eval <FORMULA>   Evaluates a formula\n" ++
  "  file <PATH>      Evaluates the formula in a file\n" ++
  "  check <FORMULA>  Shows a formula as a tree\n" ++
  "  rlpl             Shows the tokens of every line\n" ++
  "  rppl             Shows every line as a tree\n" ++
  "  repl             Evaluates every line\n\nOptions:\n" ++
  "  -v, --verbose                Shows more messages; repeatable\n" ++
  "      --max-depth <MAX_DEPTH>  Limits the nesting of formulas\n" ++
  "  -d, --define <NAME=VALUE>    Binds a name, for eval and file; repeatable\n" ++
  "      --print-ast              Shows the tree before its value\n" ++
  "      --postfix                Shows the reverse Polish form before its value\n" ++
  "  -h, --help                   Shows this help\n" ++
  "  -V, --version                Shows the version\n"

def loop? : Command → Option Loop
  | .tokens => some .tokens
  | .trees => some .trees
  | .values => some .values
  | .eval .. | .file .. | .check _ => none

def engineOf (i : Invocation) : Engine := { Engine.standard with limit := i.limit }

/-- A command on one formula. The loops write nothing by themselves. -/
def runCommand (e : Engine) (readFile : String → Except FileError (List UInt8)) : Command → Run
  | .eval formula settings => runEval e formula settings
  | .file path settings => runFile e path (readFile path) settings
  | .check formula => runCheck e formula
  | .tokens | .trees | .values => ⟨[], .success⟩

def runInvocation (readFile : String → Except FileError (List UInt8)) (input : String)
    (i : Invocation) : Run :=
  Run.shownAt i.verbosity <|
    match loop? i.command with
    | some loop => loop.run (engineOf i) input
    | none => runCommand (engineOf i) readFile i.command

/-- What the program writes to standard output and to standard error, and how it ends. -/
structure Transcript where
  output : String
  errorOutput : String
  ending : Ending
deriving DecidableEq, Repr

/-- What is written when reading the arguments ends early. -/
def transcriptOfHalt : Halt → Transcript
  | .usage error => ⟨"", error.line ++ "\n", .usageError⟩
  | .help => ⟨helpText, "", .success⟩
  | .version => ⟨versionLine, "", .success⟩

/-- The program on its arguments, the files of its folder and its input. -/
def transcript (args : List String) (folder : Folder) (input : String) (colour : Bool)
    (time : String) : Transcript :=
  match CommandLine.read args with
  | .error halt => transcriptOfHalt halt
  | .ok i =>
    let run := runInvocation folder.read input i
    ⟨run.output, run.errorOutput colour time, run.ending⟩

end DecimalFormula.Console
