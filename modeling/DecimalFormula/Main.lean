import DecimalFormula.Console.Program

/-!
# The command line

Reads the arguments, the environment, files and standard input, and writes the events of the run.
-/

namespace DecimalFormula.Console

def readFile (path : String) : IO (Except FileError (List UInt8)) := do
  try
    return .ok (← IO.FS.readBinFile path).toList
  catch e =>
    match e with
    | .inappropriateType .. => return .error .isDirectory
    | _ => return .error .notFound

/-- Whether standard error is to be coloured. -/
def wantsColour : IO Bool := do
  match ← IO.getEnv "FORCE_COLOR" with
  | some force => if !force.isEmpty then return true else (← IO.getStderr).isTty
  | none => (← IO.getStderr).isTty

def seconds (milliseconds : Nat) : String :=
  let hundredths := (milliseconds + 5) / 10
  let rest := toString (hundredths % 100)
  toString (hundredths / 100) ++ "." ++ (if rest.length = 1 then "0" else "") ++ rest ++ "s"

/-- Writes events, with the time since the given one at the steps that are finished. -/
def write (colour : Bool) (started : Nat) (events : List Event) : IO Unit := do
  let time := seconds ((← IO.monoMsNow) - started)
  for event in events do
    IO.print event.output
    IO.eprint (event.errorOutput colour time)
  (← IO.getStdout).flush

/-- Runs a loop on standard input. -/
def interact (colour : Bool) (verbosity : Nat) (e : Engine) (loop : Loop) : IO Unit := do
  let mut bindings := NameMap.empty
  repeat
    IO.print loop.prompt
    (← IO.getStdout).flush
    let line ← (← IO.getStdin).getLine
    if line.isEmpty then
      break
    let (events, next?) := loop.step e bindings (.ofList (Loop.chomp line.toList))
    write colour (← IO.monoMsNow) (events.filter (·.isShown verbosity))
    match next? with
    | some next => bindings := next
    | none => break

def runProgram (args : List String) : IO Nat := do
  match CommandLine.read args with
  | .error halt =>
    let t := transcriptOfHalt halt
    IO.print t.output
    IO.eprint t.errorOutput
    return t.ending.code
  | .ok i =>
    let colour ← wantsColour
    match loop? i.command with
    | some loop =>
      interact colour i.verbosity (engineOf i) loop
      return 0
    | none =>
      let started ← IO.monoMsNow
      let contents ← match i.command with
        | .file path _ => readFile path
        | _ => pure (.error .notFound)
      let run := (runCommand (engineOf i) (fun _ ↦ contents) i.command).shownAt i.verbosity
      write colour started run.events
      return run.ending.code

end DecimalFormula.Console

def main (args : List String) : IO UInt32 := do
  return (← DecimalFormula.Console.runProgram args).toUInt32
