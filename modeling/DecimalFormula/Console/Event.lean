import DecimalFormula.Report.Basic

/-!
# What the program writes

A run of the program is a list of events, each of which writes to standard output or to standard
error. Answers go to standard output; what the program is doing, messages about its inner steps and
reports of errors go to standard error.

The time that a step took is not part of an event: it is filled in when the event is written, so
that a run depends on the arguments, the input and the files alone.
-/

namespace DecimalFormula.Console

/-! ## Events -/

/-- What a line of status is about. -/
inductive Status
  | parsing
  | reading
  | parsed
  | evaluated
  | debug
  | trace
deriving DecidableEq, Repr

namespace Status

def word : Status → String
  | parsing => "Parsing"
  | reading => "Reading"
  | parsed => "Parsed"
  | evaluated => "Evaluated"
  | debug => "debug"
  | trace => "trace"

def colour : Status → Nat
  | parsing | reading => 13
  | parsed | evaluated => 10
  | debug => 14
  | trace => 12

/-- The verbosity from which on lines of this sort are shown. -/
def verbosity : Status → Nat
  | debug => 2
  | trace => 3
  | _ => 0

/-- The columns of the word, which stands at their end. -/
def columns : Nat := 11

/-- The word in its columns. -/
def padded (s : Status) : String := "".pushn ' ' (columns - s.word.length) ++ s.word

end Status

/-- One thing that the program writes. -/
inductive Event
  /-- A text on standard output, as it stands. -/
  | print (text : String)
  /-- A line of status. -/
  | status (status : Status) (text : String)
  /-- A line of status that tells how long the step before it took. -/
  | finished (status : Status)
  /-- The report of an error. -/
  | report (error : Error)
deriving DecidableEq, Repr

namespace Event

def line (text : String) : Event := print (text ++ "\n")

def statusLine (colour : Bool) (s : Status) (text : String) : String :=
  Text.Ansi.switch colour (Text.Ansi.boldColour s.colour) ++ s.padded ++
    Text.Ansi.switch colour Text.Ansi.plain ++ " " ++ text ++ "\n"

def output : Event → String
  | print text => text
  | status .. | finished _ | report _ => ""

/-- What an event adds to standard error, where a step took the given time. -/
def errorOutput (colour : Bool) (time : String) : Event → String
  | print _ => ""
  | status s text => statusLine colour s text
  | finished s => statusLine colour s ("in " ++ time)
  | report e => (Report.ofError e).render colour

/-- Whether an event is shown at some verbosity. -/
def isShown (verbosity : Nat) : Event → Bool
  | status s _ => s.verbosity ≤ verbosity
  | _ => true

end Event

/-! ## Runs -/

/-- How a run ends. -/
inductive Ending
  | success
  | failure
  | usageError
deriving DecidableEq, Repr

def Ending.code : Ending → Nat
  | success => 0
  | failure => 1
  | usageError => 2

/-- All that a run writes, and how it ends. -/
structure Run where
  events : List Event
  ending : Ending
deriving DecidableEq, Repr

namespace Run

/-- The run after some events. -/
def after (events : List Event) (r : Run) : Run := { r with events := events ++ r.events }

/-- The run without the messages that are not asked for. -/
def shownAt (verbosity : Nat) (r : Run) : Run :=
  { r with events := r.events.filter (·.isShown verbosity) }

def output (r : Run) : String := String.join (r.events.map Event.output)

/-- What a run writes to standard error. -/
def errorOutput (colour : Bool) (time : String) (r : Run) : String :=
  String.join (r.events.map (Event.errorOutput colour time))

/-- A run that ends with an error. -/
def failed (e : Error) : Run := ⟨[.report e], .failure⟩

end Run

end DecimalFormula.Console
