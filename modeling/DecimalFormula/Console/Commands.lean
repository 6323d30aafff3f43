import DecimalFormula.CommandLine.Invocation
import DecimalFormula.Console.Event
import DecimalFormula.Decimal.Text
import DecimalFormula.Engine
import DecimalFormula.Tree.Text

/-!
# Commands on one formula

Three commands are about one formula, which they evaluate or show. Like every use of an engine they
leave messages about its steps.
-/

namespace DecimalFormula.Console

open CommandLine

/-! ## Messages about the steps of an engine

Every step from a text to a value leaves messages. Each function here gives the messages of a step
from its input and what came of it; the step itself is the engine's. -/

def lexEvents (formula : String) : Except Error (List Token) → List Event
  | .ok tokens =>
    [.status .debug ("lexing " ++ Text.quote formula),
      .status .trace
        ("scanned " ++ toString tokens.length ++ " tokens from " ++ Text.quote formula)]
  | .error _ => [.status .debug ("lexing " ++ Text.quote formula)]

/-- The messages of parsing some tokens. -/
def treeEvents (count : Nat) : Except Error Tree → List Event
  | .ok tree =>
    [.status .debug ("parsing " ++ toString count ++ " tokens"),
      .status .trace ("parsed " ++ toString count ++ " tokens into " ++ tree.render),
      .status .trace ("ast: " ++ tree.listing)]
  | .error _ => [.status .debug ("parsing " ++ toString count ++ " tokens")]

def parseEvents (e : Engine) (formula : String) : List Event :=
  let tokens := e.lex formula
  lexEvents formula tokens ++
    match tokens with
    | .ok tokens => treeEvents tokens.length (e.parseTokens formula tokens)
    | .error _ => []

/-- The messages of evaluating a tree. -/
def evaluateEvents (bindings : Bindings) (tree : Tree) (outcome : Except Error Decimal) :
    List Event :=
  .status .debug
      ("evaluating " ++ tree.render ++ " with " ++ toString bindings.size ++ " bindings") ::
    match outcome with
    | .ok value => [.status .debug (tree.render ++ " = " ++ value.render)]
    | .error _ => []

def evalFormulaEvents (e : Engine) (bindings : Bindings) (formula : String) : List Event :=
  parseEvents e formula ++
    match e.parse formula with
    | .ok tree => evaluateEvents bindings tree (e.evaluate bindings tree)
    | .error _ => []

/-! ## Commands

A formula is evaluated, or shown as a tree. A formula that is evaluated may be shown as well, before
its value. The first error is reported and ends the command. -/

/-- The values that definitions give to names. Of several with one name the last counts. -/
def bindingsOf (definitions : List Definition) : Bindings :=
  .ofList (definitions.map fun d ↦ (d.name, d.value))

/-- Shows a tree in the ways that were asked for. -/
def showTree (settings : Settings) (tree : Tree) : List Event :=
  (if settings.printTree then [.line tree.indentedListing] else []) ++
    if settings.printPolish then [.line tree.reversePolish] else []

/-- Evaluates a tree that was read from a text. -/
def finishEval (e : Engine) (settings : Settings) (source : String) (tree : Tree) : Run :=
  let bindings := bindingsOf settings.definitions
  let outcome := e.evaluate bindings tree
  let events := .finished .parsed :: showTree settings tree ++ evaluateEvents bindings tree outcome
  match outcome with
  | .ok value => ⟨events ++ [.line value.render, .finished .evaluated], .success⟩
  | .error err => .after events (.failed (err.withSource source))

def runEval (e : Engine) (formula : String) (settings : Settings) : Run :=
  .after (.status .parsing formula :: parseEvents e formula) <|
    match e.parse formula with
    | .ok tree => finishEval e settings formula tree
    | .error err => .failed err

/-- Evaluates the formula in a file, given what came of reading its bytes. -/
def runFile (e : Engine) (path : String) (contents : Except FileError (List UInt8))
    (settings : Settings) : Run :=
  let events := match contents.bind Engine.formulaOfBytes with
    | .ok source => parseEvents e source
    | .error _ => []
  .after (.status .reading path :: .status .debug ("reading formula from " ++ path) :: events) <|
    match e.parseFile contents with
    | .ok parsed => finishEval e settings parsed.source parsed.root
    | .error err => .failed err

/-- Two ways to write a tree, one on each line. -/
def treeLines (tree : Tree) : List Event :=
  [.line tree.render, .line ("postfix: " ++ tree.reversePolish)]

/-- Shows a formula as a tree, with the names it reads. -/
def runCheck (e : Engine) (formula : String) : Run :=
  .after (parseEvents e formula) <|
    match e.parse formula with
    | .ok tree =>
      let names := tree.identifiers
      ⟨treeLines tree ++
        if names.isEmpty then [] else [.line ("identifiers: " ++ ", ".intercalate names)],
        .success⟩
    | .error err => .failed err

end DecimalFormula.Console
