import DecimalFormula.Error
import DecimalFormula.Report.Snippet
import DecimalFormula.Text.Display

/-!
# Reports of errors

A report has a title, a place in a formula where one is known, and lines of text. With a place, the
headline of the error labels it in a snippet of the formula, and so does every application around
it. Without one, the headline opens the text, which then tells spans in numbers.
-/

namespace DecimalFormula

/-- The part of a formula that a report is about. -/
structure Place where
  /-- The formula. -/
  source : String
  /-- What the report is about. -/
  primary : Label
  /-- What else it points at. -/
  others : List Label
deriving DecidableEq, Repr

/-- An account of an error. -/
structure Report where
  /-- The kind of failure. -/
  title : String
  /-- Where in a formula it is, if that is known. -/
  place? : Option Place
  /-- What else there is to say. -/
  text : List String
deriving DecidableEq, Repr

namespace Report

def formulaName : String := "formula"

/-! ## Reports of the errors of the library -/

/-- What a frame says about an error that came out of it. -/
def frameText (f : Frame) : String := "while applying `" ++ f.operator ++ "`"

/-- The text of an evaluation error that has no formula. -/
def textWithoutSource (e : EvalError) : List String :=
  (e.cause.headline ++ " (at " ++ e.span.render ++ ")") :: e.cause.notes ++
    e.frames.map fun f ↦ frameText f ++ " at " ++ f.span.render

def ofError (e : Error) : Report :=
  match e with
  | .lexical source err =>
    ⟨e.kind.title, some ⟨source, ⟨err.span, err.cause.headline⟩, []⟩, err.cause.notes⟩
  | .parse source err =>
    ⟨e.kind.title, some ⟨source, ⟨err.span, err.cause.headline⟩, []⟩, err.cause.notes⟩
  | .evaluation (some source) err =>
    ⟨e.kind.title,
      some ⟨source, ⟨err.span, err.cause.headline⟩, err.frames.map fun f ↦ ⟨f.span, frameText f⟩⟩,
      err.cause.notes⟩
  | .evaluation none err => ⟨e.kind.title, none, textWithoutSource err⟩
  | .file err => ⟨"Standard IO error", none, [err.message]⟩

/-! ## Text of a report -/

def unlines (lines : List String) : String := String.join (lines.map (· ++ "\n"))

/-- The title of a report with the snippet, if it has a place. -/
def head (colour : Bool) (r : Report) : String :=
  match r.place? with
  | some place =>
    unlines (("error: " ++ r.title) ::
      Snippet.rows formulaName place.source place.primary place.others ++ [""])
  | none =>
    Text.Ansi.switch colour Text.Ansi.boldRed ++ "error" ++
      Text.Ansi.switch colour Text.Ansi.bold ++ ": " ++ r.title ++ "\n\n" ++
      Text.Ansi.switch colour Text.Ansi.plain

/-- A report on lines of its own, an empty one last. Only a title without a place is coloured. -/
def render (colour : Bool) (r : Report) : String :=
  let text := "\n".intercalate r.text
  r.head colour ++ (if text.isEmpty then "" else text ++ "\n") ++ "\n"

end Report

def Error.report (e : Error) : String := (Report.ofError e).render false

end DecimalFormula
