import DecimalFormula.Text.Display
import DecimalFormula.Text.Words
import DecimalFormula.TextCursor

/-!
# Source lines with labels

Labels are drawn below the line of a text that they point at, by the columns that the line takes on
a terminal.
-/

namespace DecimalFormula

/-! ## Lines of a text on a terminal

Lines end at a line feed and nowhere else. What a line shows is its text without the line feed and
the carriage returns and zero characters around it; every character shown occupies a cell, which has
a place among the bytes of the line and a width in columns. -/

/-- A line of a text. -/
structure Line where
  /-- Its number, from one on. -/
  number : Nat
  /-- The offset of its first byte in the text. -/
  start : Nat
  /-- Its characters, without the line feed. -/
  chars : List Char
deriving DecidableEq, Repr, Inhabited

/-- A character on a terminal. -/
structure Cell where
  /-- The offset of its first byte in its line. -/
  offset : Nat
  char : Char
  /-- The number of columns it takes. -/
  width : Nat
deriving DecidableEq, Repr

namespace Cell

def stop (c : Cell) : Nat := c.offset + c.char.utf8Size

/-- The cells of characters, from an offset and a column on. -/
def ofChars (offset column : Nat) : List Char → List Cell
  | [] => []
  | c :: cs =>
    let width := Text.columnsAt column c
    ⟨offset, c, width⟩ :: ofChars (offset + c.utf8Size) (column + width) cs

/-- What the cell shows. A tab shows the blanks it stands for. -/
def shown (c : Cell) : String :=
  if c.char = '\t' then "".pushn ' ' c.width else c.char.toString

/-- The columns of the cell, each filled with the same character. -/
def fill (c : Cell) (char : Char) : String := "".pushn char c.width

end Cell

namespace Line

/-- Splits characters into lines. The last line is what stands behind the last line feed. -/
def split (number start : Nat) : List Char → List Line
  | [] => [⟨number, start, []⟩]
  | c :: cs =>
    if c = '\n' then ⟨number, start, []⟩ :: split (number + 1) (start + 1) cs
    else
      match split number (start + c.utf8Size) cs with
      | [] => []
      | first :: rest => { first with start := start, chars := c :: first.chars } :: rest

def all (source : String) : List Line := split 1 0 source.toList

/-- The line that an offset of a text lies in. The offset behind the text is in the last line. -/
def ofOffset (source : String) (offset : Nat) : Line :=
  ((all source).takeWhile (·.start ≤ offset)).getLast?.getD default

/-- Characters that are not shown at the end of a line. -/
def isHidden (c : Char) : Bool := c == '\r' || c == '\n' || c == '\x00'

/-- The characters that are shown. -/
def shownChars (l : Line) : List Char := Text.dropTrailing isHidden l.chars

def cells (l : Line) : List Cell := Cell.ofChars 0 0 l.shownChars

/-- What the line shows. -/
def shown (l : Line) : String := String.join (l.cells.map Cell.shown)

/-- The number of bytes that are shown. -/
def shownLength (l : Line) : Nat := byteLength l.shownChars

/-- The number of bytes of white space that the line starts with. -/
def leadingSpace (l : Line) : Nat := byteLength (l.shownChars.takeWhile Text.isSpace)

/-- The column of an offset into the text, from one on, counted in characters. -/
def columnOf (l : Line) (offset : Nat) : Nat :=
  ((Cell.ofChars l.start 0 l.chars).takeWhile (·.stop ≤ offset)).length + 1

end Line

/-! ## Snippets of a text

A snippet shows the line of a text that a label points at, with the label drawn below it, and other
labels in the same line. The first label is drawn with `^`, the others with `-`.

The row of marks covers every column that a label covers. The label that stops last has its text
behind the marks, unless it overlaps another one. All other labels hang: a row of pointers leads
down from their first columns, and then each has a row with its text, the last one first, so that no
text covers a pointer.

A label that crosses the end of its line is drawn on its own, as a bracket around its lines. -/

/-- A text at a span. -/
structure Label where
  /-- What it points at. -/
  span : Span
  text : String
deriving DecidableEq, Repr

/-! ### Marks in one line -/

/-- A label in a line. It covers at least one byte. -/
structure Mark where
  /-- Whether it is the label that the snippet is about. -/
  isPrimary : Bool
  /-- The offset of its first byte in the line. -/
  start : Nat
  /-- The offset behind its last byte in the line. -/
  stop : Nat
  text : String
deriving DecidableEq, Repr

namespace Mark

/-- A label as a mark in the line it starts in. -/
def ofLabel (isPrimary : Bool) (line : Line) (label : Label) : Mark :=
  let start := label.span.start.toNat - line.start
  ⟨isPrimary, start, max (label.span.stop.toNat - line.start) (start + 1), label.text⟩

/-- Whether two marks have a byte in common. -/
def overlaps (a b : Mark) : Bool := max a.start b.start < min a.stop b.stop

/-- Whether a mark has a byte in common with a cell. -/
def covers (m : Mark) (c : Cell) : Bool := max m.start c.offset < min m.stop c.stop

def before (a b : Mark) : Bool := a.start < b.start || (a.start == b.start && a.stop < b.stop)

/-- Puts a mark in its place, in front of those with the same range. -/
def insert (m : Mark) : List Mark → List Mark
  | [] => [m]
  | n :: ns => if n.before m then n :: insert m ns else m :: n :: ns

/-- The marks in the order of their places. -/
def sort (marks : List Mark) : List Mark := marks.foldl (fun sorted m ↦ insert m sorted) []

/-- The place of the last mark that reaches as far as any before it. -/
def furthest (marks : List Mark) : Nat :=
  (marks.zipIdx.foldl
    (fun best m ↦ if best.1 ≤ m.1.stop then (m.1.stop, m.2) else best) ((0, 0) : Nat × Nat)).2

/-- Splits marks into the one whose text follows the row of marks, if it overlaps no other, and
those that hang. -/
def splitTrailing (marks : List Mark) : Option Mark × List Mark :=
  let others := marks.eraseIdx (furthest marks)
  match marks[furthest marks]? with
  | none => (none, marks)
  | some last => if others.any last.overlaps then (none, marks) else (some last, others)

end Mark

namespace Snippet

/-! ### Rows -/

/-- A space of one column, behind the last character of a line. -/
def endCell (line : Line) : Cell := ⟨line.shownLength, '\x00', 1⟩

/-- The character below a cell, if the row of marks reaches so far. -/
def markChar? (marks : List Mark) (reach : Nat) (cell : Cell) : Option Char :=
  let covering := marks.filter (·.covers cell)
  if covering.any Mark.isPrimary then some '^'
  else if !covering.isEmpty then some '-'
  else if cell.offset < reach then some ' '
  else none

/-- The row of marks below a line. -/
def markRow (line : Line) (marks : List Mark) : String :=
  let reach := (marks.map Mark.stop).foldl max 0
  String.join ((line.cells ++ [endCell line]).map fun cell ↦
    match markChar? marks reach cell with
    | some char => cell.fill char
    | none => "")

/-- What a row of pointers has below a cell: a pointer if a hanging mark starts there, and blanks up
to the place where the last mark starts. -/
def pointerAt (hanging : List Mark) (lastStart : Nat) (cell : Cell) : String :=
  let points := hanging.any fun m ↦ cell.offset ≤ m.start && m.start < cell.stop
  let blanks := if points then cell.width - 1 else cell.width
  (if points then "│" else "") ++ if cell.offset ≤ lastStart then "".pushn ' ' blanks else ""

/-- A row of pointers below some cells. -/
def pointerRow (hanging : List Mark) (lastStart : Nat) (cells : List Cell) : String :=
  String.join (cells.map (pointerAt hanging lastStart))

def markRows (line : Line) (marks : List Mark) : List String :=
  let (trailing, hanging) := Mark.splitTrailing marks
  let lastStart := (marks.map Mark.start).foldl max 0
  let first := markRow line marks ++ (trailing.map (" " ++ ·.text)).getD ""
  let texts := hanging.reverse.map fun m ↦
    pointerRow hanging lastStart (line.cells.takeWhile (·.offset < m.start)) ++ m.text
  first :: if hanging.isEmpty then [] else pointerRow hanging lastStart line.cells :: texts

/-! ### Gutters -/

def row (digits : Nat) (content : String) : String := "".pushn ' ' digits ++ " │" ++ content

def numberedRow (digits : Nat) (number : Nat) (content : String) : String :=
  let text := toString number
  "".pushn ' ' (digits - text.length) ++ text ++ " │" ++ content

/-- The row that says where the label starts. -/
def placeRow (digits : Nat) (name : String) (line : Line) (offset : Nat) : String :=
  "".pushn ' ' digits ++ " ┌─ " ++ name ++ ":" ++ toString line.number ++ ":" ++
    toString (line.columnOf offset)

/-! ### Labels that cross a line end -/

/-- A rule below some cells. -/
def rule (cells : List Cell) : String := String.join (cells.map (·.fill '─'))

/-- The rows of a label from one line to another. If only white space stands in front of the label,
the bracket opens beside its first line and not below it. -/
def bracketRows (digits : Nat) (lines : List Line) (first last : Line) (label : Label) :
    List String :=
  let start := label.span.start.toNat - first.start
  let top :=
    if start ≤ first.leadingSpace then [numberedRow digits first.number (" ╭ " ++ first.shown)]
    else
      [numberedRow digits first.number ("   " ++ first.shown),
        row digits (" ╭" ++ rule (first.cells.takeWhile (·.offset ≤ start)) ++ "^")]
  let others := lines.filter fun l ↦ first.number < l.number && l.number ≤ last.number
  let stop := label.span.stop.toNat - last.start
  row digits "  " :: top ++ others.map (fun l ↦ numberedRow digits l.number (" │ " ++ l.shown)) ++
    [row digits (" ╰" ++ rule (last.cells.takeWhile (·.offset < stop)) ++ "^ " ++ label.text)]

/-! ### Snippets -/

def rows (name source : String) (primary : Label) (others : List Label) : List String :=
  let first := Line.ofOffset source primary.span.start.toNat
  let last := Line.ofOffset source primary.span.stop.toNat
  let digits := (toString (max first.number last.number)).length
  let place := placeRow digits name first primary.span.start.toNat
  if first.number = last.number then
    let marks := Mark.ofLabel true first primary :: others.map (Mark.ofLabel false first)
    place :: row digits "" :: numberedRow digits first.number (" " ++ first.shown) ::
      (markRows first (Mark.sort marks)).map fun content ↦ row digits (" " ++ content)
  else place :: bracketRows digits (Line.all source) first last primary

end Snippet

end DecimalFormula
