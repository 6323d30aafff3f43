import DecimalFormula.Span

/-!
# Cursors in a text

A text cursor stands before a character of a text, or at its end. It holds the characters from there
on and the byte offset of the first of them, which is all a scanner needs to know: what has been
read never comes back. The offset is counted without a bound; it is cut to 32 bits where it is told,
in spans and as the position of a scanner.
-/

namespace DecimalFormula

/-- The number of bytes of characters in UTF-8. -/
def byteLength : List Char → Nat
  | [] => 0
  | c :: cs => c.utf8Size + byteLength cs

@[simp] theorem byteLength_nil : byteLength [] = 0 := rfl

@[simp] theorem byteLength_cons (c : Char) (cs : List Char) :
    byteLength (c :: cs) = c.utf8Size + byteLength cs := rfl

@[simp] theorem byteLength_append (cs ds : List Char) :
    byteLength (cs ++ ds) = byteLength cs + byteLength ds := by
  induction cs with
  | nil => simp
  | cons c cs ih => simp [ih, Nat.add_assoc]

/-- A position in a text with what follows it. -/
structure TextCursor where
  /-- The offset of the next character, or the length of the text at its end. -/
  position : Nat
  /-- The characters from here on. -/
  rest : List Char
deriving DecidableEq, Repr

namespace TextCursor

/-- The cursor before a text. -/
def start (text : List Char) : TextCursor := ⟨0, text⟩

/-- The next character. -/
def peek? (c : TextCursor) : Option Char := c.rest.head?

/-- The cursor behind the next character; at the end it stays. -/
def advance (c : TextCursor) : TextCursor :=
  match c.rest with
  | [] => c
  | ch :: rest => ⟨c.position + ch.utf8Size, rest⟩

/-- The span of the next character, empty at the end. -/
def here (c : TextCursor) : Span := .between c.position c.advance.position

/-- The longest run of characters with a property. -/
def run (p : Char → Bool) (c : TextCursor) : List Char := c.rest.takeWhile p

/-- The cursor behind the longest run of characters with a property. -/
def skip (p : Char → Bool) (c : TextCursor) : TextCursor :=
  ⟨c.position + byteLength (c.run p), c.rest.dropWhile p⟩

/-! ## Nothing is lost

Each way of moving splits what is left of the text into what was passed and what still follows, and
moves the position by the bytes passed. -/

@[simp] theorem peek?_mk (n : Nat) (cs : List Char) : (mk n cs).peek? = cs.head? := rfl

@[simp] theorem advance_nil (n : Nat) : (mk n []).advance = ⟨n, []⟩ := rfl

@[simp] theorem advance_cons (n : Nat) (c : Char) (cs : List Char) :
    (mk n (c :: cs)).advance = ⟨n + c.utf8Size, cs⟩ := rfl

theorem run_append_skip (p : Char → Bool) (c : TextCursor) : c.run p ++ (c.skip p).rest = c.rest :=
  List.takeWhile_append_dropWhile

theorem position_skip (p : Char → Bool) (c : TextCursor) :
    (c.skip p).position = c.position + byteLength (c.run p) := rfl

theorem length_rest_skip_le (p : Char → Bool) (c : TextCursor) :
    (c.skip p).rest.length ≤ c.rest.length :=
  (List.dropWhile_suffix p).length_le

theorem length_rest_advance_le (c : TextCursor) : c.advance.rest.length ≤ c.rest.length := by
  obtain ⟨n, cs⟩ := c
  cases cs <;> simp

end TextCursor

end DecimalFormula
