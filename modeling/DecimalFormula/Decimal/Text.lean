import DecimalFormula.Decimal.Arithmetic
import DecimalFormula.Decimal.Basic

/-!
# Decimals as texts

How decimals are written and read. A decimal that is written and read again is the same, except for
the sign of a zero.
-/

namespace DecimalFormula.Decimal

/-! ## Writing decimals

A decimal is written with all the digits of its scale, so trailing zeros behind the point are kept;
in front of the point there is always a digit. A minus sign is written for every negative decimal,
also for a negative zero. -/

/-- The digits of a number, filled up with zeros from the left to at least the given length. -/
def paddedDigits (m length : Nat) : List Char :=
  let digits := Nat.toDigits 10 m
  List.replicate (length - digits.length) '0' ++ digits

/-- The digits of a mantissa with the point `s` places from the right. -/
def unsignedDigits (m s : Nat) : List Char :=
  let digits := paddedDigits m (s + 1)
  if s = 0 then digits
  else digits.take (digits.length - s) ++ '.' :: digits.drop (digits.length - s)

def render (d : Decimal) : String :=
  String.ofList ((if d.negative then ['-'] else []) ++ unsignedDigits d.mantissa d.scale)

theorem length_paddedDigits (m length : Nat) : length ≤ (paddedDigits m length).length := by
  simp only [paddedDigits, List.length_append, List.length_replicate]
  omega

/-! ## Reading decimals

A decimal is read from an optional sign and digits with at most one point among them; there must be
a digit, but it may stand on either side of the point. Underscores between or after digits are
passed over. Reading is exact: a text with more digits than a decimal holds is refused.

A text with an exponent, such as `1.5e3`, is read as well where a value is expected. There the part
before the exponent may have too many digits behind the point; the first digit that does not fit
then rounds the number half up. The exponent moves the point, to the right only as far as the
digits behind it allow and by multiplication after that. -/

/-! ### Digits -/

inductive Excess
  /-- Refuse the text. -/
  | refuse
  /-- Round at the first of them. -/
  | round
deriving DecidableEq, Repr

/-- The digits read so far. -/
structure Digits where
  /-- All of them, as one number. -/
  mantissa : Nat
  /-- How many stand behind the point. -/
  scale : Nat
  /-- Whether the point has been read. -/
  point : Bool
  /-- Whether a digit has been read. -/
  seen : Bool
deriving DecidableEq, Repr

/-- Before the first character. -/
def Digits.start : Digits := ⟨0, 0, false, false⟩

def digitValue (c : Char) : Nat := c.toNat - '0'.toNat

/-- Whether a character may follow the digit that rounds a number. -/
def isDigitOrUnderscore (c : Char) : Bool := c.isDigit || c == '_'

/-- The first character that does not fit rounds the number, half up; behind it only digits and
underscores may follow. A number that grows by a digit in rounding gives up its last one. -/
def roundAt (m s : Nat) (c : Char) (rest : List Char) : Option (Nat × Nat) :=
  if !isDigitOrUnderscore c || !rest.all isDigitOrUnderscore then none
  else if c.isDigit && 5 ≤ digitValue c then
    if m + 1 < mantissaLimit then some (m + 1, s)
    else if s = 0 then none
    else some ((m + 1 + 4) / 10, s - 1)
  else some (m, s)

/-- From this mantissa on, underscores before the rounding digit are passed over. -/
def passUnderscoresFrom : Nat := (UInt64.size - 1) / 10 - 255

/-- Rounds a number that has all the digits behind the point that it can hold. -/
def roundAtFullScale (m s : Nat) (c : Char) (rest : List Char) : Option (Nat × Nat) :=
  if passUnderscoresFrom ≤ m then
    match (c :: rest).dropWhile (· == '_') with
    | [] => some (m, s)
    | c' :: rest' => roundAt m s c' rest'
  else roundAt m s c rest

/-- Reads digits, underscores and at most one point to the end of the text. The answer is the
mantissa and the scale. -/
def readDigits (excess : Excess) (d : Digits) : List Char → Option (Nat × Nat)
  | [] => if d.seen then some (d.mantissa, d.scale) else none
  | c :: rest =>
    if d.point && maxScale ≤ d.scale then
      match excess with
      | .refuse => none
      | .round => roundAtFullScale d.mantissa d.scale c rest
    else if c.isDigit then
      let m := d.mantissa * 10 + digitValue c
      if m < mantissaLimit then
        readDigits excess ⟨m, if d.point then d.scale + 1 else d.scale, d.point, true⟩ rest
      else
        match excess with
        | .refuse => none
        | .round => if d.point then roundAt d.mantissa d.scale c rest else none
    else if c = '.' && !d.point then readDigits excess { d with point := true } rest
    else if c = '_' && d.seen then readDigits excess d rest
    else none

/-- Splits a sign off. The flag says whether it is a minus. -/
def splitSign : List Char → Bool × List Char
  | '-' :: rest => (true, rest)
  | '+' :: rest => (false, rest)
  | cs => (false, cs)

def readSigned (excess : Excess) (cs : List Char) : Option Decimal :=
  let (negative, digits) := splitSign cs
  (readDigits excess .start digits).bind fun r ↦ normal? negative r.1 r.2

/-- Reads a decimal without an exponent, exactly. -/
def read? (text : String) : Option Decimal := readSigned .refuse text.toList

/-! ### Exponents -/

def writtenExponentLimit : Nat := UInt32.size

def readExponent (cs : List Char) : Option Nat :=
  let digits := match cs with
    | '+' :: rest => rest
    | cs => cs
  if digits.isEmpty || !digits.all Char.isDigit then none
  else
    let n := digits.foldl (fun n c ↦ n * 10 + digitValue c) 0
    if n < writtenExponentLimit then some n else none

/-- Multiplies by ten to a power of at most 28. -/
def shiftLeft? (d : Decimal) (k : Nat) : Option Decimal :=
  (normal? false (10 ^ k) 0).bind d.mul?

def scaleDown (d : Decimal) (e : Nat) : Option Decimal :=
  ofParts? d.negative d.mantissa (d.scale + e)

/-- Moves the point to the right. Beyond the digits of the number it is multiplied, for more than 19
places in two steps. -/
def scaleUp (d : Decimal) (e : Nat) : Option Decimal :=
  if e ≤ d.scale then ofParts? d.negative d.mantissa (d.scale - e)
  else if maxScale < e then none
  else if 19 < e then
    ((d.shiftLeft? 19).bind fun r ↦ r.shiftLeft? (e - 19)).map normalize
  else (d.shiftLeft? e).map normalize

def isExponentMark (c : Char) : Bool := c == 'e' || c == 'E'

/-- Reads a decimal with an exponent. -/
def readScientific (cs : List Char) : Option Decimal :=
  let before := cs.takeWhile fun c ↦ !isExponentMark c
  match cs.dropWhile fun c ↦ !isExponentMark c with
  | [] => none
  | _ :: exponent =>
    (readSigned .round before).bind fun d ↦
      match exponent with
      | '-' :: digits => (readExponent digits).bind d.scaleDown
      | digits => (readExponent digits).bind d.scaleUp

/-- Reads the text of a value: a plain decimal, or else one with an exponent. -/
def readValue? (text : String) : Option Decimal :=
  (read? text).or (readScientific text.toList)

theorem readValue?_of_read? {text : String} {d : Decimal} (h : read? text = some d) :
    readValue? text = some d := by
  simp [readValue?, h]

end DecimalFormula.Decimal
