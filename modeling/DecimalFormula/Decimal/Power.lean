import DecimalFormula.Decimal.Arithmetic

/-!
# Powers of decimals

A power is worked out by repeated squaring, or by the exponential of a product with a logarithm. On
the way there are more digits than a decimal holds.
-/

namespace DecimalFormula

/-! ## Wide decimals

The mantissa of a wide decimal stays below `2 ^ 192` and its scale at 57 or less. The bounds are
those of the results of the operations below and not of the type, since nothing outside this module
ever sees a wide decimal.

Going back to a decimal drops digits and rounds the last one up if the last batch of dropped digits
was more than one, or was one and the digit before it is odd. This is coarser than rounding to
nearest, and it is why large powers end in digits that look wrong. -/

/-- The number of bits of a number; zero has none. -/
def bitLength (m : Nat) : Nat := if m = 0 then 0 else m.log2 + 1

/-- A decimal with room for intermediate results. -/
structure Wide where
  /-- Whether the number carries a minus sign. -/
  negative : Bool
  /-- All digits, read as one number. -/
  mantissa : Nat
  /-- How many of the digits stand after the point. -/
  scale : Nat
deriving DecidableEq, Repr

namespace Wide

/-- Wide mantissas stay below two to this number. -/
def bits : Nat := 192

/-- The largest scale of a wide decimal. -/
def maxScale : Nat := 57

/-- A decimal with room to grow. -/
def ofDecimal (d : Decimal) : Wide := ⟨d.negative, d.mantissa, d.scale⟩

/-! ### Dropping digits -/

/-- How many of `r` digits are dropped in one step. -/
def dropBatch (r : Nat) : Nat := min (max r 1) 9

theorem dropBatch_pos (r : Nat) : 0 < dropBatch r := by
  unfold dropBatch; omega

/-- Drops `r` digits, and further ones one at a time until the rest is below `2 ^ width`. The answer
is the rest, its scale and the last batch of dropped digits. -/
def dropDigits? (width m s r batch : Nat) : Option (Nat × Nat × Nat) :=
  if r = 0 ∧ m < 2 ^ width then some (m, s, batch)
  else if 2 ^ width ≤ m / 10 ^ dropBatch r ∧ r ≤ dropBatch r then
    if s ≤ dropBatch r then none
    else dropDigits? width (m / 10 ^ dropBatch r) (s - dropBatch r) 1 (m % 10 ^ dropBatch r)
  else
    dropDigits? width (m / 10 ^ dropBatch r) (s - dropBatch r) (r - dropBatch r)
      (m % 10 ^ dropBatch r)
termination_by m + r
decreasing_by
  all_goals
    have hbatch : 0 < dropBatch r := dropBatch_pos r
    have hpos : 0 < 2 ^ width := Nat.two_pow_pos width
    have hten : 10 ≤ 10 ^ dropBatch r := Nat.le_self_pow (by omega) 10
    have hdiv : m / 10 ^ dropBatch r ≤ m / 10 := Nat.div_le_div_left hten (by decide)
    omega

/-- How many digits have to go, estimated from the number of bits beyond `width`: at least one if
there are any, and as many as the scale demands. -/
def digitsToDrop (width scaleLimit m s : Nat) : Nat :=
  let r :=
    if width < 32 * ((bitLength m + 31) / 32) then (bitLength m - width) * 77 / 256 + 1 else 0
  if scaleLimit + r < s then s - scaleLimit else r

/-- Mantissa and scale brought below `2 ^ width` and to a scale within `scaleLimit`. -/
def rescale? (width scaleLimit m s : Nat) : Option (Nat × Nat) :=
  let fits := 32 * ((bitLength m + 31) / 32) ≤ width
  let r := digitsToDrop width scaleLimit m s
  if fits ∧ (s ≤ DecimalFormula.maxScale ∨ r = 0) then some (m, s)
  else if s < r then none
  else
    (dropDigits? width m s r 0).bind fun (m, s, batch) ↦
      if batch = 0 || (batch = 1 && m % 2 = 0) then some (m, s)
      else if m + 1 < 2 ^ width then some (m + 1, s)
      else if s = 0 then none
      else some ((m + 1) / 10, s - 1)

/-- The decimal with the value of a wide one, rounded if it has too many digits. -/
def narrow? (w : Wide) : Option Decimal :=
  if w.mantissa < mantissaLimit ∧ w.scale ≤ DecimalFormula.maxScale then
    Decimal.normal? w.negative w.mantissa w.scale
  else
    (rescale? 96 DecimalFormula.maxScale w.mantissa w.scale).bind fun r ↦
      Decimal.normal? w.negative r.1 r.2

/-! ### Arithmetic -/

/-- Rounds digits off until the scale is within bounds, up to nine at a time, each batch to nearest
with ties to the even neighbour. -/
def limitScale (m s : Nat) : Nat × Nat :=
  if maxScale < s then
    limitScale (roundHalfEven m (min (s - maxScale) 9)) (s - min (s - maxScale) 9)
  else (m, s)
termination_by s
decreasing_by
  simp only [maxScale] at *; omega

def mul? (a b : Wide) : Option Wide :=
  if a.mantissa = 0 ∨ b.mantissa = 0 then some ⟨false, 0, 0⟩
  else
    let negative := a.negative != b.negative
    let m := a.mantissa * b.mantissa
    let s := a.scale + b.scale
    if m < 2 ^ bits then some ⟨negative, (limitScale m s).1, (limitScale m s).2⟩
    else (rescale? bits maxScale m s).map fun r ↦ ⟨negative, r.1, r.2⟩

/-- The sum, unless it is too large at the common scale. -/
def add? (a b : Wide) : Option Wide :=
  if a.mantissa = 0 then some b
  else if b.mantissa = 0 then some a
  else
    let s := max a.scale b.scale
    let x := a.mantissa * 10 ^ (s - a.scale)
    let y := b.mantissa * 10 ^ (s - b.scale)
    if 2 ^ bits ≤ x ∨ 2 ^ bits ≤ y then none
    else if a.negative != b.negative then
      some ⟨if y ≤ x then a.negative else !a.negative, max x y - min x y, s⟩
    else if x + y < 2 ^ bits then some ⟨a.negative, x + y, s⟩
    else if s = 0 then none
    else some ⟨a.negative, (x + y) / 10 + (if 5 ≤ (x + y) % 10 then 1 else 0), s - 1⟩

/-- Appends digits to a quotient by `n` until the remainder `r` vanishes or there is no room. -/
def extendQuotient (n m s r : Nat) : Nat × Nat × Nat :=
  let k := min ((bits - bitLength m) * 77 / 256) 9
  if _h : r = 0 ∨ k = 0 ∨ maxScale < s + k then (m, s, r)
  else extendQuotient n (m * 10 ^ k + r * 10 ^ k / n) (s + k) (r * 10 ^ k % n)
termination_by maxScale - s
decreasing_by
  simp only [maxScale] at *; omega

def divNat (a : Wide) (n : Nat) : Wide :=
  if a.mantissa = 0 ∨ n = 1 then a
  else
    let (m, s, r) := extendQuotient n (a.mantissa / n) a.scale (a.mantissa % n)
    let up := r > n / 2 || (r > 0 && r = n / 2 && m % 2 = 1)
    ⟨a.negative, if up then m + 1 else m, s⟩

def isNegligible (w : Wide) : Bool :=
  if w.mantissa = 0 then true
  else if w.mantissa < UInt32.size then 38 ≤ w.scale
  else if w.mantissa < UInt64.size then 48 ≤ w.scale
  else if w.mantissa < mantissaLimit then maxScale ≤ w.scale
  else false

end Wide

/-! ## The exponential function

The exponent is split at the point. Its fractional part goes into the power series, which is summed
until a term is negligible; the whole part becomes a power of Euler's number by repeated squaring.
Both are wide decimals, and only their product is brought back to the size of a decimal. -/

/-- The `n`-th power by repeated squaring, times `acc`: the lowest binary digit of `n` says whether
the running square `p` is a factor. There is none if a product that is needed fails. -/
def powerBySquares? {α : Type} (times : α → α → Option α) (p acc : α) (n : Nat) : Option α :=
  if n = 0 then some acc
  else
    (if n % 2 = 1 then times acc p else some acc).bind fun acc' ↦
      if n / 2 = 0 then some acc'
      else (times p p).bind fun p' ↦ powerBySquares? times p' acc' (n / 2)
termination_by n

namespace Decimal

def euler : Decimal := ⟨false, 27182818284590452353602874714, 28, by decide, by decide⟩

def eulerInverse : Decimal := ⟨false, 3678794411714423215955237702, 28, by decide, by decide⟩

/-- Adds the terms `r ^ i / i!` from the `i`-th on, at most `count` of them, to a sum. -/
def exponentialSeries? (r : Wide) : (count i : Nat) → (term sum : Wide) → Option Wide
  | 0, _, _, sum => some sum
  | count + 1, i, term, sum =>
    (r.mul? (term.divNat i)).bind fun term' ↦
      (sum.add? term').bind fun sum' ↦
        if term'.isNegligible then some sum' else exponentialSeries? r count (i + 1) term' sum'

/-- Terms of the series beyond the linear one. -/
def exponentialTerms : Nat := 98

/-- Whole parts of exponents stay below this number. -/
def wholeExponentLimit : Nat := UInt64.size

/-- Euler's number to a power that is not negative. -/
def expMagnitude? (m s : Nat) : Option Decimal := do
  let whole := m / 10 ^ s
  let x ← ofParts? false m s
  let n ← normal? false whole 0
  let fraction ← x.sub? n
  let one := Wide.ofDecimal one
  let r := Wide.ofDecimal fraction
  let series ←
    if fraction.isZero then some one
    else (one.add? r).bind fun sum ↦ exponentialSeries? r exponentialTerms 2 r sum
  if whole = 0 then series.narrow?
  else if wholeExponentLimit ≤ whole then none
  else
    let power ← powerBySquares? Wide.mul? (.ofDecimal euler) one whole
    let product ← power.mul? series
    (product.narrow?).map normalize

/-- Euler's number to a power. There is none if the result, or for a negative exponent its inverse,
is out of bounds. -/
def exp? (x : Decimal) : Option Decimal :=
  if x.isZero then some one
  else if x.negative then
    (expMagnitude? x.mantissa x.scale).bind fun r ↦ one.div? r
  else expMagnitude? x.mantissa x.scale

/-! ## The natural logarithm

The argument is first multiplied or divided by ten and then by Euler's number until it lies between
the inverse of Euler's number and one; the steps are counted. What is left goes into the series

```text
ln x = 2 · (z + z³/3 + z⁵/5 + …),    z = (x - 1) / (x + 1),
```

and the counted steps are added back. -/

def lnTen : Decimal := ⟨false, 2302585092994045684017991454, 27, by decide, by decide⟩

/-- Applies a step to a number as long as a condition holds of it, at most `fuel` times, and counts
how often. -/
def stepWhile? (condition : Decimal → Bool) (step : Decimal → Option Decimal) :
    Nat → Decimal → Option (Decimal × Nat)
  | 0, x => some (x, 0)
  | fuel + 1, x =>
    if condition x then
      (step x).bind fun y ↦ (stepWhile? condition step fuel y).map fun r ↦ (r.1, r.2 + 1)
    else some (x, 0)

/-- Enough steps for every range reduction: each moves the number by a factor of more than two
toward the range, or by ten, and ten to this power is larger than every decimal. -/
def reductionSteps : Nat := 29

/-- Adds the terms `z ^ (2 n + 1) / (2 n + 1)` from the `n`-th on, at most `count` of them. -/
def logarithmSeries? (zSquared : Wide) : (count n : Nat) → (power sum : Wide) → Option Wide
  | 0, _, _, sum => some sum
  | count + 1, n, power, sum =>
    (power.mul? zSquared).bind fun power' ↦
      let term := power'.divNat (2 * n + 1)
      (sum.add? term).bind fun sum' ↦
        if term.isNegligible then some sum'
        else logarithmSeries? zSquared count (n + 1) power' sum'

/-- Terms of the series beyond the first. -/
def logarithmTerms : Nat := 99

def ln? (v : Decimal) : Option Decimal :=
  if v.same one then some zero
  else do
    let (x, up) ← stepWhile? (·.lt one) (·.mul? ten) reductionSteps v
    let (x, down) ← stepWhile? (ten.le ·) (·.div? ten) reductionSteps x
    let tens ← ofInt? ((down : Int) - up)
    let tensPart ← tens.mul? lnTen
    if x.same one then some tensPart.normalize
    else
      let (x, more) ← stepWhile? (one.le ·) (·.mul? eulerInverse) reductionSteps x
      let (x, less) ← stepWhile? (·.le eulerInverse) (·.mul? euler) reductionSteps x
      let steps ← ofInt? ((more : Int) - less)
      let numerator ← (Wide.ofDecimal x).add? (.ofDecimal one.neg)
      if numerator.mantissa = 0 then some steps
      else
        let denominator ← (Wide.ofDecimal x).add? (.ofDecimal one)
        let z ← (← numerator.narrow?).div? (← denominator.narrow?)
        let zWide := Wide.ofDecimal z
        let zSquared ← zWide.mul? zWide
        let sum ← logarithmSeries? zSquared logarithmTerms 1 zWide zWide
        let fraction ← (← (Wide.ofDecimal two).mul? sum).narrow?
        let whole ← tensPart.add? steps
        (whole.add? fraction).map normalize

end Decimal

/-! ## Powers

A whole exponent is worked out by repeated squaring, from 1024 on with wide decimals; every other
exponent goes through the logarithm. A power that cannot be worked out because it is too small, be
it on the way or in the end, is zero; one that is too large is an overflow. Which of the two it is
follows from the size of the base and the sign of the exponent alone. -/

/-- Why a power has no value. -/
inductive PowerError
  /-- Zero to a negative power divides by zero. -/
  | zeroToNegative
  /-- A negative base has no real power to an exponent that is not whole. -/
  | noRealResult
  /-- The power is too large. -/
  | overflow
deriving DecidableEq, Repr

namespace Decimal

/-- Whole exponents stay below this number. -/
def exponentLimit : Nat := UInt32.size

/-- From this exponent on, squaring is done with wide decimals. -/
def wideExponent : Nat := 1024

def powNat? (b : Decimal) (n : Nat) : Option Decimal :=
  if n = 1 then some b
  else if n = 2 then b.mul? b
  else if wideExponent ≤ n then
    (powerBySquares? Wide.mul? (.ofDecimal b) (.ofDecimal one) n).bind fun w ↦
      w.narrow?.map normalize
  else (powerBySquares? mul? b one n).map normalize

def powFraction? (b e : Decimal) : Option Decimal := do
  let l ← (b.abs).ln?
  let x ← l.mul? e
  let r ← x.exp?
  ofParts? b.negative r.mantissa r.scale

/-- The inverse of a power. A power that has vanished has none. -/
def invert? (r : Decimal) : Option Decimal :=
  if r.isZero then none else one.div? r

def tryPow? (b e : Decimal) : Option Decimal :=
  if e.isZero then some one
  else if b.isZero then some zero
  else if b.same one then some one
  else if e.same one then some b
  else
    let n := e.normalize
    if n.scale = 0 then
      if exponentLimit ≤ n.mantissa then none
      else if n.negative then (b.powNat? n.mantissa).bind invert?
      else b.powNat? n.mantissa
    else b.powFraction? n

/-- Whether repeated multiplication moves toward zero. -/
def shrinks (b e : Decimal) : Bool :=
  if e.negative then one.lt b.abs else b.abs.lt one

/-- The first number to the power of the second. -/
def pow (b e : Decimal) : Except PowerError Decimal :=
  if b.isZero && e.negative && !e.isZero then .error .zeroToNegative
  else if b.negative && !b.isZero && !e.isWhole then .error .noRealResult
  else
    match b.tryPow? e with
    | some value => .ok value
    | none => if shrinks b e then .ok zero else .error .overflow

end Decimal

end DecimalFormula
