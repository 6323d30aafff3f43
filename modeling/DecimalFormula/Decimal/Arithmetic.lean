import DecimalFormula.Decimal.Basic

/-!
# Arithmetic of decimals

Sums, products and quotients are exact as far as a decimal can hold them, and otherwise rounded to
what it can hold.
-/

namespace DecimalFormula

/-! ## Dropping digits

An exact result may have more digits than a decimal holds. It is then cut to fit: as few digits as
possible are dropped from the right, and what remains is rounded to nearest, a tie going to the even
neighbour. Only digits after the point may be dropped; a number that is too large before the point
does not fit at all. -/

/-- `m / 10 ^ d`, rounded to nearest, a tie to the even neighbour. -/
def roundHalfEven (m d : Nat) : Nat :=
  let q := m / 10 ^ d
  let twice := 2 * (m % 10 ^ d)
  if twice > 10 ^ d || (twice == 10 ^ d && q % 2 == 1) then q + 1 else q

/-- How many digits have to go until a number is a mantissa. -/
def surplusDigits (m : Nat) : Nat :=
  if m < mantissaLimit then 0 else surplusDigits (m / 10) + 1
termination_by m
decreasing_by
  have : 0 < mantissaLimit := by decide
  omega

/-- The mantissa and scale of the number `m / 10 ^ s`, cut to fit. There is none if the number is
too large, either at once or after rounding up. -/
def fit? (m s : Nat) : Option (Nat × Nat) :=
  let beyond := s - maxScale
  let d := beyond + surplusDigits (m / 10 ^ beyond)
  if d = 0 then some (m, s)
  else if s < d then none
  else
    let rounded := roundHalfEven m d
    if rounded < mantissaLimit then some (rounded, s - d)
    else if s - d = 0 then none
    else some (roundHalfEven rounded 1, s - d - 1)

/-- Rounding moves to one of the two neighbours. -/
theorem roundHalfEven_bounds (m d : Nat) :
    m / 10 ^ d ≤ roundHalfEven m d ∧ roundHalfEven m d ≤ m / 10 ^ d + 1 := by
  unfold roundHalfEven
  dsimp only
  split <;> omega

theorem surplusDigits_eq_zero_iff {m : Nat} : surplusDigits m = 0 ↔ m < mantissaLimit := by
  rw [surplusDigits]
  split <;> simp_all

/-! ## Sums and products

Sums and differences are exact if they fit and are otherwise cut to fit. A zero operand is left out
of a sum altogether, so the other operand comes back with the scale it had.

Products of two mantissas below `2 ^ 32` are rounded to 28 digits after the point in one step, and
vanish if they have more than 47 of them; other products are cut to fit. The two ways differ in the
sign of a product that rounds to nothing: only the first drops it. -/

namespace Decimal

def add? (a b : Decimal) : Option Decimal :=
  if a.isZero then some b
  else if b.isZero then some a
  else
    let s := max a.scale b.scale
    let v := a.signed * 10 ^ (s - a.scale) + b.signed * 10 ^ (s - b.scale)
    (fit? v.natAbs s).bind fun r ↦ normal? (decide (v < 0)) r.1 r.2

def sub? (a b : Decimal) : Option Decimal :=
  if b.isZero then some (if a.isZero then b else a)
  else a.add? b.neg

/-- Below this number, two mantissas are multiplied in one step. -/
def smallFactor : Nat := UInt32.size

/-- With more digits after the point than this, a product in one step is zero. -/
def vanishingScale : Nat := 47

def mul? (a b : Decimal) : Option Decimal :=
  if a.isZero || b.isZero then some zero
  else
    let negative := a.negative != b.negative
    let m := a.mantissa * b.mantissa
    let s := a.scale + b.scale
    if a.mantissa < smallFactor && b.mantissa < smallFactor then
      if vanishingScale < s then some zero
      else if maxScale < s then normal? negative (roundHalfEven m (s - maxScale)) maxScale
      else normal? negative m s
    else (fit? m s).bind fun r ↦ ofParts? negative r.1 r.2

/-- Takes zeros off the end of the digits behind the point. -/
def trimZeros (m : Nat) : Nat → Nat × Nat
  | 0 => (m, 0)
  | s + 1 => if m % 10 = 0 then trimZeros (m / 10) s else (m, s + 1)

theorem trimZeros_le (m s : Nat) : (trimZeros m s).1 ≤ m ∧ (trimZeros m s).2 ≤ s := by
  induction s generalizing m with
  | zero => simp [trimZeros]
  | succ s ih =>
    rw [trimZeros]
    split
    · have := ih (m / 10)
      have := Nat.div_le_self m 10
      omega
    · simp

/-- The decimal of the same value that is written with the fewest digits. A zero loses its sign. -/
def normalize (d : Decimal) : Decimal :=
  if d.isZero then zero
  else
    ⟨d.negative, (trimZeros d.mantissa d.scale).1, (trimZeros d.mantissa d.scale).2,
      Nat.lt_of_le_of_lt (trimZeros_le _ _).1 d.mantissa_lt,
      Nat.le_trans (trimZeros_le _ _).2 d.scale_le⟩

end Decimal

/-! ## Quotients

A quotient is found by long division on the mantissas. Whole digits come first; while a remainder is
left, digits behind the point are added in batches of up to nine, as many as the mantissa and the
scale leave room for. When no further digit fits, the remainder rounds the last one, a tie going to
the even neighbour. A remainder that vanishes ends the division early, so exact quotients are exact.

Digits that were added and turn out to be zeros are removed at the end, but only in batches of
eight, four, two and one, each tried while enough low bits of the mantissa are zero. So a quotient
can keep zeros at its end: `10 / 4` is `2.50`.

Division by a whole number is the same computation on a divisor that need not be a mantissa; the
average of a list uses it with the list's length. -/

/-! ### Running division -/

/-- The state of a long division: the quotient so far is `digits / 10 ^ scale`, and a negative scale
says how many zeros are still to be appended before the point. -/
structure Quotient where
  /-- Digits behind the point, negative for missing zeros before it. -/
  scale : Int
  /-- The quotient's digits so far. -/
  digits : Nat
  /-- Whether a remainder was left at some point, so that digits were added. -/
  inexact : Bool
deriving DecidableEq, Repr

namespace Quotient

/-- The largest number of digits, up to `p`, that may be appended to `q`. -/
def roomFor (q : Nat) : Nat → Nat
  | 0 => 0
  | p + 1 => if q ≤ (mantissaLimit - 1) / 10 ^ (p + 1) then p + 1 else roomFor q p

theorem roomFor_le (q p : Nat) : roomFor q p ≤ p := by
  induction p with
  | zero => simp [roomFor]
  | succ p ih =>
    rw [roomFor]
    split <;> omega

/-- How many digits the scale leaves room for in the next batch. -/
def batch (scale : Int) : Nat := if scale ≤ 19 then 9 else ((maxScale : Int) - scale).toNat

theorem batch_le (scale : Int) : batch scale ≤ 9 := by
  unfold batch
  split
  · exact Nat.le_refl _
  · simp only [maxScale]; omega

/-- The last digit is given up, because a mantissa has become too large by one step. It rounds its
neighbour; `sticky` says whether something non-zero was cut off behind it. -/
def giveUpDigit (scale : Int) (digits : Nat) (sticky : Bool) : Option (Int × Nat) :=
  let q := digits / 10
  let last := digits % 10
  if scale ≤ 0 then none
  else
    some (scale - 1,
      if last > 5 || (last == 5 && (sticky || q % 2 == 1)) then q + 1 else q)

/-- The end of a division that has no room for a further digit: the remainder `r` of the division
by `y` rounds the last one. -/
def roundOff (scale : Int) (digits r y : Nat) : Option (Int × Nat) :=
  if 2 * r > y || (2 * r == y && digits % 2 == 1) then
    if digits + 1 < mantissaLimit then some (scale, digits + 1)
    else giveUpDigit scale (digits + 1) true
  else some (scale, digits)

/-- Continues the division by `y` from digits `q` at a scale with remainder `r`. -/
def extend (y : Nat) (scale : Int) (q r : Nat) (inexact : Bool) : Option Quotient :=
  if hr : r = 0 then
    if hs : 0 ≤ scale then some ⟨scale, q, inexact⟩
    else
      let p := min 9 (-scale).toNat
      if q * 10 ^ p < mantissaLimit then extend y (scale + p) (q * 10 ^ p) 0 inexact
      else none
  else
    let p := roomFor q (batch scale)
    if p < 9 && scale + p < 0 then none
    else if _hp : p = 0 then
      (roundOff scale q r y).map fun e ↦ ⟨e.1, e.2, true⟩
    else
      let shifted := q * 10 ^ p
      let q' := shifted + r * 10 ^ p / y
      let r' := r * 10 ^ p % y
      if mantissaLimit ≤ shifted then none
      else if mantissaLimit ≤ q' then
        (giveUpDigit (scale + p) q' (r' != 0)).map fun e ↦ ⟨e.1, e.2, true⟩
      else extend y (scale + p) q' r' true
termination_by ((maxScale : Int) - scale).toNat
decreasing_by
  · simp only [maxScale]; omega
  · have hle : roomFor q (batch scale) ≤ batch scale := roomFor_le q (batch scale)
    have hpos : roomFor q (batch scale) ≠ 0 := _hp
    generalize roomFor q (batch scale) = p at *
    simp only [batch, maxScale] at hle ⊢
    split at hle <;> omega

/-! ### Zeros at the end -/

/-- Removes zeros eight at a time while the low 32 bits are zero. -/
def dropEight (q s : Nat) : Nat × Nat :=
  if h : 8 ≤ s ∧ q % UInt32.size = 0 ∧ q % 10 ^ (8 : Nat) = 0 then
    dropEight (q / 10 ^ (8 : Nat)) (s - 8)
  else (q, s)
termination_by s

/-- Removes `k` zeros if there are that many behind the point; only tried if the low `k` bits are
zero. -/
def dropBatch (k : Nat) (e : Nat × Nat) : Nat × Nat :=
  if e.1 % 2 ^ k = 0 && k ≤ e.2 && e.1 % 10 ^ k = 0 then (e.1 / 10 ^ k, e.2 - k) else e

/-- Removes the zeros at the end that the batches of eight, four, two and one reach. -/
def dropZeros (q s : Nat) : Nat × Nat :=
  dropBatch 1 (dropBatch 2 (dropBatch 4 (dropEight q s)))

end Quotient

namespace Decimal

/-- The quotient of a decimal by a number that is `y` divided by ten to `yScale`. -/
def quotient? (negative : Bool) (m : Nat) (scale : Int) (y : Nat) : Option Decimal :=
  (Quotient.extend y scale (m / y) (m % y) false).bind fun e ↦
    let r := if e.inexact then Quotient.dropZeros e.digits e.scale.toNat
      else (e.digits, e.scale.toNat)
    normal? negative r.1 r.2

def div? (a b : Decimal) : Option Decimal :=
  if b.isZero then none
  else if a.isZero then some zero
  else quotient? (a.negative != b.negative) a.mantissa ((a.scale : Int) - b.scale) b.mantissa

/-- The quotient by a whole number, which may be larger than every mantissa. -/
def divNat? (a : Decimal) (n : Nat) : Option Decimal :=
  if n = 0 then none
  else if a.isZero then some zero
  else quotient? a.negative a.mantissa a.scale n

end Decimal

end DecimalFormula
