/-!
# Decimals of bounded size

A decimal is a sign, a mantissa below `2 ^ 96` and a scale of at most 28; it stands for the mantissa
divided by ten to the scale. The scale is part of the value: `2.5` and `2.50` compare as equal and
are still different decimals, and both are written with the digits they have.

Zero has a sign as well. A negative zero arises from negation and from products that round to
nothing; reading a text and adding never produce one. `Decimal.ofParts?` keeps the sign it is given,
`Decimal.normal?` drops the sign of a zero, and every operation says which of the two it uses.

The bounds are fields, so every value of the type is representable and an operation that leaves them
has to answer `none`.
-/

namespace DecimalFormula

-- Powers of whole numbers are core's throughout the library, so that no definition changes where
-- another library is imported that brings powers of its own.
attribute [scoped instance (high)] instPowNat

/-- Mantissas stay below this number. -/
def mantissaLimit : Nat := 2 ^ (96 : Nat)

def maxScale : Nat := 28

/-- A signed decimal number with the digits it is written with. -/
structure Decimal where
  /-- Whether the number carries a minus sign. -/
  negative : Bool
  /-- All digits, read as one number. -/
  mantissa : Nat
  /-- How many of the digits stand after the point. -/
  scale : Nat
  /-- The digits fit. -/
  mantissa_lt : mantissa < mantissaLimit
  /-- The point is not moved too far. -/
  scale_le : scale ≤ maxScale
deriving DecidableEq, Repr

namespace Decimal

/-! ## Building decimals -/

/-- The decimal with the given parts, if they are within bounds. -/
def ofParts? (negative : Bool) (mantissa scale : Nat) : Option Decimal :=
  if h : mantissa < mantissaLimit ∧ scale ≤ maxScale then
    some ⟨negative, mantissa, scale, h.1, h.2⟩
  else none

/-- The decimal with the given parts, where a zero has no sign. -/
def normal? (negative : Bool) (mantissa scale : Nat) : Option Decimal :=
  ofParts? (negative && mantissa != 0) mantissa scale

def zero : Decimal := ⟨false, 0, 0, by decide, by decide⟩

def one : Decimal := ⟨false, 1, 0, by decide, by decide⟩

def two : Decimal := ⟨false, 2, 0, by decide, by decide⟩

def ten : Decimal := ⟨false, 10, 0, by decide, by decide⟩

instance : Inhabited Decimal := ⟨zero⟩

/-- A whole number with its sign. -/
def ofInt? (n : Int) : Option Decimal := normal? (decide (n < 0)) n.natAbs 0

theorem ofParts?_eq_some_iff {negative : Bool} {mantissa scale : Nat} {d : Decimal} :
    ofParts? negative mantissa scale = some d ↔
      d.negative = negative ∧ d.mantissa = mantissa ∧ d.scale = scale := by
  obtain ⟨n, m, s, hm, hs⟩ := d
  unfold ofParts?
  split
  · simp [Option.some.injEq, eq_comm]
  · next h =>
    simp only [reduceCtorEq, false_iff]
    rintro ⟨rfl, rfl, rfl⟩
    exact h ⟨hm, hs⟩

theorem ofParts?_isSome_iff {negative : Bool} {mantissa scale : Nat} :
    (ofParts? negative mantissa scale).isSome = true ↔
      mantissa < mantissaLimit ∧ scale ≤ maxScale := by
  unfold ofParts?
  split <;> simp_all

@[simp] theorem ofParts?_self (d : Decimal) : ofParts? d.negative d.mantissa d.scale = some d :=
  ofParts?_eq_some_iff.mpr ⟨rfl, rfl, rfl⟩

/-! ## Sign and size -/

def isZero (d : Decimal) : Bool := d.mantissa == 0

/-- The mantissa with its sign. -/
def signed (d : Decimal) : Int := if d.negative then -(d.mantissa : Int) else d.mantissa

/-- The number with the opposite sign; zero changes its sign too. -/
def neg (d : Decimal) : Decimal := { d with negative := !d.negative }

/-- The number without its sign. -/
def abs (d : Decimal) : Decimal := { d with negative := false }

/-- Whether the number is whole, however many digits it is written with. -/
def isWhole (d : Decimal) : Bool := d.mantissa % 10 ^ d.scale == 0

@[simp] theorem isZero_iff {d : Decimal} : d.isZero = true ↔ d.mantissa = 0 := by
  simp [isZero]

@[simp] theorem signed_neg (d : Decimal) : d.neg.signed = -d.signed := by
  obtain ⟨negative, _, _, _, _⟩ := d
  cases negative <;> simp [neg, signed]

/-! ## Order

Decimals are compared as numbers, by bringing both to a common scale. -/

/-- How two decimals compare as numbers. -/
def cmp (a b : Decimal) : Ordering :=
  compare (a.signed * 10 ^ b.scale) (b.signed * 10 ^ a.scale)

def lt (a b : Decimal) : Bool := a.cmp b == .lt

/-- Whether the numbers are equal, whatever their scales. -/
def same (a b : Decimal) : Bool := a.cmp b == .eq

/-- Whether the first number is smaller or equal. -/
def le (a b : Decimal) : Bool := a.cmp b != .gt

theorem lt_iff {a b : Decimal} :
    a.lt b = true ↔ a.signed * 10 ^ b.scale < b.signed * 10 ^ a.scale := by
  rw [lt, beq_iff_eq, cmp, Int.compare_eq_lt]

theorem same_iff {a b : Decimal} :
    a.same b = true ↔ a.signed * 10 ^ b.scale = b.signed * 10 ^ a.scale := by
  rw [same, beq_iff_eq, cmp, Std.LawfulEqOrd.compare_eq_iff_eq]

/-! ## Truth values -/

/-- Zero is false and every other number is true. -/
def truthy (d : Decimal) : Bool := !d.isZero

/-- The number that stands for a truth value. -/
def ofBool (b : Bool) : Decimal := if b then one else zero

end Decimal

end DecimalFormula
