import DecimalFormula.Decimal.Arithmetic
import Mathlib.Algebra.Order.Field.Rat
import Mathlib.Data.Nat.Cast.Order.Field
import Mathlib.Tactic.FieldSimp
import Mathlib.Tactic.Linarith
import Mathlib.Tactic.Positivity
import Mathlib.Tactic.Ring

/-!
# The numbers that decimals stand for

`Decimal.value` is the rational number of a decimal. Comparing decimals compares their values. What
is cut to fit keeps its value as long as the digits that have to go are zeros (`fit?_of_dvd`), so
moving the point by multiplication and taking zeros off the end change no value.
-/

namespace DecimalFormula

/-- The number with the digits `m`, of which `s` stand behind the point. -/
def fraction (m s : Nat) : ℚ := m / 10 ^ s

def signFactor (negative : Bool) : ℚ := if negative then -1 else 1

/-- The rational number that a decimal stands for. -/
def Decimal.value (d : Decimal) : ℚ := d.signed / 10 ^ d.scale

variable {m s k : Nat}

/-! ## Fractions -/

theorem ten_pow_pos (n : Nat) : (0 : ℚ) < 10 ^ n := by positivity

theorem fraction_nonneg (m s : Nat) : 0 ≤ fraction m s := by
  unfold fraction
  positivity

theorem fraction_div_pow (hdvd : 10 ^ k ∣ m) (hk : k ≤ s) :
    fraction (m / 10 ^ k) (s - k) = fraction m s := by
  obtain ⟨q, rfl⟩ := hdvd
  obtain ⟨r, rfl⟩ := Nat.exists_eq_add_of_le hk
  have hpos : 0 < 10 ^ k := Nat.pow_pos (by decide)
  rw [Nat.mul_div_cancel_left _ hpos, Nat.add_sub_cancel_left, fraction, fraction, pow_add]
  push_cast
  field_simp

theorem fraction_eq_zero_iff : fraction m s = 0 ↔ m = 0 := by
  rw [fraction, div_eq_zero_iff, or_iff_left (ten_pow_pos s).ne', Nat.cast_eq_zero]

theorem fraction_ten_pow (s : Nat) : fraction (10 ^ s) s = 1 := by
  rw [fraction]
  push_cast
  exact div_self (ten_pow_pos s).ne'

theorem abs_signFactor_mul (negative : Bool) (q : ℚ) : |signFactor negative * q| = |q| := by
  cases negative <;> simp [signFactor]

theorem signFactor_ne_zero (negative : Bool) : signFactor negative ≠ 0 := by
  cases negative <;> simp [signFactor]

/-! ## Digits that have to go -/

theorem surplusDigits_le_of_lt (h : m / 10 ^ k < mantissaLimit) : surplusDigits m ≤ k := by
  induction k generalizing m with
  | zero => simp_all [surplusDigits_eq_zero_iff]
  | succ k ih =>
    rw [surplusDigits]
    split
    · exact Nat.zero_le _
    · refine Nat.succ_le_succ (ih ?_)
      rwa [Nat.div_div_eq_div_mul, ← Nat.pow_succ']

theorem div_surplusDigits_lt (m : Nat) : m / 10 ^ surplusDigits m < mantissaLimit := by
  induction m using surplusDigits.induct with
  | case1 m h =>
    rw [surplusDigits, if_pos h]
    simpa using h
  | case2 m h ih =>
    rw [surplusDigits, if_neg h, Nat.pow_succ', ← Nat.div_div_eq_div_mul]
    exact ih

theorem roundHalfEven_of_dvd (h : 10 ^ k ∣ m) : roundHalfEven m k = m / 10 ^ k := by
  have hpos : 0 < 10 ^ k := Nat.pow_pos (by decide)
  simp [roundHalfEven, Nat.mod_eq_zero_of_dvd h, hpos.ne]

/-- Nothing is rounded where enough zeros stand at the end. -/
theorem fit?_of_dvd (hdvd : 10 ^ k ∣ m) (hlt : m / 10 ^ k < mantissaLimit)
    (hs : s ≤ maxScale + k) :
    ∃ d ≤ k, m / 10 ^ d < mantissaLimit ∧ s - d ≤ maxScale ∧
      fit? m s = if s < d then none else some (m / 10 ^ d, s - d) := by
  have hbeyond : s - maxScale ≤ k := by omega
  have hdigits : surplusDigits (m / 10 ^ (s - maxScale)) ≤ k - (s - maxScale) := by
    refine surplusDigits_le_of_lt ?_
    rwa [Nat.div_div_eq_div_mul, ← Nat.pow_add, Nat.add_sub_cancel' hbeyond]
  have hd : s - maxScale + surplusDigits (m / 10 ^ (s - maxScale)) ≤ k := by omega
  have hrest : m / 10 ^ (s - maxScale + surplusDigits (m / 10 ^ (s - maxScale))) <
      mantissaLimit := by
    rw [Nat.pow_add, ← Nat.div_div_eq_div_mul]
    exact div_surplusDigits_lt _
  refine ⟨_, hd, hrest, by omega, ?_⟩
  rw [fit?]
  dsimp only
  generalize s - maxScale + surplusDigits (m / 10 ^ (s - maxScale)) = d at hd hrest ⊢
  have hround : roundHalfEven m d = m / 10 ^ d :=
    roundHalfEven_of_dvd ((Nat.pow_dvd_pow 10 hd).trans hdvd)
  rw [hround, if_pos hrest]
  by_cases hzero : d = 0
  · subst hzero
    simp
  · rw [if_neg hzero]

namespace Decimal

variable {a b d r : Decimal} {negative : Bool}

/-! ## Values -/

theorem value_eq (d : Decimal) :
    d.value = signFactor d.negative * fraction d.mantissa d.scale := by
  obtain ⟨negative, m, s, hm, hs⟩ := d
  cases negative <;> simp [value, signed, signFactor, fraction, neg_div]

theorem abs_value (d : Decimal) : |d.value| = fraction d.mantissa d.scale := by
  rw [value_eq, abs_signFactor_mul, abs_of_nonneg (fraction_nonneg _ _)]

theorem value_of_ofParts? (h : ofParts? negative m s = some d) :
    d.value = signFactor negative * fraction m s := by
  obtain ⟨rfl, rfl, rfl⟩ := ofParts?_eq_some_iff.mp h
  exact value_eq d

theorem value_of_normal? (h : normal? negative m s = some d) :
    d.value = signFactor negative * fraction m s := by
  rw [value_of_ofParts? h]
  by_cases hm : m = 0
  · rw [fraction_eq_zero_iff.mpr hm, mul_zero, mul_zero]
  · rw [show (negative && m != 0) = negative by simp [hm]]

theorem value_zero : zero.value = 0 := by simp [value, zero, signed]

theorem value_one : one.value = 1 := by simp [value, one, signed]

theorem value_eq_zero_iff : d.value = 0 ↔ d.mantissa = 0 := by
  rw [value_eq, mul_eq_zero, or_iff_right (signFactor_ne_zero _), fraction_eq_zero_iff]

/-! ## Order -/

theorem value_lt_iff : a.value < b.value ↔
    a.signed * 10 ^ b.scale < b.signed * 10 ^ a.scale := by
  rw [value, value, div_lt_div_iff₀ (ten_pow_pos _) (ten_pow_pos _)]
  exact_mod_cast Iff.rfl

theorem lt_iff_value : a.lt b = true ↔ a.value < b.value := by
  rw [lt_iff, value_lt_iff]

theorem same_iff_value : a.same b = true ↔ a.value = b.value := by
  rw [same_iff, value, value, div_eq_div_iff (ten_pow_pos _).ne' (ten_pow_pos _).ne']
  exact_mod_cast Iff.rfl

/-! ## Products of numbers with zeros at the end -/

theorem signFactor_bne (n n' : Bool) : signFactor (n != n') = signFactor n * signFactor n' := by
  cases n <;> cases n' <;> simp [signFactor]

theorem fraction_mul (m m' s s' : Nat) :
    fraction (m * m') (s + s') = fraction m s * fraction m' s' := by
  rw [fraction, fraction, fraction, pow_add, Nat.cast_mul, mul_div_mul_comm]

theorem value_mul_eq (a b : Decimal) : a.value * b.value =
    signFactor (a.negative != b.negative) *
      fraction (a.mantissa * b.mantissa) (a.scale + b.scale) := by
  rw [value_eq, value_eq, signFactor_bne, fraction_mul]
  ring

theorem exists_of_ofParts? (negative : Bool) (hm : m < mantissaLimit) (hs : s ≤ maxScale) :
    ∃ d, ofParts? negative m s = some d ∧ d.value = signFactor negative * fraction m s := by
  obtain ⟨d, hd⟩ := Option.isSome_iff_exists.mp (ofParts?_isSome_iff.mpr ⟨hm, hs⟩)
  exact ⟨d, hd, value_of_ofParts? hd⟩

theorem exists_of_normal? (negative : Bool) (hm : m < mantissaLimit) (hs : s ≤ maxScale) :
    ∃ d, normal? negative m s = some d ∧ d.value = signFactor negative * fraction m s := by
  obtain ⟨d, hd, -⟩ := exists_of_ofParts? (negative && m != 0) hm hs
  exact ⟨d, hd, value_of_normal? hd⟩

/-- A product is exact if it is a number of few digits with zeros behind them. It fits if these
zeros stand behind the point. -/
theorem mul?_of_dvd (hdvd : 10 ^ k ∣ a.mantissa * b.mantissa)
    (hlt : a.mantissa * b.mantissa / 10 ^ k < mantissaLimit)
    (hs : a.scale + b.scale ≤ maxScale + k) :
    (a.mul? b = none ∧ a.scale + b.scale < k) ∨
      ∃ r, a.mul? b = some r ∧ r.value = a.value * b.value := by
  rw [value_mul_eq]
  by_cases hzero : (a.isZero || b.isZero) = true
  · have hm : a.mantissa * b.mantissa = 0 := by simpa using hzero
    refine .inr ⟨zero, by rw [mul?, if_pos hzero], ?_⟩
    rw [hm, value_zero, fraction_eq_zero_iff.mpr rfl, mul_zero]
  have hpos : 0 < a.mantissa * b.mantissa := by
    rw [Nat.pos_iff_ne_zero]
    simpa using hzero
  rw [mul?, if_neg hzero]
  dsimp only
  -- Small mantissas are multiplied in one step and rounded at the largest scale; the product of
  -- others is cut to fit. Both drop only zeros here, as many as there are too many digits.
  by_cases hsmall : (a.mantissa < smallFactor && b.mantissa < smallFactor) = true
  · rw [if_pos hsmall]
    right
    simp only [Bool.and_eq_true, decide_eq_true_eq] at hsmall
    have hproduct : a.mantissa * b.mantissa < 10 ^ (20 : Nat) :=
      Nat.lt_of_lt_of_le (Nat.mul_lt_mul'' hsmall.1 hsmall.2) (by decide)
    have hk : k < 20 :=
      (Nat.pow_lt_pow_iff_right (by decide)).mp
        (Nat.lt_of_le_of_lt (Nat.le_of_dvd hpos hdvd) hproduct)
    have hm : a.mantissa * b.mantissa < mantissaLimit := Nat.lt_of_lt_of_le hproduct (by decide)
    have hvanish : ¬ vanishingScale < a.scale + b.scale := by
      simp only [vanishingScale, maxScale] at hs ⊢
      omega
    rw [if_neg hvanish]
    by_cases hscale : maxScale < a.scale + b.scale
    · rw [if_pos hscale]
      have hle : a.scale + b.scale - maxScale ≤ k := by omega
      have hdvd' := (Nat.pow_dvd_pow 10 hle).trans hdvd
      have hkeep := Nat.sub_sub_self (Nat.le_of_lt hscale)
      obtain ⟨r, hr, hvalue⟩ := exists_of_normal? (a.negative != b.negative)
        (Nat.lt_of_le_of_lt (Nat.div_le_self _ (10 ^ (a.scale + b.scale - maxScale))) hm)
        (Nat.le_refl maxScale)
      refine ⟨r, by rw [roundHalfEven_of_dvd hdvd', hr], ?_⟩
      rw [hvalue, ← fraction_div_pow hdvd' (Nat.sub_le _ _), hkeep]
    · rw [if_neg hscale]
      exact exists_of_normal? _ hm (Nat.le_of_not_lt hscale)
  · rw [if_neg hsmall]
    obtain ⟨d, hd, hm, hscale, hfit⟩ := fit?_of_dvd hdvd hlt hs
    rw [hfit]
    by_cases hroom : a.scale + b.scale < d
    · rw [if_pos hroom]
      exact .inl ⟨rfl, Nat.lt_of_lt_of_le hroom hd⟩
    · rw [if_neg hroom]
      right
      obtain ⟨r, hr, hvalue⟩ := exists_of_ofParts? (a.negative != b.negative) hm hscale
      have hdvd' := (Nat.pow_dvd_pow 10 hd).trans hdvd
      refine ⟨r, hr, ?_⟩
      rw [hvalue, fraction_div_pow hdvd' (Nat.le_of_not_lt hroom)]

/-! ## Taking zeros off -/

theorem fraction_trimZeros (m s : Nat) :
    fraction (trimZeros m s).1 (trimZeros m s).2 = fraction m s := by
  induction s generalizing m with
  | zero => rfl
  | succ s ih =>
    rw [trimZeros]
    split
    · next hmod =>
      rw [ih]
      exact fraction_div_pow (Nat.dvd_of_mod_eq_zero (by simpa using hmod)) (Nat.le_add_left 1 s)
    · rfl

@[simp] theorem value_normalize (d : Decimal) : d.normalize.value = d.value := by
  rw [normalize]
  split
  · next hzero => rw [value_zero, value_eq_zero_iff.mpr (isZero_iff.mp hzero)]
  · rw [value_eq, value_eq, ← fraction_trimZeros d.mantissa d.scale]

end Decimal

end DecimalFormula
