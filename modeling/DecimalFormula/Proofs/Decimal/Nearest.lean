import DecimalFormula.Proofs.Decimal.Units

/-!
# Sums and quotients are rounded to nearest

A sum that does not fit gives up digits, and a quotient that does not end is broken off. Both are
rounded, and both give up no digit that could have been kept: at one digit more the number would be
too large for a mantissa, or have too many digits behind the point. This is `Nearest`, and each way
in which a sum or a long division can end has it.

Two things follow for what is rounded (`Decimal.Rounds`). It is off by at most half a unit of its
last digit, and it never passes a decimal: a decimal at or below the exact number is at or below the
rounded one, and likewise above (`Rounds.le_of_le`, `Rounds.ge_of_ge`). The second is not a matter
of rounding alone. It holds since no decimal with more digits behind the point is as large as the
number that was rounded.

The last digit of the limit of mantissas is a six. So a number just below the limit that is rounded
to one digit less is rounded up, beyond the limit (`Nearest.carry`).
-/

namespace DecimalFormula

variable {x : ℚ} {c m n q r s y σ : Nat}

/-! ## Numbers at a scale -/

theorem fraction_le_iff : fraction m s ≤ x ↔ (m : ℚ) ≤ x * 10 ^ s := by
  rw [fraction, div_le_iff₀ (ten_pow_pos s)]

theorem le_fraction_iff : x ≤ fraction m s ↔ x * 10 ^ s ≤ m := by
  rw [fraction, le_div_iff₀ (ten_pow_pos s)]

theorem fraction_mul_pow (m s k : Nat) : fraction (m * 10 ^ k) (s + k) = fraction m s := by
  have hpos : 0 < 10 ^ k := Nat.pow_pos (by decide)
  have h := fraction_div_pow (Nat.dvd_mul_left (10 ^ k) m) (Nat.le_add_left k s)
  rwa [Nat.mul_div_cancel _ hpos, Nat.add_sub_cancel, eq_comm] at h

theorem mul_ten_pow_succ (x : ℚ) (s : Nat) : x * 10 ^ (s + 1) = 10 * (x * 10 ^ s) := by
  rw [pow_succ]
  ring

/-- The digits `c` at scale `s` are the number `x`, or as close to it as any decimal is. -/
structure Nearest (x : ℚ) (c s : Nat) : Prop where
  /-- The digits are off by half a unit at most. -/
  close : |(c : ℚ) - x * 10 ^ s| ≤ 1 / 2
  /-- Unless the number is met, there is no room for one digit more, either behind the point or in a
  mantissa. -/
  full : fraction c s = x ∨ s = maxScale ∨ (mantissaLimit : ℚ) - 1 < x * 10 ^ (s + 1)

namespace Nearest

theorem of_eq (h : fraction c s = x) : Nearest x c s := by
  refine ⟨?_, .inl h⟩
  rw [← h, fraction, div_mul_cancel₀ _ (ten_pow_pos s).ne', sub_self, abs_zero]
  norm_num

/-- A number that is rounded up to the limit of mantissas loses one digit more. -/
theorem carry (hlow : (mantissaLimit : ℚ) - 1 / 2 ≤ x * 10 ^ (s + 1))
    (hhigh : x * 10 ^ (s + 1) ≤ mantissaLimit) : Nearest x (mantissaLimit / 10 + 1) s := by
  have hdigit : (mantissaLimit : ℚ) + 4 = 10 * ((mantissaLimit / 10 + 1 : Nat) : ℚ) := by
    exact_mod_cast (by decide : mantissaLimit + 4 = 10 * (mantissaLimit / 10 + 1))
  refine ⟨?_, .inr (.inr (by linarith))⟩
  rw [mul_ten_pow_succ] at hlow hhigh
  rw [abs_le]
  constructor <;> linarith

/-- Every mantissa is less than a number that has no room for a further digit. -/
theorem mantissa_lt (hfull : (mantissaLimit : ℚ) - 1 < x * 10 ^ (s + 1)) (hm : m < mantissaLimit) :
    (m : ℚ) < x * 10 ^ (s + 1) := by
  have hle : (m : ℚ) + 1 ≤ mantissaLimit := by exact_mod_cast hm
  linarith

theorem mantissa_le (h : Nearest x c s) (hfull : (mantissaLimit : ℚ) - 1 < x * 10 ^ (s + 1))
    (hm : m < mantissaLimit) : m ≤ c * 10 := by
  have hclose := (abs_le.mp h.close).1
  rw [mul_ten_pow_succ] at hfull
  have hlimit : (mantissaLimit : ℚ) < c * 10 + 6 := by linarith
  have hlimit' : mantissaLimit < c * 10 + 6 := by exact_mod_cast hlimit
  have hlast : mantissaLimit = mantissaLimit / 10 * 10 + 6 := by decide
  omega

/-- A number with digits within bounds is not passed: what is not larger is not larger after
rounding. -/
theorem le_of_le (h : Nearest x c s) {s' : Nat} (hm : m < mantissaLimit) (hs : s' ≤ maxScale)
    (hle : fraction m s' ≤ x) : fraction m s' ≤ fraction c s := by
  rcases h.full with heq | hfull
  · rwa [heq]
  rcases Nat.lt_or_ge s s' with hscale | hscale
  · obtain ⟨k, rfl⟩ := Nat.exists_eq_add_of_lt hscale
    have hroom := hfull.resolve_left (by omega)
    rw [← fraction_mul_pow c s (k + 1), ← Nat.add_assoc, fraction, fraction,
      div_le_div_iff_of_pos_right (ten_pow_pos _), Nat.cast_le, Nat.pow_succ', ← Nat.mul_assoc]
    exact (h.mantissa_le hroom hm).trans (Nat.le_mul_of_pos_right _ (Nat.pow_pos (by decide)))
  · -- At a common scale both are whole, and less than one apart from what they surround.
    obtain ⟨k, rfl⟩ := Nat.exists_eq_add_of_le hscale
    rw [← fraction_mul_pow m s' k] at hle ⊢
    rw [fraction_le_iff] at hle
    rw [fraction, fraction, div_le_div_iff_of_pos_right (ten_pow_pos _), Nat.cast_le]
    have hclose := (abs_le.mp h.close).1
    have hlt : ((m * 10 ^ k : Nat) : ℚ) < (c : ℚ) + 1 := by linarith
    exact Nat.le_of_lt_succ (by exact_mod_cast hlt)

theorem ge_of_ge (h : Nearest x c s) {s' : Nat} (hm : m < mantissaLimit) (hs : s' ≤ maxScale)
    (hge : x ≤ fraction m s') : fraction c s ≤ fraction m s' := by
  rcases h.full with heq | hfull
  · rwa [heq]
  rcases Nat.lt_or_ge s s' with hscale | hscale
  · -- A decimal with more digits behind the point is smaller than the number.
    obtain ⟨k, rfl⟩ := Nat.exists_eq_add_of_lt hscale
    have hlt := mantissa_lt (hfull.resolve_left (by omega)) hm
    rw [le_fraction_iff, show s + k + 1 = s + 1 + k by omega, pow_add, ← mul_assoc] at hge
    have hone : (1 : ℚ) ≤ 10 ^ k := one_le_pow₀ (by norm_num)
    have hpos : 0 ≤ x * 10 ^ (s + 1) := m.cast_nonneg.trans hlt.le
    have hmul := le_mul_of_one_le_right hpos hone
    linarith
  · obtain ⟨k, rfl⟩ := Nat.exists_eq_add_of_le hscale
    rw [← fraction_mul_pow m s' k] at hge ⊢
    rw [le_fraction_iff] at hge
    rw [fraction, fraction, div_le_div_iff_of_pos_right (ten_pow_pos _), Nat.cast_le]
    have hclose := (abs_le.mp h.close).2
    have hlt : (c : ℚ) < ((m * 10 ^ k : Nat) : ℚ) + 1 := by linarith
    exact Nat.le_of_lt_succ (by exact_mod_cast hlt)

theorem abs_sub_le (h : Nearest x c s) : |fraction c s - x| ≤ 1 / (2 * 10 ^ s) := by
  have hpos := ten_pow_pos s
  have heq : fraction c s - x = ((c : ℚ) - x * 10 ^ s) / 10 ^ s := by
    rw [fraction]
    field_simp
  rw [heq, abs_div, abs_of_pos hpos, div_le_div_iff₀ hpos (by positivity)]
  have hclose := h.close
  nlinarith

end Nearest

/-! ## Rounding off -/

/-- A quotient is rounded to nearest if a remainder of more than half the divisor counts as one and
a remainder of less as nothing. -/
theorem abs_round_sub_le (hr : r < y) {up : Prop} [Decidable up] (hup : up → y ≤ 2 * r)
    (hdown : ¬ up → 2 * r ≤ y) :
    |((if up then q + 1 else q : Nat) : ℚ) - (q + r / y)| ≤ 1 / 2 := by
  have hpos : (0 : ℚ) < y := by exact_mod_cast Nat.zero_lt_of_lt hr
  have hrest : (r : ℚ) / y < 1 := by
    rw [div_lt_one hpos]
    exact_mod_cast hr
  rw [abs_le]
  by_cases h : up
  · have hhalf : (1 : ℚ) / 2 ≤ r / y := by
      rw [div_le_div_iff₀ two_pos hpos]
      exact_mod_cast (by linarith [hup h] : 1 * y ≤ r * 2)
    rw [if_pos h]
    push_cast
    constructor <;> linarith
  · have hhalf : (r : ℚ) / y ≤ 1 / 2 := by
      rw [div_le_div_iff₀ hpos two_pos]
      exact_mod_cast (by linarith [hdown h] : r * 2 ≤ 1 * y)
    have hnonneg : (0 : ℚ) ≤ r / y := by positivity
    rw [if_neg h]
    constructor <;> linarith

theorem abs_roundTies_sub_le (q : Nat) (hr : r < y) :
    |((if 2 * r > y || (2 * r == y && q % 2 == 1) then q + 1 else q : Nat) : ℚ) - (q + r / y)| ≤
      1 / 2 := by
  refine abs_round_sub_le hr ?_ ?_
  · simp only [Bool.or_eq_true, Bool.and_eq_true, beq_iff_eq, decide_eq_true_eq]
    omega
  · simp only [Bool.or_eq_true, Bool.and_eq_true, beq_iff_eq, decide_eq_true_eq]
    omega

theorem cast_div_add_mod_div (m : Nat) (hy : 0 < y) :
    ((m / y : Nat) : ℚ) + (m % y : Nat) / y = m / y := by
  have hne : (y : ℚ) ≠ 0 := by exact_mod_cast hy.ne'
  rw [eq_div_iff hne, add_mul, div_mul_cancel₀ _ hne, mul_comm]
  exact_mod_cast Nat.div_add_mod m y

theorem abs_roundHalfEven_sub_le (m d : Nat) :
    |(roundHalfEven m d : ℚ) - m / 10 ^ d| ≤ 1 / 2 := by
  have hpos : 0 < 10 ^ d := Nat.pow_pos (by decide)
  have hsplit := cast_div_add_mod_div m hpos
  push_cast at hsplit
  rw [roundHalfEven, ← hsplit]
  have hround := abs_roundTies_sub_le (m / 10 ^ d) (Nat.mod_lt m hpos)
  push_cast at hround
  exact_mod_cast hround

theorem mantissaLimit_le_div_surplusDigits (h : surplusDigits m ≠ 0) :
    mantissaLimit ≤ m / 10 ^ (surplusDigits m - 1) := by
  by_contra hlt
  have hle := surplusDigits_le_of_lt (Nat.not_le.mp hlt)
  omega

/-- Where digits are dropped, none could have been kept, unless the scale is the largest one. If the
rest is rounded up to the limit of mantissas, one digit more is dropped. -/
theorem drop_of_fit? {s' : Nat} (h : fit? m s = some (c, s')) : c = m ∧ s' = s ∨
    ∃ d k, s = d + 1 + k ∧ m / 10 ^ (d + 1) < mantissaLimit ∧
      (k = maxScale ∨ mantissaLimit ≤ m / 10 ^ d) ∧
      (c = roundHalfEven m (d + 1) ∧ s' = k ∨
        mantissaLimit ≤ roundHalfEven m (d + 1) ∧ k = s' + 1 ∧
          c = roundHalfEven (roundHalfEven m (d + 1)) 1) := by
  rw [fit?] at h
  dsimp only at h
  -- First the digits beyond the largest scale go, and then, of what is left, those that are too
  -- many for a mantissa. Only the sum of both numbers matters from here on.
  have hrest := div_surplusDigits_lt (m / 10 ^ (s - maxScale))
  have hsurplus : surplusDigits (m / 10 ^ (s - maxScale)) ≠ 0 →
      mantissaLimit ≤ m / 10 ^ (s - maxScale + (surplusDigits (m / 10 ^ (s - maxScale)) - 1)) := by
    intro hne
    rw [Nat.pow_add, ← Nat.div_div_eq_div_mul]
    exact mantissaLimit_le_div_surplusDigits hne
  rw [Nat.div_div_eq_div_mul, ← Nat.pow_add] at hrest
  generalize surplusDigits (m / 10 ^ (s - maxScale)) = e at h hrest hsurplus
  split at h
  · cases h
    exact .inl ⟨rfl, rfl⟩
  next hne =>
  split at h
  · cases h
  next hle =>
  obtain ⟨d, hd⟩ := Nat.exists_eq_succ_of_ne_zero hne
  obtain ⟨k, hk⟩ := Nat.exists_eq_add_of_le (Nat.le_of_not_lt hle)
  rw [hd] at h hrest hk
  have hkeep : s - (d + 1) = k := by omega
  have hfull : k = maxScale ∨ mantissaLimit ≤ m / 10 ^ d := by
    by_cases he : e = 0
    · left
      omega
    · right
      rw [show d = s - maxScale + (e - 1) by omega]
      exact hsurplus he
  refine .inr ⟨d, k, hk, hrest, hfull, ?_⟩
  rw [Nat.succ_eq_add_one, hkeep] at h
  split at h
  · cases h
    exact .inl ⟨rfl, rfl⟩
  next hcarry =>
  split at h
  · cases h
  next hscale =>
    cases h
    exact .inr ⟨Nat.le_of_not_lt hcarry, by omega, rfl⟩

theorem roundHalfEven_mantissaLimit : roundHalfEven mantissaLimit 1 = mantissaLimit / 10 + 1 := by
  decide

theorem nearest_of_fit? {s' : Nat} (h : fit? m s = some (c, s')) : Nearest (fraction m s) c s' := by
  rcases drop_of_fit? h with ⟨rfl, rfl⟩ | ⟨d, k, rfl, hrest, hfull, hdrop⟩
  · exact .of_eq rfl
  have hround := abs_roundHalfEven_sub_le m (d + 1)
  have hunit : fraction m (d + 1 + k) * 10 ^ k = m / 10 ^ (d + 1) := by
    rw [fraction, pow_add]
    field_simp
  have hnext : fraction m (d + 1 + k) * 10 ^ (k + 1) = m / 10 ^ d := by
    rw [fraction, Nat.add_assoc, Nat.add_comm 1 k, pow_add]
    field_simp
  -- Either the rest is the nearest mantissa, or rounding it up has led to the limit of mantissas,
  -- from where it is rounded once more.
  rcases hdrop with ⟨rfl, rfl⟩ | ⟨hcarry, rfl, rfl⟩
  · refine ⟨by rwa [hunit], .inr (hfull.imp_right fun hlimit ↦ ?_)⟩
    have hcast : (mantissaLimit : ℚ) ≤ (m / 10 ^ d : Nat) := by exact_mod_cast hlimit
    have hfloor : ((m / 10 ^ d : Nat) : ℚ) ≤ m / (10 ^ d : Nat) := Nat.cast_div_le
    push_cast at hfloor
    rw [hnext]
    linarith
  · have hlimit : roundHalfEven m (d + 1) = mantissaLimit :=
      Nat.le_antisymm ((roundHalfEven_bounds m (d + 1)).2.trans hrest) hcarry
    rw [hlimit] at hround ⊢
    rw [roundHalfEven_mantissaLimit]
    have hless : m < mantissaLimit * 10 ^ (d + 1) :=
      (Nat.div_lt_iff_lt_mul (Nat.pow_pos (by decide))).mp hrest
    refine .carry ?_ ?_
    · rw [hunit]
      linarith [(abs_le.mp hround).2]
    · rw [hunit, div_le_iff₀ (ten_pow_pos _)]
      exact_mod_cast hless.le

namespace Decimal

variable {a b d e : Decimal}

/-! ## Rounded decimals -/

/-- The decimal is the number `x`, rounded at the scale `s`. -/
def Rounds (d : Decimal) (x : ℚ) (s : Nat) : Prop :=
  ∃ negative y m, 0 ≤ y ∧ x = signFactor negative * y ∧
    d.value = signFactor negative * fraction m s ∧ Nearest y m s

theorem signFactor_not (negative : Bool) : signFactor (!negative) = -signFactor negative := by
  cases negative <;> simp [signFactor]

@[simp] theorem value_neg (d : Decimal) : d.neg.value = -d.value := by
  rw [value, signed_neg, value, Int.cast_neg, neg_div]
  rfl

theorem le_abs_value (d : Decimal) : d.value ≤ fraction d.mantissa d.scale := by
  rw [← abs_value]
  exact le_abs_self _

theorem value_of_nonneg (h : 0 ≤ d.value) : d.value = fraction d.mantissa d.scale := by
  rw [← abs_value, abs_of_nonneg h]

namespace Rounds

theorem self (d : Decimal) : d.Rounds d.value d.scale :=
  ⟨d.negative, fraction d.mantissa d.scale, d.mantissa, fraction_nonneg _ _, value_eq d, value_eq d,
    .of_eq rfl⟩

theorem neg (h : d.Rounds x s) : d.neg.Rounds (-x) s := by
  obtain ⟨negative, y, m, hy, hx, hd, hnearest⟩ := h
  refine ⟨!negative, y, m, hy, ?_, ?_, hnearest⟩
  · rw [hx, signFactor_not, neg_mul]
  · rw [value_neg, hd, signFactor_not, neg_mul]

/-- A decimal that is not larger than the exact number is not larger than the rounded one. -/
theorem le_of_le (h : d.Rounds x s) (he : e.value ≤ x) : e.value ≤ d.value := by
  obtain ⟨negative, y, m, hy, rfl, hd, hnearest⟩ := h
  rw [hd]
  cases negative with
  | false =>
    rw [signFactor, if_neg Bool.false_ne_true, one_mul] at he ⊢
    rcases le_or_gt 0 e.value with hsign | hsign
    · rw [value_of_nonneg hsign] at he ⊢
      exact hnearest.le_of_le e.mantissa_lt e.scale_le he
    · exact hsign.le.trans (fraction_nonneg m s)
  | true =>
    rw [signFactor, if_pos rfl, neg_one_mul] at he ⊢
    have hge := hnearest.ge_of_ge e.neg.mantissa_lt e.neg.scale_le
      ((le_neg.mp he).trans (by rw [← value_neg]; exact le_abs_value e.neg))
    have hvalue : e.neg.value = fraction e.neg.mantissa e.neg.scale :=
      value_of_nonneg (by rw [value_neg]; exact hy.trans (le_neg.mp he))
    rw [← hvalue, value_neg] at hge
    exact le_neg.mp hge

theorem ge_of_ge (h : d.Rounds x s) (he : x ≤ e.value) : d.value ≤ e.value := by
  have hneg : e.neg.value ≤ -x := by
    rw [value_neg]
    exact neg_le_neg he
  have hle := h.neg.le_of_le hneg
  rw [value_neg, value_neg] at hle
  exact neg_le_neg_iff.mp hle

theorem eq_of_value (h : d.Rounds e.value s) : d.value = e.value :=
  le_antisymm (h.ge_of_ge le_rfl) (h.le_of_le le_rfl)

theorem abs_sub_le (h : d.Rounds x s) : |d.value - x| ≤ 1 / (2 * 10 ^ s) := by
  obtain ⟨negative, y, m, -, rfl, hd, hnearest⟩ := h
  rw [hd, ← mul_sub, abs_signFactor_mul]
  exact hnearest.abs_sub_le

end Rounds

/-! ## Sums -/

theorem value_add_eq (a b : Decimal) : a.value + b.value =
    ((a.signed * 10 ^ (max a.scale b.scale - a.scale) +
      b.signed * 10 ^ (max a.scale b.scale - b.scale) : Int) : ℚ) / 10 ^ max a.scale b.scale := by
  have hscale (d : Decimal) (s : Nat) (hs : d.scale ≤ s) :
      d.value = d.signed * 10 ^ (s - d.scale) / 10 ^ s := by
    obtain ⟨k, rfl⟩ := Nat.exists_eq_add_of_le hs
    rw [value, Nat.add_sub_cancel_left, pow_add]
    field_simp
  rw [hscale a _ (le_max_left _ _), hscale b _ (le_max_right _ _), ← add_div]
  push_cast
  rfl

theorem eq_signFactor_mul_natAbs (v : Int) :
    (v : ℚ) = signFactor (decide (v < 0)) * (v.natAbs : ℚ) := by
  rw [Nat.cast_natAbs, Int.cast_abs]
  by_cases hneg : v < 0
  · have hcast : (v : ℚ) < 0 := by exact_mod_cast hneg
    rw [signFactor, if_pos (decide_eq_true hneg), abs_of_neg hcast, neg_mul_neg, one_mul]
  · have hcast : (0 : ℚ) ≤ v := by exact_mod_cast Int.not_lt.mp hneg
    rw [signFactor, if_neg (by simpa using hneg), abs_of_nonneg hcast, one_mul]

theorem rounds_of_add? (h : a.add? b = some d) : d.Rounds (a.value + b.value) d.scale := by
  rw [add?] at h
  by_cases ha : a.isZero = true
  · rw [if_pos ha] at h
    cases h
    rw [value_eq_zero_iff.mpr (isZero_iff.mp ha), zero_add]
    exact .self b
  rw [if_neg ha] at h
  by_cases hb : b.isZero = true
  · rw [if_pos hb] at h
    cases h
    rw [value_eq_zero_iff.mpr (isZero_iff.mp hb), add_zero]
    exact .self a
  rw [if_neg hb] at h
  dsimp only at h
  rw [value_add_eq]
  generalize a.signed * 10 ^ (max a.scale b.scale - a.scale) +
    b.signed * 10 ^ (max a.scale b.scale - b.scale) = v at h ⊢
  obtain ⟨⟨m, s⟩, hfit, hnormal⟩ := Option.bind_eq_some_iff.mp h
  obtain ⟨-, -, hscale⟩ := ofParts?_eq_some_iff.mp hnormal
  refine ⟨decide (v < 0), fraction v.natAbs (max a.scale b.scale), m, fraction_nonneg _ _,
    ?_, ?_, ?_⟩
  · rw [eq_signFactor_mul_natAbs v, mul_div_assoc, fraction]
  · rw [hscale]
    exact value_of_normal? hnormal
  · rw [hscale]
    exact nearest_of_fit? hfit

end Decimal

end DecimalFormula
