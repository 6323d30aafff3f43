import DecimalFormula.Operator
import DecimalFormula.Proofs.Decimal.Units
import Mathlib.Analysis.SpecialFunctions.Pow.Real

/-!
# Powers that cannot be large

Where the magnitude of a power is at most one by the size of the base and the sign of the exponent,
the power has a value. It may be that it cannot be worked out, but then it is less than one and zero
stands in for it. The one exception is minus one to a whole power of `2 ^ 32` or more, in either
direction: that cannot be worked out and counts as an overflow (`BinaryOp.apply_power`).

Whether a power vanishes is decided by comparing the base with one, and the comparison is strict. So
everything depends on bases of magnitude one: the powers of one are never worked out, and those of
minus one can be as long as their exponents are small enough
(`Decimal.tryPow?_eq_none_iff_of_unit`).
-/

namespace DecimalFormula

namespace Decimal

variable {b d e : Decimal} {m s : Nat}

/-! ## Signs and whole numbers -/

def Whole (d : Decimal) : Prop := ∃ n : ℤ, d.value = n

theorem value_neg_iff : d.value < 0 ↔ d.negative = true ∧ d.mantissa ≠ 0 := by
  have hzero : 0 < fraction d.mantissa d.scale ↔ d.mantissa ≠ 0 := by
    rw [(fraction_nonneg _ _).lt_iff_ne', ne_eq, fraction_eq_zero_iff]
  rw [value_eq, ← hzero]
  cases d.negative with
  | false => simp [signFactor, fraction_nonneg]
  | true => simp [signFactor]

theorem negative_iff (h : d.value ≠ 0) : d.negative = true ↔ d.value < 0 := by
  rw [value_neg_iff, and_iff_left (mt value_eq_zero_iff.mpr h)]

theorem value_abs (d : Decimal) : d.abs.value = |d.value| := by
  rw [abs_value, value_eq]
  simp [abs, signFactor]

theorem whole_iff_dvd : d.Whole ↔ 10 ^ d.scale ∣ d.mantissa := by
  constructor
  · rintro ⟨n, hn⟩
    have habs := abs_value d
    rw [hn, fraction, eq_div_iff (ten_pow_pos _).ne', ← Int.cast_abs, Int.abs_eq_natAbs] at habs
    have hmantissa : n.natAbs * 10 ^ d.scale = d.mantissa := by exact_mod_cast habs
    exact ⟨n.natAbs, by rw [← hmantissa, Nat.mul_comm]⟩
  · rintro ⟨q, hq⟩
    have hvalue : fraction d.mantissa d.scale = q := by
      rw [fraction, hq, div_eq_iff (ten_pow_pos _).ne']
      push_cast
      ring
    refine ⟨if d.negative then -(q : ℤ) else q, ?_⟩
    rw [value_eq, hvalue, signFactor]
    split <;> simp

theorem isWhole_iff : d.isWhole = true ↔ d.Whole := by
  rw [isWhole, beq_iff_eq, ← Nat.dvd_iff_mod_eq_zero, whole_iff_dvd]

theorem trimZeros_of_dvd (h : 10 ^ s ∣ m) : trimZeros m s = (m / 10 ^ s, 0) := by
  induction s generalizing m with
  | zero => simp [trimZeros]
  | succ s ih =>
    obtain ⟨q, rfl⟩ := h
    have hten : 10 ^ (s + 1) * q = 10 * (10 ^ s * q) := by
      rw [Nat.pow_succ']
      ring
    rw [trimZeros, hten, if_pos (Nat.mul_mod_right _ _), Nat.mul_div_cancel_left _ (by decide),
      ih (Nat.dvd_mul_right _ _), ← hten, Nat.mul_div_cancel_left _ (Nat.pow_pos (by decide)),
      Nat.mul_div_cancel_left _ (Nat.pow_pos (by decide))]

theorem normalize_of_whole (h : e.Whole) :
    e.normalize.scale = 0 ∧ (e.normalize.mantissa : ℚ) = |e.value| := by
  have hscale : e.normalize.scale = 0 := by
    rw [normalize]
    split
    · rfl
    · exact congrArg Prod.snd (trimZeros_of_dvd (whole_iff_dvd.mp h))
  refine ⟨hscale, ?_⟩
  rw [← value_normalize, abs_value, hscale, fraction, pow_zero, div_one]

/-! ## What can be worked out -/

theorem ne_of_tryPow?_eq_none (h : b.tryPow? e = none) :
    e.value ≠ 0 ∧ b.value ≠ 0 ∧ b.value ≠ 1 := by
  rw [tryPow?] at h
  split at h
  · cases h
  next he =>
  split at h
  · cases h
  next hb =>
  split at h
  · cases h
  next hone =>
  rw [isZero_iff, ← value_eq_zero_iff] at he hb
  rw [same_iff_value, value_one] at hone
  exact ⟨he, hb, hone⟩

theorem tryPow?_eq_none_iff_of_unit (hb : b.value = -1) (he : e.Whole) :
    b.tryPow? e = none ↔ 2 ^ 32 ≤ |e.value| := by
  have hunit : |b.value| = 1 := by rw [hb, abs_neg, abs_one]
  have hbzero : ¬ b.isZero = true := by
    rw [isZero_iff, ← value_eq_zero_iff, hb]
    norm_num
  have hbone : ¬ b.same one = true := by
    rw [same_iff_value, value_one, hb]
    norm_num
  rw [tryPow?]
  by_cases hzero : e.isZero = true
  · rw [if_pos hzero, value_eq_zero_iff.mpr (isZero_iff.mp hzero)]
    exact iff_of_false (Option.some_ne_none _) (by norm_num)
  rw [if_neg hzero, if_neg hbzero, if_neg hbone]
  by_cases hone : e.same one = true
  · rw [if_pos hone, same_iff_value.mp hone, value_one]
    exact iff_of_false (Option.some_ne_none _) (by norm_num)
  rw [if_neg hone]
  obtain ⟨hscale, hmantissa⟩ := normalize_of_whole he
  have hlimit : exponentLimit ≤ e.normalize.mantissa ↔ 2 ^ 32 ≤ |e.value| := by
    rw [← hmantissa]
    exact_mod_cast Iff.rfl
  dsimp only
  rw [if_pos hscale, ← hlimit]
  obtain ⟨r, hr, hvalue⟩ := exists_powNat?_unit hunit e.normalize.mantissa
  obtain ⟨v, hv⟩ := exists_invert?_unit hvalue
  by_cases hlarge : exponentLimit ≤ e.normalize.mantissa
  · rw [if_pos hlarge]
    exact ⟨fun _ ↦ hlarge, fun _ ↦ rfl⟩
  · rw [if_neg hlarge, hr, Option.bind_some, hv]
    split <;> simp [hlarge]

/-! ## Powers -/

theorem shrinks_iff (he : e.value ≠ 0) : b.shrinks e = true ↔
    e.value < 0 ∧ 1 < |b.value| ∨ 0 < e.value ∧ |b.value| < 1 := by
  rw [shrinks]
  by_cases hneg : e.value < 0
  · rw [if_pos ((negative_iff he).mpr hneg), lt_iff_value, value_one, value_abs]
    simp [hneg, hneg.le]
  · have hpos : 0 < e.value := lt_of_le_of_ne (not_lt.mp hneg) (Ne.symm he)
    rw [if_neg (mt (negative_iff he).mp hneg), lt_iff_value, value_one, value_abs]
    simp [hneg, hpos]

theorem rpow_lt_one_of_shrinks (hb : b.value ≠ 0) (he : e.value ≠ 0) (h : b.shrinks e = true) :
    (|b.value| : ℝ) ^ (e.value : ℝ) < 1 := by
  have hpos : (0 : ℝ) < |(b.value : ℝ)| := by
    rw [abs_pos]
    exact_mod_cast hb
  rcases (shrinks_iff he).mp h with ⟨hneg, hbase⟩ | ⟨hexponent, hbase⟩
  · exact Real.rpow_lt_one_of_one_lt_of_neg (by exact_mod_cast hbase) (by exact_mod_cast hneg)
  · exact Real.rpow_lt_one hpos.le (by exact_mod_cast hbase) (by exact_mod_cast hexponent)

/-- What can come of a power, and when. -/
inductive PowOutcome (b e : Decimal) : Except PowerError Decimal → Prop
  | zeroToNegative : b.value = 0 ∧ e.value < 0 → PowOutcome b e (.error .zeroToNegative)
  | noRealResult : b.value < 0 ∧ ¬ e.Whole → PowOutcome b e (.error .noRealResult)
  | value {v} : ¬ (b.value = 0 ∧ e.value < 0) → ¬ (b.value < 0 ∧ ¬ e.Whole) →
    b.tryPow? e = some v → PowOutcome b e (.ok v)
  | vanished : ¬ (b.value = 0 ∧ e.value < 0) → ¬ (b.value < 0 ∧ ¬ e.Whole) →
    b.tryPow? e = none → b.shrinks e = true → PowOutcome b e (.ok zero)
  | overflow : ¬ (b.value = 0 ∧ e.value < 0) → ¬ (b.value < 0 ∧ ¬ e.Whole) →
    b.tryPow? e = none → b.shrinks e = false → PowOutcome b e (.error .overflow)

theorem powOutcome_pow (b e : Decimal) : PowOutcome b e (b.pow e) := by
  have hguard : (b.isZero && e.negative && !e.isZero) = true ↔ b.value = 0 ∧ e.value < 0 := by
    rw [value_neg_iff, value_eq_zero_iff]
    simp [isZero, and_assoc]
  have hguard' : (b.negative && !b.isZero && !e.isWhole) = true ↔ b.value < 0 ∧ ¬ e.Whole := by
    rw [value_neg_iff, ← isWhole_iff]
    simp [isZero, and_assoc]
  rw [pow]
  by_cases hzero : (b.isZero && e.negative && !e.isZero) = true
  · rw [if_pos hzero]
    exact .zeroToNegative (hguard.mp hzero)
  rw [if_neg hzero]
  by_cases hreal : (b.negative && !b.isZero && !e.isWhole) = true
  · rw [if_pos hreal]
    exact .noRealResult (hguard'.mp hreal)
  rw [if_neg hreal]
  rw [hguard] at hzero
  rw [hguard'] at hreal
  cases htry : b.tryPow? e with
  | some v => exact .value hzero hreal htry
  | none =>
    cases hshrinks : b.shrinks e with
    | true => exact .vanished hzero hreal htry hshrinks
    | false => exact .overflow hzero hreal htry hshrinks

/-- The power has a magnitude of at most one, by the size of the base and the sign of the
exponent. -/
def SmallPower (b e : Decimal) : Prop :=
  |b.value| ≤ 1 ∧ 0 ≤ e.value ∨ 1 ≤ |b.value| ∧ e.value ≤ 0

theorem SmallPower.rpow_le_one (h : SmallPower b e) :
    (|b.value| : ℝ) ^ (e.value : ℝ) ≤ 1 := by
  rcases h with ⟨hb, he⟩ | ⟨hb, he⟩
  · exact Real.rpow_le_one (abs_nonneg _) (by exact_mod_cast hb) (by exact_mod_cast he)
  · exact Real.rpow_le_one_of_one_le_of_nonpos (by exact_mod_cast hb) (by exact_mod_cast he)

/-- A small power that cannot be worked out moves toward zero, unless the base is minus one. -/
theorem SmallPower.shrinks_iff (h : SmallPower b e) (htry : b.tryPow? e = none) :
    b.shrinks e = true ↔ b.value ≠ -1 := by
  obtain ⟨he, -, hone⟩ := ne_of_tryPow?_eq_none htry
  have hmagnitude : |b.value| ≠ 1 ↔ b.value ≠ -1 := by
    rw [not_iff_not, abs_eq (by norm_num), or_iff_right hone]
  rw [Decimal.shrinks_iff he, ← hmagnitude]
  constructor
  · rintro (⟨-, hbase⟩ | ⟨-, hbase⟩)
    · exact hbase.ne'
    · exact hbase.ne
  · intro hne
    rcases h with ⟨hb, hexponent⟩ | ⟨hb, hexponent⟩
    · exact .inr ⟨lt_of_le_of_ne hexponent (Ne.symm he), lt_of_le_of_ne hb hne⟩
    · exact .inl ⟨lt_of_le_of_ne hexponent he, lt_of_le_of_ne hb (Ne.symm hne)⟩

/-- Among small powers, only those of minus one can neither be worked out nor vanish. -/
theorem SmallPower.fails_iff (h : SmallPower b e) (hreal : ¬ (b.value < 0 ∧ ¬ e.Whole)) :
    b.tryPow? e = none ∧ b.shrinks e = false ↔ b.value = -1 ∧ 2 ^ 32 ≤ |e.value| := by
  have hwhole : b.value = -1 → e.Whole := by
    intro hb
    by_contra hfraction
    exact hreal ⟨by rw [hb]; norm_num, hfraction⟩
  constructor
  · rintro ⟨htry, hshrinks⟩
    have hb : b.value = -1 := by
      by_contra hne
      rw [(h.shrinks_iff htry).mpr hne] at hshrinks
      cases hshrinks
    exact ⟨hb, (tryPow?_eq_none_iff_of_unit hb (hwhole hb)).mp htry⟩
  · rintro ⟨hb, hlarge⟩
    have htry := (tryPow?_eq_none_iff_of_unit hb (hwhole hb)).mpr hlarge
    refine ⟨htry, ?_⟩
    rw [← Bool.not_eq_true, h.shrinks_iff htry, not_not]
    exact hb

theorem pow_eq_zeroToNegative_iff :
    b.pow e = .error .zeroToNegative ↔ b.value = 0 ∧ e.value < 0 := by
  have houtcome := powOutcome_pow b e
  generalize b.pow e = outcome at houtcome ⊢
  cases houtcome with
  | zeroToNegative h => exact iff_of_true rfl h
  | noRealResult h => exact iff_of_false nofun fun hzero ↦ h.1.ne hzero.1
  | value hzero | vanished hzero | overflow hzero => exact iff_of_false nofun hzero

theorem pow_eq_noRealResult_iff :
    b.pow e = .error .noRealResult ↔ b.value < 0 ∧ ¬ e.Whole := by
  have houtcome := powOutcome_pow b e
  generalize b.pow e = outcome at houtcome ⊢
  cases houtcome with
  | zeroToNegative h => exact iff_of_false nofun fun hreal ↦ hreal.1.ne h.1
  | noRealResult h => exact iff_of_true rfl h
  | value _ hreal | vanished _ hreal | overflow _ hreal => exact iff_of_false nofun hreal

theorem pow_eq_overflow_iff (hzero : ¬ (b.value = 0 ∧ e.value < 0))
    (hreal : ¬ (b.value < 0 ∧ ¬ e.Whole)) :
    (b.pow e = .error .overflow ↔ b.tryPow? e = none ∧ b.shrinks e = false) ∧
      (b.pow e ≠ .error .overflow → ∃ v, b.pow e = .ok v) := by
  have houtcome := powOutcome_pow b e
  generalize b.pow e = outcome at houtcome ⊢
  cases houtcome with
  | zeroToNegative h => exact absurd h hzero
  | noRealResult h => exact absurd h hreal
  | @value v _ _ htry =>
    refine ⟨iff_of_false nofun ?_, fun _ ↦ ⟨v, rfl⟩⟩
    rw [htry]
    exact fun h ↦ Option.some_ne_none v h.1
  | vanished _ _ _ hshrinks =>
    refine ⟨iff_of_false nofun ?_, fun _ ↦ ⟨zero, rfl⟩⟩
    rw [hshrinks]
    exact fun h ↦ Bool.noConfusion h.2
  | overflow _ _ htry hshrinks => exact ⟨iff_of_true rfl ⟨htry, hshrinks⟩, fun h ↦ absurd rfl h⟩

/-- A power that has a value without having been worked out is less than one. -/
theorem eq_zero_of_tryPow?_eq_none {v : Decimal} (htry : b.tryPow? e = none)
    (h : b.pow e = .ok v) : v = zero ∧ (|b.value| : ℝ) ^ (e.value : ℝ) < 1 := by
  have houtcome := powOutcome_pow b e
  rw [h] at houtcome
  cases houtcome with
  | value _ _ hvalue =>
    rw [htry] at hvalue
    cases hvalue
  | vanished _ _ _ hshrinks =>
    obtain ⟨he, hb, -⟩ := ne_of_tryPow?_eq_none htry
    exact ⟨rfl, rpow_lt_one_of_shrinks hb he hshrinks⟩

end Decimal

namespace BinaryOp

open Decimal

variable {b e : Decimal}

theorem apply_power_eq_error_iff {error : PowerError} :
    power.apply b e = .error (match error with
      | .zeroToNegative => .zeroToNegativePower
      | .noRealResult => .noRealPower
      | .overflow => .overflow power) ↔ b.pow e = .error error := by
  rw [apply]
  generalize b.pow e = outcome
  rcases outcome with cause | v
  · cases cause <;> cases error <;> simp
  · cases error <;> simp

theorem apply_power_eq_ok_iff {v : Decimal} : power.apply b e = .ok v ↔ b.pow e = .ok v := by
  rw [apply]
  generalize b.pow e = outcome
  rcases outcome with cause | v
  · cases cause <;> simp
  · simp

/-- **Powers that cannot be large.** The errors of a power are where they have to be: zero to a
negative power, and a negative base with an exponent that is not whole. Apart from these, a power
whose magnitude is at most one has a value, except for minus one to a power of `2 ^ 32` or more in
either direction, which overflows. A power that has a value without having been worked out is zero,
and its magnitude is really less than one. -/
theorem apply_power (b e : Decimal) :
    (power.apply b e = .error .zeroToNegativePower ↔ b.value = 0 ∧ e.value < 0) ∧
    (power.apply b e = .error .noRealPower ↔ b.value < 0 ∧ ¬ e.Whole) ∧
    (¬ (b.value = 0 ∧ e.value < 0) → ¬ (b.value < 0 ∧ ¬ e.Whole) → SmallPower b e →
      (|b.value| : ℝ) ^ (e.value : ℝ) ≤ 1 ∧
      (power.apply b e = .error (.overflow power) ↔ b.value = -1 ∧ 2 ^ 32 ≤ |e.value|) ∧
      (¬ (b.value = -1 ∧ 2 ^ 32 ≤ |e.value|) → ∃ v, power.apply b e = .ok v)) ∧
    (b.tryPow? e = none → ∀ v, power.apply b e = .ok v →
      v = .zero ∧ (|b.value| : ℝ) ^ (e.value : ℝ) < 1) := by
  refine ⟨?_, ?_, fun hzero hreal hsmall ↦ ?_, fun htry v hv ↦ ?_⟩
  · exact apply_power_eq_error_iff.trans pow_eq_zeroToNegative_iff
  · exact apply_power_eq_error_iff.trans pow_eq_noRealResult_iff
  · obtain ⟨hoverflow, hvalue⟩ := pow_eq_overflow_iff hzero hreal
    rw [hsmall.fails_iff hreal] at hoverflow
    refine ⟨hsmall.rpow_le_one, apply_power_eq_error_iff.trans hoverflow, fun hsize ↦ ?_⟩
    obtain ⟨v, hv⟩ := hvalue (mt hoverflow.mp hsize)
    exact ⟨v, apply_power_eq_ok_iff.mpr hv⟩
  · exact eq_zero_of_tryPow?_eq_none htry (apply_power_eq_ok_iff.mp hv)

/-- The largest power of minus one that is worked out, and a power that vanishes. -/
theorem apply_power_limits :
    let minusOne : Decimal := ⟨true, 1, 0, by decide, by decide⟩
    let largest : Decimal := ⟨false, 4294967295, 0, by decide, by decide⟩
    let half : Decimal := ⟨false, 5, 1, by decide, by decide⟩
    let tooLarge : Decimal := ⟨false, 4294967296, 0, by decide, by decide⟩
    (∃ v, power.apply minusOne largest = .ok v) ∧ power.apply half tooLarge = .ok .zero ∧
      (|half.value| : ℝ) ^ (tooLarge.value : ℝ) < 1 := by
  intro minusOne largest half tooLarge
  have hbase : minusOne.value = -1 := by norm_num [minusOne, value, signed]
  have hexponent : largest.value = 4294967295 := by norm_num [largest, value, signed]
  have hvanishes : power.apply half tooLarge = .ok .zero := by decide +kernel
  obtain ⟨-, -, hsmall, -⟩ := apply_power minusOne largest
  obtain ⟨-, -, -, hfallback⟩ := apply_power half tooLarge
  refine ⟨?_, hvanishes, (hfallback (by decide +kernel) .zero hvanishes).2⟩
  rw [SmallPower, hbase, hexponent] at hsmall
  have hwhole : largest.Whole := whole_iff_dvd.mpr (one_dvd _)
  refine (hsmall ?_ (fun h ↦ h.2 hwhole) (.inl ?_)).2.2 ?_
  · norm_num
  · norm_num
  · norm_num

/-- Minus one to the power `2 ^ 32` is one, and overflows. -/
theorem apply_power_minus_one_overflow :
    let base : Decimal := ⟨true, 1, 0, by decide, by decide⟩
    let exponent : Decimal := ⟨false, 4294967296, 0, by decide, by decide⟩
    base.value = -1 ∧ exponent.value = 2 ^ 32 ∧ SmallPower base exponent ∧
      power.apply base exponent = .error (.overflow power) := by
  intro base exponent
  have hbase : base.value = -1 := by norm_num [base, value, signed]
  have hexponent : exponent.value = 2 ^ 32 := by norm_num [exponent, value, signed]
  refine ⟨hbase, hexponent, .inl ?_, by decide +kernel⟩
  rw [hbase, hexponent]
  norm_num

end BinaryOp

end DecimalFormula
