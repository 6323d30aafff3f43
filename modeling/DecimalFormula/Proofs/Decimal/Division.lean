import DecimalFormula.Proofs.Decimal.Nearest

/-!
# Long division

In the middle of a long division by `y` the number is known exactly: it is the digits so far, with
what the remainder is worth behind them (`Quotient.exact`). Appending digits does not change it
(`exact_append`), and every way to end the division rounds it to nearest (`Quotient.Ends`).

A division whose scale is not negative has digits in front of the point to begin with, and never
fails: there is always a digit behind the point that can be given up. The one case in which there is
none is a number that is full of digits and whole, and then nothing is left over. So dividing by a
positive whole number always has a result (`Decimal.exists_divNat?`).
-/

namespace DecimalFormula

namespace Quotient

variable {x : ℚ} {c p q r s y σ : Nat}

/-- The number of a division by `y` with digits `q` at scale `s` and remainder `r`. -/
def exact (q r y s : Nat) : ℚ := (q + r / y) / 10 ^ s

/-- The digits `c` at scale `s` are within bounds, have no fewer digits behind the point than `σ`,
and are nearest to `x`. -/
structure Ends (x : ℚ) (σ s c : Nat) : Prop where
  le_scale : σ ≤ s
  scale_le : s ≤ maxScale
  digits_lt : c < mantissaLimit
  nearest : Nearest x c s

theorem exact_zero (q y s : Nat) : exact q 0 y s = fraction q s := by
  rw [exact, Nat.cast_zero, zero_div, add_zero, fraction]

theorem exact_mul_pow (q r y s : Nat) : exact q r y s * 10 ^ s = q + r / y :=
  div_mul_cancel₀ _ (ten_pow_pos s).ne'

/-- Further digits are those of the remainder with zeros behind it. -/
theorem exact_append (hy : 0 < y) (q r s p : Nat) :
    exact (q * 10 ^ p + r * 10 ^ p / y) (r * 10 ^ p % y) y (s + p) = exact q r y s := by
  have hsplit := cast_div_add_mod_div (r * 10 ^ p) hy
  have hne : (y : ℚ) ≠ 0 := by exact_mod_cast hy.ne'
  rw [exact, exact, Nat.cast_add, add_assoc, hsplit, pow_add]
  push_cast
  field_simp

/-! ## Room for digits -/

theorem roomFor_mul_lt (hq : q < mantissaLimit) (p : Nat) :
    q * 10 ^ roomFor q p < mantissaLimit := by
  induction p with
  | zero => simpa [roomFor] using hq
  | succ p ih =>
    rw [roomFor]
    split
    · next hle =>
      have hmul := (Nat.le_div_iff_mul_le (Nat.pow_pos (by decide))).mp hle
      exact Nat.lt_of_le_of_lt hmul (by decide)
    · exact ih

theorem le_of_roomFor_eq_zero (hp : p ≠ 0) (h : roomFor q p = 0) : mantissaLimit ≤ q * 10 := by
  induction p with
  | zero => exact absurd rfl hp
  | succ p ih =>
    rw [roomFor] at h
    split at h
    · cases h
    next hlt =>
      by_cases hzero : p = 0
      · rw [hzero] at hlt
        have hlimit : (mantissaLimit - 1) / 10 ^ (0 + 1) < q := Nat.lt_of_not_le hlt
        rw [Nat.zero_add, Nat.pow_one] at hlimit
        have hpos : 0 < mantissaLimit := by decide
        omega
      · exact ih hzero h

theorem batch_ofNat (hs : s ≤ maxScale) :
    s + batch s ≤ maxScale ∧ (batch s = 0 → s = maxScale) := by
  unfold batch
  simp only [maxScale] at hs ⊢
  split <;> omega

/-! ## Ways to end a division -/

/-- The last digit is given up where a digit too many was appended. -/
theorem exists_giveUpDigit (hr : r < y) (hs : s < maxScale) (hσ : σ ≤ s) (hq : mantissaLimit ≤ q)
    (hlt : q < 9 * mantissaLimit) :
    ∃ c, giveUpDigit ((s + 1 : Nat) : Int) q (r != 0) = some ((s : Int), c) ∧
      Ends (exact q r y (s + 1)) σ s c := by
  have hpos : ¬ ((s + 1 : Nat) : Int) ≤ 0 := by omega
  have hscale : ((s + 1 : Nat) : Int) - 1 = s := by omega
  rw [giveUpDigit]
  rw [if_neg hpos, hscale]
  refine ⟨_, rfl, hσ, hs.le, ?_, ?_, .inr (.inr ?_)⟩
  · have hmany : 10 < mantissaLimit := by decide
    split <;> omega
  · have hy : (y : ℚ) ≠ 0 := by exact_mod_cast (Nat.zero_lt_of_lt hr).ne'
    have hten : q % 10 * y ≤ 9 * y := Nat.mul_le_mul_right y (by omega)
    have hunit : exact q r y (s + 1) * 10 ^ s =
        ((q / 10 : Nat) : ℚ) + (q % 10 * y + r : Nat) / (10 * y : Nat) := by
      have hsplit : (q : ℚ) = 10 * (q / 10 : Nat) + (q % 10 : Nat) := by
        exact_mod_cast (Nat.div_add_mod q 10).symm
      rw [exact, hsplit, pow_succ]
      push_cast
      field_simp
      ring
    rw [hunit]
    refine abs_round_sub_le (by omega) (fun hup ↦ ?_) (fun hdown ↦ ?_)
    · have hlast : 5 ≤ q % 10 := by
        simp only [Bool.or_eq_true, Bool.and_eq_true, beq_iff_eq, decide_eq_true_eq] at hup
        omega
      have hmul := Nat.mul_le_mul_right y hlast
      omega
    · have hlast : q % 10 ≤ 4 ∨ q % 10 = 5 ∧ r = 0 := by
        simp only [Bool.or_eq_true, Bool.and_eq_true, beq_iff_eq, bne_iff_ne, decide_eq_true_eq]
          at hdown
        omega
      rcases hlast with hlast | ⟨hlast, hzero⟩
      · have hmul := Nat.mul_le_mul_right y hlast
        omega
      · rw [hlast, hzero]
        omega
  · rw [exact_mul_pow]
    have hlimit : (mantissaLimit : ℚ) ≤ q := by exact_mod_cast hq
    have hrest : (0 : ℚ) ≤ (r : ℚ) / y := by positivity
    linarith

theorem giveUpDigit_mantissaLimit (s : Nat) : giveUpDigit ((s + 1 : Nat) : Int) mantissaLimit true =
    some ((s : Int), mantissaLimit / 10 + 1) := by
  have hpos : ¬ ((s + 1 : Nat) : Int) ≤ 0 := by omega
  have hscale : ((s + 1 : Nat) : Int) - 1 = s := by omega
  have hlast : (mantissaLimit % 10 > 5 ||
      (mantissaLimit % 10 == 5 && (true || mantissaLimit / 10 % 2 == 1))) = true := by decide
  rw [giveUpDigit, if_neg hpos, hscale, if_pos hlast]

/-- A remainder for which there is no room rounds the last digit. -/
theorem exists_roundOff (hr : r < y) (hq : q < mantissaLimit) (hs : s ≤ maxScale) (hσ : σ ≤ s)
    (hfull : s = maxScale ∨ mantissaLimit ≤ q * 10) (hroom : q + 1 = mantissaLimit → σ < s) :
    ∃ (s' c : Nat), roundOff s q r y = some ((s' : Int), c) ∧ Ends (exact q r y s) σ s' c := by
  have hscaled := exact_mul_pow q r y s
  have hnext : exact q r y s * 10 ^ (s + 1) = 10 * (q + r / y) := by
    rw [mul_ten_pow_succ, hscaled]
  have hrest : (0 : ℚ) ≤ (r : ℚ) / y := by positivity
  have hroom' : s = maxScale ∨ (mantissaLimit : ℚ) - 1 < exact q r y s * 10 ^ (s + 1) := by
    refine hfull.imp_right fun hlimit ↦ ?_
    have hcast : (mantissaLimit : ℚ) ≤ q * 10 := by exact_mod_cast hlimit
    rw [hnext]
    linarith
  have hround := abs_roundTies_sub_le q hr
  rw [← hscaled] at hround
  unfold roundOff
  split
  · next hup =>
    rw [if_pos hup] at hround
    split
    · next hlt => exact ⟨s, q + 1, rfl, hσ, hs, hlt, hround, .inr hroom'⟩
    · -- The number is just below the limit of mantissas.
      have hlimit : q + 1 = mantissaLimit := by omega
      obtain ⟨t, rfl⟩ := Nat.exists_eq_add_of_lt (hroom hlimit)
      rw [hlimit, giveUpDigit_mantissaLimit]
      refine ⟨σ + t, _, rfl, Nat.le_add_right _ _, by omega, by decide, ?_⟩
      rw [hlimit] at hround
      refine .carry ?_ ?_
      · linarith [(abs_le.mp hround).2]
      · rw [hscaled]
        have hone : (r : ℚ) / y ≤ 1 := by
          rw [div_le_one (by exact_mod_cast Nat.zero_lt_of_lt hr)]
          exact_mod_cast hr.le
        have hcast : (q : ℚ) + 1 = mantissaLimit := by exact_mod_cast hlimit
        linarith
  · next hdown =>
    rw [if_neg hdown] at hround
    exact ⟨s, q, rfl, hσ, hs, hq, hround, .inr hroom'⟩

/-! ## A whole division -/

/-- A division at a scale that is not negative ends, unless it is full of digits and whole without
being exact. -/
theorem exists_extend (hr : r < y) (hq : q < mantissaLimit) (hs : s ≤ maxScale) (hσ : σ ≤ s)
    (hroom : r ≠ 0 → q + 1 = mantissaLimit → σ < s) (inexact : Bool) :
    ∃ (s' c : Nat) (b : Bool), extend y s q r inexact = some ⟨s', c, b⟩ ∧
      Ends (exact q r y s) σ s' c := by
  induction hk : maxScale - s using Nat.strongRecOn generalizing q r s inexact with
  | ind k ih =>
    by_cases hzero : r = 0
    · rw [hzero, extend_of_remainder_eq_zero (Int.natCast_nonneg s), exact_zero]
      exact ⟨s, q, inexact, rfl, hσ, hs, hq, .of_eq rfl⟩
    obtain ⟨hbatch, hlast⟩ := batch_ofNat hs
    have hle := roomFor_le q (batch s)
    have hfull := le_of_roomFor_eq_zero (q := q) (p := batch s)
    have hshift := roomFor_mul_lt hq (batch s)
    rw [extend, dif_neg hzero]
    dsimp only
    generalize roomFor q (batch s) = p at hle hfull hshift ⊢
    rw [if_neg (by simp; omega)]
    by_cases hp : p = 0
    · rw [dif_pos hp]
      have hfull' : s = maxScale ∨ mantissaLimit ≤ q * 10 := by
        by_cases hb : batch s = 0
        · exact .inl (hlast hb)
        · exact .inr (hfull hb hp)
      obtain ⟨s', c, hround, hends⟩ := exists_roundOff hr hq hs hσ hfull' (hroom hzero)
      exact ⟨s', c, true, by rw [hround]; rfl, hends⟩
    rw [dif_neg hp, if_neg (Nat.not_le.mpr hshift)]
    have hy := Nat.zero_lt_of_lt hr
    rw [← exact_append hy q r s p]
    have hrest := Nat.mod_lt (r * 10 ^ p) hy
    have hdigits : r * 10 ^ p / y < 10 ^ p := by
      rw [Nat.div_lt_iff_lt_mul hy, Nat.mul_comm]
      exact Nat.mul_lt_mul_of_pos_left hr (Nat.pow_pos (by decide))
    have hscale : (s : Int) + p = (s + p : Nat) := (Nat.cast_add s p).symm
    rw [hscale]
    by_cases hlarge : mantissaLimit ≤ q * 10 ^ p + r * 10 ^ p / y
    · have hbound : q * 10 ^ p + r * 10 ^ p / y < 9 * mantissaLimit := by
        have hten : 10 ^ p ≤ 10 ^ 9 := Nat.pow_le_pow_right (by decide) (hle.trans (batch_le s))
        have hnine : 10 ^ 9 < mantissaLimit := by decide
        omega
      obtain ⟨t, ht⟩ := Nat.exists_eq_succ_of_ne_zero (n := s + p) (by omega)
      rw [if_pos hlarge, ht]
      obtain ⟨c, hgive, hends⟩ :=
        exists_giveUpDigit (s := t) (σ := σ) hrest (by omega) (by omega) hlarge hbound
      exact ⟨t, c, true, by rw [hgive]; rfl, hends⟩
    · rw [if_neg hlarge]
      exact ih (maxScale - (s + p)) (by omega) hrest (Nat.lt_of_not_le hlarge) (by omega) (by omega)
        (fun _ _ ↦ by omega) true rfl

/-! ## Zeros at the end -/

theorem fraction_dropBatch (k : Nat) (e : Nat × Nat) :
    fraction (dropBatch k e).1 (dropBatch k e).2 = fraction e.1 e.2 := by
  rw [dropBatch]
  split
  · next hzeros =>
    simp only [Bool.and_eq_true, decide_eq_true_eq] at hzeros
    exact fraction_div_pow (Nat.dvd_of_mod_eq_zero hzeros.2) hzeros.1.2
  · rfl

theorem fraction_dropEight (q s : Nat) :
    fraction (dropEight q s).1 (dropEight q s).2 = fraction q s := by
  induction q, s using dropEight.induct with
  | case1 q s h ih =>
    rw [dropEight, dif_pos h, ih]
    exact fraction_div_pow (Nat.dvd_of_mod_eq_zero h.2.2) h.1
  | case2 q s h => rw [dropEight, dif_neg h]

theorem fraction_dropZeros (q s : Nat) :
    fraction (dropZeros q s).1 (dropZeros q s).2 = fraction q s := by
  rw [dropZeros, fraction_dropBatch, fraction_dropBatch, fraction_dropBatch, fraction_dropEight]

end Quotient

namespace Decimal

variable {a d : Decimal} {n : Nat}

/-- A decimal can be divided by every positive whole number, and the quotient is rounded. -/
theorem exists_divNat? (a : Decimal) (hn : 0 < n) :
    ∃ d s, a.divNat? n = some d ∧ a.scale ≤ s ∧ d.Rounds (a.value / n) s := by
  rw [divNat?, if_neg hn.ne']
  by_cases hzero : a.isZero = true
  · rw [if_pos hzero, value_eq_zero_iff.mpr (isZero_iff.mp hzero), zero_div]
    refine ⟨zero, a.scale, rfl, Nat.le_refl _, false, 0, 0, le_rfl, by simp, ?_, .of_eq ?_⟩
    · rw [value_zero, fraction_eq_zero_iff.mpr rfl, mul_zero]
    · exact fraction_eq_zero_iff.mpr rfl
  rw [if_neg hzero, quotient?]
  have hroom : a.mantissa % n ≠ 0 → a.mantissa / n + 1 = mantissaLimit → a.scale < a.scale := by
    intro hrest hlimit
    have hlt := a.mantissa_lt
    have hsplit := Nat.div_add_mod a.mantissa n
    have hmul := Nat.mul_le_mul_right (a.mantissa / n) hn
    omega
  obtain ⟨s, c, b, hextend, hends⟩ := Quotient.exists_extend (Nat.mod_lt a.mantissa hn)
    (Nat.lt_of_le_of_lt (Nat.div_le_self _ n) a.mantissa_lt) a.scale_le (Nat.le_refl _) hroom false
  obtain ⟨m, t, hdrop, hm, ht, hvalue⟩ : ∃ m t,
      (if b then Quotient.dropZeros c s else (c, s)) = (m, t) ∧ m < mantissaLimit ∧ t ≤ maxScale ∧
        fraction m t = fraction c s := by
    have hle := Quotient.dropZeros_le c s
    by_cases hb : b = true
    · rw [if_pos hb]
      exact ⟨_, _, rfl, Nat.lt_of_le_of_lt hle.1 hends.digits_lt, hle.2.trans hends.scale_le,
        Quotient.fraction_dropZeros c s⟩
    · rw [if_neg hb]
      exact ⟨_, _, rfl, hends.digits_lt, hends.scale_le, rfl⟩
  obtain ⟨d, hd, hdvalue⟩ := exists_of_normal? a.negative hm ht
  refine ⟨d, s, ?_, hends.le_scale, a.negative,
    Quotient.exact (a.mantissa / n) (a.mantissa % n) n a.scale, c, ?_, ?_, ?_, hends.nearest⟩
  · rw [hextend, Option.bind_some]
    dsimp only
    rw [Int.toNat_natCast, hdrop, hd]
  · rw [Quotient.exact]
    positivity
  · rw [Quotient.exact, cast_div_add_mod_div _ hn, value_eq, fraction]
    ring
  · rw [hdvalue, hvalue]

end Decimal

end DecimalFormula
