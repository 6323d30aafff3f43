import DecimalFormula.Decimal.Power
import DecimalFormula.Proofs.Decimal.Value

/-!
# Powers of one and of minus one

A decimal of magnitude one can be written in many ways: its mantissa is ten to its scale, whatever
that is. Multiplying, squaring and dividing such numbers never fails, neither with decimals nor with
wide decimals, because every digit that has to be dropped is a zero (`Decimal.exists_powNat?_unit`,
`Decimal.exists_invert?_unit`).

The same invariant is carried through both ways of repeated squaring: the mantissa is ten to the
scale, and the scale is within bounds. Whole powers of one are worked out without these functions;
it is the powers of minus one that depend on them.
-/

namespace DecimalFormula

/-- What is true of the factors and kept by products is true of powers, and no product fails. -/
theorem exists_powerBySquares? {α : Type} {times : α → α → Option α} {P : α → Prop}
    (htimes : ∀ a b, P a → P b → ∃ c, times a b = some c ∧ P c) {p acc : α} (hp : P p)
    (hacc : P acc) (n : Nat) : ∃ r, powerBySquares? times p acc n = some r ∧ P r := by
  induction n using Nat.strongRecOn generalizing p acc with
  | ind n ih =>
    rw [powerBySquares?]
    by_cases hn : n = 0
    · exact ⟨acc, by rw [if_pos hn], hacc⟩
    rw [if_neg hn]
    obtain ⟨acc', hacc', hkeep⟩ :
        ∃ acc', (if n % 2 = 1 then times acc p else some acc) = some acc' ∧ P acc' := by
      by_cases hodd : n % 2 = 1
      · rw [if_pos hodd]
        exact htimes acc p hacc hp
      · rw [if_neg hodd]
        exact ⟨acc, rfl, hacc⟩
    rw [hacc', Option.bind_some]
    by_cases hhalf : n / 2 = 0
    · exact ⟨acc', by rw [if_pos hhalf], hkeep⟩
    · obtain ⟨p', hp', hsquare⟩ := htimes p p hp hp
      rw [if_neg hhalf, hp', Option.bind_some]
      exact ih (n / 2) (by omega) hsquare hkeep

/-! ## Wide decimals -/

namespace Wide

variable {width scaleLimit s r : Nat}

/-- A wide decimal of magnitude one within bounds. -/
structure IsUnit (w : Wide) : Prop where
  /-- The digits behind the point are all zeros. -/
  mantissa_eq : w.mantissa = 10 ^ w.scale
  /-- There are not too many of them. -/
  scale_le : w.scale ≤ maxScale

theorem bitLength_ten_pow_le (s : Nat) : bitLength (10 ^ s) ≤ 4 * s + 1 := by
  have hne : 10 ^ s ≠ 0 := (Nat.pow_pos (by decide)).ne'
  have hle : 10 ^ s ≤ 2 ^ (4 * s) := by
    rw [Nat.pow_mul]
    exact Nat.pow_le_pow_left (by decide) s
  have hlog : (10 ^ s).log2 < 4 * s + 1 := by
    rw [Nat.log2_lt hne, Nat.pow_succ]
    have := Nat.two_pow_pos (4 * s)
    omega
  rw [bitLength, if_neg hne]
  omega

theorem sub_digitsToDrop_le (width scaleLimit m s : Nat) :
    s - digitsToDrop width scaleLimit m s ≤ scaleLimit := by
  rw [digitsToDrop]
  generalize (if width < 32 * ((bitLength m + 31) / 32) then
    (bitLength m - width) * 77 / 256 + 1 else 0) = r
  split <;> omega

theorem digitsToDrop_ten_pow_le (scaleLimit : Nat) {words : Nat} (hwords : 0 < words)
    (hs : s ≤ 32 * words) :
    digitsToDrop (32 * words) scaleLimit (10 ^ s) s ≤ s := by
  have hbits := bitLength_ten_pow_le s
  rw [digitsToDrop]
  generalize bitLength (10 ^ s) = n at hbits
  have hestimate : (if 32 * words < 32 * ((n + 31) / 32) then (n - 32 * words) * 77 / 256 + 1
      else 0) ≤ s := by
    split <;> omega
  generalize (if 32 * words < 32 * ((n + 31) / 32) then (n - 32 * words) * 77 / 256 + 1
    else 0) = r at hestimate
  split
  · exact Nat.sub_le _ _
  · exact hestimate

theorem dropDigits?_ten_pow (hwidth : 0 < width) (hr : r ≤ s) :
    ∃ s' ≤ s - r, dropDigits? width (10 ^ s) s r 0 = some (10 ^ s', s', 0) := by
  have hone : ∀ n, 2 ^ width ≤ 10 ^ n → 0 < n := by
    intro n hn
    by_contra hzero
    rw [Nat.eq_zero_of_not_pos hzero, Nat.pow_zero] at hn
    exact absurd (Nat.one_lt_two_pow hwidth.ne') (Nat.not_lt.mpr hn)
  induction s using Nat.strongRecOn generalizing r with
  | ind s ih =>
    rw [dropDigits?]
    by_cases hdone : r = 0 ∧ 10 ^ s < 2 ^ width
    · exact ⟨s, by omega, by rw [if_pos hdone]⟩
    rw [if_neg hdone]
    have hpos := dropBatch_pos r
    -- A batch is never more than the zeros that are left.
    have hbatch : dropBatch r ≤ s := by
      by_cases hzero : r = 0
      · have hs := hone s (Nat.not_lt.mp fun h ↦ hdone ⟨hzero, h⟩)
        rw [hzero, show dropBatch 0 = 1 from rfl]
        exact hs
      · rw [dropBatch]
        omega
    rw [Nat.pow_div hbatch (by decide), Nat.mod_eq_zero_of_dvd (Nat.pow_dvd_pow 10 hbatch)]
    by_cases hmore : 2 ^ width ≤ 10 ^ (s - dropBatch r) ∧ r ≤ dropBatch r
    · have hleft := hone _ hmore.1
      rw [if_pos hmore, if_neg (by omega)]
      obtain ⟨s', hs', hdrop⟩ := ih (s - dropBatch r) (by omega) hleft
      exact ⟨s', by omega, hdrop⟩
    · rw [if_neg hmore]
      obtain ⟨s', hs', hdrop⟩ :=
        ih (s - dropBatch r) (by omega) (Nat.sub_le_sub_right hr (dropBatch r))
      exact ⟨s', by omega, hdrop⟩

theorem rescale?_ten_pow {words : Nat} (hwords : 0 < words) (hs : s ≤ 32 * words)
    (hlimit : DecimalFormula.maxScale ≤ scaleLimit) :
    ∃ s' ≤ scaleLimit, rescale? (32 * words) scaleLimit (10 ^ s) s = some (10 ^ s', s') := by
  have hdigits := digitsToDrop_ten_pow_le scaleLimit hwords hs
  have hscale := sub_digitsToDrop_le (32 * words) scaleLimit (10 ^ s) s
  rw [rescale?]
  dsimp only
  generalize digitsToDrop (32 * words) scaleLimit (10 ^ s) s = r at hdigits hscale
  split
  · next hfits =>
    refine ⟨s, ?_, rfl⟩
    rcases hfits.2 with hs | hr <;> omega
  · rw [if_neg (Nat.not_lt.mpr hdigits)]
    obtain ⟨s', hs', hdrop⟩ := dropDigits?_ten_pow (by omega : 0 < 32 * words) hdigits
    refine ⟨s', Nat.le_trans hs' hscale, ?_⟩
    rw [hdrop]
    rfl

theorem IsUnit.exists_mul? {a b : Wide} (ha : a.IsUnit) (hb : b.IsUnit) :
    ∃ c, a.mul? b = some c ∧ c.IsUnit := by
  have hproduct : a.mantissa * b.mantissa = 10 ^ (a.scale + b.scale) := by
    rw [ha.mantissa_eq, hb.mantissa_eq, Nat.pow_add]
  have hne : ∀ n : Nat, 10 ^ n ≠ 0 := fun n ↦ (Nat.pow_pos (by decide)).ne'
  have hscales := Nat.add_le_add ha.scale_le hb.scale_le
  rw [mul?, if_neg (by rw [ha.mantissa_eq, hb.mantissa_eq]; exact not_or.mpr ⟨hne _, hne _⟩)]
  dsimp only
  rw [hproduct]
  split
  · next hlt =>
    have hle : ¬ maxScale < a.scale + b.scale := by
      intro hmore
      have : 10 ^ 58 ≤ 10 ^ (a.scale + b.scale) := Nat.pow_le_pow_right (by decide) hmore
      exact absurd (Nat.lt_of_le_of_lt this hlt) (by decide)
    rw [limitScale, if_neg hle]
    exact ⟨_, rfl, rfl, Nat.le_of_not_lt hle⟩
  · obtain ⟨s', hs', hrescale⟩ : ∃ s' ≤ maxScale, rescale? bits maxScale
        (10 ^ (a.scale + b.scale)) (a.scale + b.scale) = some (10 ^ s', s') :=
      rescale?_ten_pow (by decide : 0 < 6) (Nat.le_trans hscales (by decide)) (by decide)
    rw [hrescale]
    exact ⟨_, rfl, rfl, hs'⟩

theorem IsUnit.exists_narrow? {w : Wide} (hw : w.IsUnit) :
    ∃ d, w.narrow? = some d ∧ |d.value| = 1 := by
  have hnormal : ∀ s ≤ DecimalFormula.maxScale,
      ∃ d, Decimal.normal? w.negative (10 ^ s) s = some d ∧ |d.value| = 1 := by
    intro s hs
    have hlt : 10 ^ s < mantissaLimit :=
      Nat.lt_of_le_of_lt (Nat.pow_le_pow_right (by decide) hs) (by decide)
    obtain ⟨d, hd, hvalue⟩ := Decimal.exists_of_normal? w.negative hlt hs
    refine ⟨d, hd, ?_⟩
    rw [hvalue, abs_signFactor_mul, fraction_ten_pow, abs_one]
  rw [narrow?, hw.mantissa_eq]
  split
  · next hfits => exact hnormal _ hfits.2
  · obtain ⟨s', hs', hrescale⟩ : ∃ s' ≤ DecimalFormula.maxScale, rescale? 96
        DecimalFormula.maxScale (10 ^ w.scale) w.scale = some (10 ^ s', s') :=
      rescale?_ten_pow (by decide : 0 < 3) (Nat.le_trans hw.scale_le (by decide)) (Nat.le_refl _)
    rw [hrescale]
    exact hnormal s' hs'

end Wide

/-! ## Long division of one -/

namespace Quotient

theorem extend_of_remainder_eq_zero {y q : Nat} {scale : Int} {inexact : Bool}
    (hscale : 0 ≤ scale) : extend y scale q 0 inexact = some ⟨scale, q, inexact⟩ := by
  rw [extend, dif_pos rfl, dif_pos hscale]

/-- Nine zeros are appended to the remainder while the quotient is zero. -/
theorem extend_ten_pow {n s : Nat} (hn : n < s) (inexact : Bool) :
    extend (10 ^ s) ((n : Int) - s) 0 (10 ^ n) inexact =
      extend (10 ^ s) ((n : Int) - s + 9) (10 ^ (n + 9) / 10 ^ s) (10 ^ (n + 9) % 10 ^ s) true := by
  have hne : 10 ^ n ≠ 0 := (Nat.pow_pos (by decide)).ne'
  have hroom : roomFor 0 (batch ((n : Int) - s)) = 9 := by
    rw [batch, if_pos (by omega)]
    decide
  have hquotient : 10 ^ (n + 9) / 10 ^ s < mantissaLimit := by
    refine Nat.lt_of_le_of_lt (Nat.div_le_div_left (Nat.pow_le_pow_right (by decide) hn)
      (Nat.pow_pos (by decide))) ?_
    rw [Nat.pow_div (by omega) (by decide), show n + 9 - (n + 1) = 8 by omega]
    decide
  rw [extend, dif_neg hne]
  dsimp only
  rw [hroom, if_neg (by simp), dif_neg (by decide), Nat.zero_mul, if_neg (by decide),
    Nat.zero_add, ← Nat.pow_add, if_neg (Nat.not_le.mpr hquotient)]
  rfl

/-- One is divided by a power of ten without a remainder. -/
theorem exists_extend_ten_pow {s n : Nat} (hn : n < s) (inexact : Bool) :
    ∃ q scale, extend (10 ^ s) ((n : Int) - s) 0 (10 ^ n) inexact = some ⟨scale, q, true⟩ ∧
      q < mantissaLimit ∧ scale.toNat ≤ maxScale := by
  induction hk : s - n using Nat.strongRecOn generalizing n inexact with
  | ind k ih =>
    rw [extend_ten_pow hn]
    by_cases hlast : s ≤ n + 9
    · rw [Nat.pow_div hlast (by decide), Nat.mod_eq_zero_of_dvd (Nat.pow_dvd_pow 10 hlast),
        extend_of_remainder_eq_zero (by omega)]
      have hle : 10 ^ (n + 9 - s) ≤ 10 ^ 8 := Nat.pow_le_pow_right (by decide) (by omega)
      refine ⟨_, _, rfl, Nat.lt_of_le_of_lt hle (by decide), ?_⟩
      simp only [maxScale]
      omega
    · have hlt : 10 ^ (n + 9) < 10 ^ s := Nat.pow_lt_pow_right (by decide) (by omega)
      rw [Nat.div_eq_of_lt hlt, Nat.mod_eq_of_lt hlt,
        show (n : Int) - s + 9 = ((n + 9 : Nat) : Int) - s by omega]
      exact ih (s - (n + 9)) (by omega) (by omega) true rfl

theorem dropBatch_le (k : Nat) (e : Nat × Nat) :
    (dropBatch k e).1 ≤ e.1 ∧ (dropBatch k e).2 ≤ e.2 := by
  rw [dropBatch]
  split
  · exact ⟨Nat.div_le_self _ _, Nat.sub_le _ _⟩
  · exact ⟨Nat.le_refl _, Nat.le_refl _⟩

theorem dropEight_le (q s : Nat) : (dropEight q s).1 ≤ q ∧ (dropEight q s).2 ≤ s := by
  induction q, s using dropEight.induct with
  | case1 q s h ih =>
    rw [dropEight, dif_pos h]
    exact ⟨Nat.le_trans ih.1 (Nat.div_le_self _ _), Nat.le_trans ih.2 (Nat.sub_le _ _)⟩
  | case2 q s h =>
    rw [dropEight, dif_neg h]
    exact ⟨Nat.le_refl _, Nat.le_refl _⟩

theorem dropZeros_le (q s : Nat) : (dropZeros q s).1 ≤ q ∧ (dropZeros q s).2 ≤ s := by
  obtain ⟨h8, h8'⟩ := dropEight_le q s
  obtain ⟨h4, h4'⟩ := dropBatch_le 4 (dropEight q s)
  obtain ⟨h2, h2'⟩ := dropBatch_le 2 (dropBatch 4 (dropEight q s))
  obtain ⟨h1, h1'⟩ := dropBatch_le 1 (dropBatch 2 (dropBatch 4 (dropEight q s)))
  rw [dropZeros]
  omega

end Quotient

namespace Decimal

variable {a b d : Decimal}

theorem abs_value_eq_one_iff : |d.value| = 1 ↔ d.mantissa = 10 ^ d.scale := by
  rw [abs_value, fraction, div_eq_one_iff_eq (ten_pow_pos _).ne']
  exact_mod_cast Iff.rfl

theorem exists_mul?_unit (ha : |a.value| = 1) (hb : |b.value| = 1) :
    ∃ c, a.mul? b = some c ∧ |c.value| = 1 := by
  have hproduct : a.mantissa * b.mantissa = 10 ^ (a.scale + b.scale) := by
    rw [abs_value_eq_one_iff.mp ha, abs_value_eq_one_iff.mp hb, Nat.pow_add]
  have hlt : a.mantissa * b.mantissa / 10 ^ (a.scale + b.scale) < mantissaLimit := by
    rw [hproduct, Nat.div_self (Nat.pow_pos (by decide))]
    decide
  rcases mul?_of_dvd (Dvd.intro_left 1 (by rw [hproduct, Nat.one_mul])) hlt
    (Nat.le_add_left _ _) with ⟨-, hroom⟩ | ⟨c, hc, hvalue⟩
  · exact absurd hroom (Nat.lt_irrefl _)
  · refine ⟨c, hc, ?_⟩
    rw [hvalue, abs_mul, ha, hb, mul_one]

theorem exists_powNat?_unit (hb : |b.value| = 1) (n : Nat) :
    ∃ r, b.powNat? n = some r ∧ |r.value| = 1 := by
  have hone : |one.value| = 1 := by rw [value_one, abs_one]
  rw [powNat?]
  by_cases h1 : n = 1
  · exact ⟨b, by rw [if_pos h1], hb⟩
  rw [if_neg h1]
  by_cases h2 : n = 2
  · rw [if_pos h2]
    exact exists_mul?_unit hb hb
  rw [if_neg h2]
  by_cases hwide : wideExponent ≤ n
  · have hunit : (Wide.ofDecimal b).IsUnit :=
      ⟨abs_value_eq_one_iff.mp hb, Nat.le_trans b.scale_le (by decide)⟩
    have hacc : (Wide.ofDecimal one).IsUnit := ⟨rfl, by decide⟩
    obtain ⟨w, hw, hpower⟩ :=
      exists_powerBySquares? (fun _ _ ↦ Wide.IsUnit.exists_mul?) hunit hacc n
    obtain ⟨r, hr, hvalue⟩ := hpower.exists_narrow?
    refine ⟨r.normalize, ?_, by rw [value_normalize, hvalue]⟩
    rw [if_pos hwide, hw, Option.bind_some, hr]
    rfl
  · obtain ⟨r, hr, hvalue⟩ :=
      exists_powerBySquares? (fun _ _ ↦ exists_mul?_unit) hb hone n
    refine ⟨r.normalize, ?_, by rw [value_normalize, hvalue]⟩
    rw [if_neg hwide, hr]
    rfl

theorem exists_invert?_unit (hb : |b.value| = 1) : ∃ r, b.invert? = some r := by
  have hmantissa := abs_value_eq_one_iff.mp hb
  have hzero : ¬ b.isZero = true := by
    rw [isZero_iff, hmantissa]
    exact (Nat.pow_pos (by decide)).ne'
  have hone : ¬ one.isZero = true := by decide
  have hdivision : ∃ e, Quotient.extend (10 ^ b.scale) ((one.scale : Int) - b.scale)
      (one.mantissa / 10 ^ b.scale) (one.mantissa % 10 ^ b.scale) false = some e ∧
      e.digits < mantissaLimit ∧ e.scale.toNat ≤ maxScale := by
    by_cases hs : b.scale = 0
    · rw [hs]
      exact ⟨⟨0, 1, false⟩, Quotient.extend_of_remainder_eq_zero (by decide), by decide, by decide⟩
    · rw [show one.mantissa = 1 from rfl, Nat.div_eq_of_lt (Nat.one_lt_pow hs (by decide)),
        Nat.mod_eq_of_lt (Nat.one_lt_pow hs (by decide))]
      obtain ⟨q, scale, hextend, hbounds⟩ :=
        Quotient.exists_extend_ten_pow (Nat.pos_of_ne_zero hs) false
      exact ⟨_, hextend, hbounds⟩
  obtain ⟨e, hextend, hdigits, hscale⟩ := hdivision
  have hdropped := Quotient.dropZeros_le e.digits e.scale.toNat
  rw [invert?, if_neg hzero, div?, if_neg hzero, if_neg hone, quotient?, hmantissa, hextend,
    Option.bind_some]
  dsimp only
  split
  · obtain ⟨r, hr, -⟩ := exists_of_normal? (one.negative != b.negative)
      (Nat.lt_of_le_of_lt hdropped.1 hdigits) (Nat.le_trans hdropped.2 hscale)
    exact ⟨r, hr⟩
  · obtain ⟨r, hr, -⟩ := exists_of_normal? (one.negative != b.negative) hdigits hscale
    exact ⟨r, hr⟩

end Decimal

end DecimalFormula
