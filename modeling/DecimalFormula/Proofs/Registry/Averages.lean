import DecimalFormula.Proofs.Registry.Calls
import DecimalFormula.Proofs.Registry.Extremes
import Mathlib.Algebra.Order.BigOperators.Group.List

/-!
# Averages and the numbers they are averages of

An average is a sum, divided by the number of arguments. The division is rounded and never leaves
the range between the smallest and the largest argument, since both are decimals and no decimal is
passed by rounding. But the additions are rounded, too, and to fewer digits behind the point than
the arguments may have. So the sum of `n` arguments can be more than `n` times the largest one, and
the average more than the largest one (`Body.average_above_maximum`).

The range is kept where the sum keeps the range of the sums: if it is exact, or if the multiples of
the smallest and the largest argument are themselves decimals, for then no addition passes them. In
any case the average is close to the mean of its arguments. It is off by less than one unit of the
last digit that all partial sums have (`Body.average_between`).

All that is known of a partial sum is known from the one before it and the rounding of one addition
(`Body.total?_induction`).
-/

namespace DecimalFormula

/-- The multiples of a decimal up to a number are decimals. -/
def Decimal.HasMultiples (d : Decimal) (n : Nat) : Prop :=
  ∀ k ≤ n, ∃ e : Decimal, e.value = k * d.value

theorem Decimal.hasMultiples_of_mul_lt {d : Decimal} {n : Nat}
    (h : n * d.mantissa < mantissaLimit) : d.HasMultiples n := by
  intro k hk
  obtain ⟨e, -, he⟩ := exists_of_ofParts? d.negative
    (Nat.lt_of_le_of_lt (Nat.mul_le_mul_right d.mantissa hk) h) d.scale_le
  refine ⟨e, ?_⟩
  rw [he, value_eq, fraction, fraction]
  push_cast
  ring

namespace Body

variable {args : List Decimal} {a d lo hi t v : Decimal} {n σ : Nat} {x : ℚ}

/-! ## Partial sums -/

theorem total?_append_singleton (args : List Decimal) (a : Decimal) :
    total? (args ++ [a]) = (total? args).bind (·.add? a) := by
  rw [total?, List.foldlM_append]
  exact congrArg _ (funext fun t ↦ bind_pure (t.add? a))

/-- What is true of zero, and kept by every addition on the way, is true of the sum. -/
theorem total?_induction {P : List Decimal → Decimal → Prop} (hzero : P [] .zero)
    (hadd : ∀ pre a t t', pre ++ [a] <+: args → total? (pre ++ [a]) = some t' →
      t'.Rounds (t.value + a.value) t'.scale → P pre t → P (pre ++ [a]) t')
    (h : total? args = some t) : P args t := by
  suffices hall : ∀ pre, pre <+: args → ∀ t, total? pre = some t → P pre t from
    hall args (List.prefix_refl args) t h
  intro pre
  induction pre using List.reverseRecOn with
  | nil =>
    intro _ t ht
    cases ht
    exact hzero
  | append_singleton pre a ih =>
    intro hpre t' ht'
    have hsum := ht'
    rw [total?_append_singleton] at hsum
    obtain ⟨t, ht, hadds⟩ := Option.bind_eq_some_iff.mp hsum
    have hbefore : P pre t := ih ((List.prefix_append pre [a]).trans hpre) t ht
    exact hadd pre a t t' hpre ht' (Decimal.rounds_of_add? hadds) hbefore

/-- If the multiples of a bound of the arguments are decimals, the sum does not pass them. What is a
bound is a relation that additions and rounding respect. -/
theorem rel_value_total {r : ℚ → ℚ → Prop} (hzero : r 0 0)
    (hadd : ∀ {p q p' q'}, r p q → r p' q' → r (p + p') (q + q'))
    (hround : ∀ {d e : Decimal} {x s}, d.Rounds x s → r e.value x → r e.value d.value)
    (h : total? args = some t) (hbound : ∀ a ∈ args, r d.value a.value)
    (hmultiples : d.HasMultiples args.length) : r (args.length * d.value) t.value := by
  refine total?_induction (P := fun pre t ↦ r (pre.length * d.value) t.value) ?_ ?_ h
  · simpa [Decimal.value_zero] using hzero
  · intro pre a t t' hpre _ hrounds ih
    obtain ⟨e, he⟩ := hmultiples (pre ++ [a]).length hpre.length_le
    have hnext : e.value = pre.length * d.value + d.value := by
      rw [he, List.length_append, List.length_singleton]
      push_cast
      ring
    rw [← he]
    refine hround hrounds ?_
    rw [hnext]
    exact hadd ih (hbound a (hpre.subset (by simp)))

theorem le_value_total (h : total? args = some t) (hlo : ∀ a ∈ args, lo.value ≤ a.value)
    (hmultiples : lo.HasMultiples args.length) : args.length * lo.value ≤ t.value :=
  rel_value_total le_rfl add_le_add Decimal.Rounds.le_of_le h hlo hmultiples

theorem value_total_le (h : total? args = some t) (hhi : ∀ a ∈ args, a.value ≤ hi.value)
    (hmultiples : hi.HasMultiples args.length) : t.value ≤ args.length * hi.value :=
  rel_value_total (r := (· ≥ ·)) le_rfl add_le_add Decimal.Rounds.ge_of_ge h hhi hmultiples

theorem half_unit_le {s : Nat} (h : σ ≤ s) : (1 : ℚ) / (2 * 10 ^ s) ≤ 1 / (2 * 10 ^ σ) := by
  gcongr
  norm_num

/-- Every addition but the first is off by half a unit of a digit that all partial sums have. -/
theorem abs_total_sub_le (h : total? args = some t)
    (hσ : ∀ pre p, pre <+: args → pre ≠ [] → total? pre = some p → σ ≤ p.scale) :
    |t.value - (args.map Decimal.value).sum| ≤ (args.length - 1 : Nat) / (2 * 10 ^ σ) := by
  refine total?_induction (P := fun pre t ↦
    |t.value - (pre.map Decimal.value).sum| ≤ (pre.length - 1 : Nat) / (2 * 10 ^ σ)) ?_ ?_ h
  · simp [Decimal.value_zero]
  · intro pre a t t' hpre hsum hround ih
    rw [List.map_append, List.map_singleton, List.sum_append, List.sum_singleton,
      List.length_append, List.length_singleton, Nat.add_sub_cancel]
    rcases pre.eq_nil_or_concat with rfl | ⟨pre, b, rfl⟩
    · -- The first addition is exact, since its result is a decimal.
      have hzero : t.value = 0 := by simpa using ih
      rw [hzero, zero_add] at hround
      simp [hround.eq_of_value]
    · have hunit := half_unit_le (hσ _ t' hpre (by simp) hsum)
      have hlength : ((pre.concat b).length - 1 : Nat) + 1 = (pre.concat b).length := by simp
      calc |t'.value - (((pre.concat b).map Decimal.value).sum + a.value)|
          = |(t'.value - (t.value + a.value)) +
              (t.value - ((pre.concat b).map Decimal.value).sum)| := by
            congr 1
            ring
        _ ≤ 1 / (2 * 10 ^ σ) + ((pre.concat b).length - 1 : Nat) / (2 * 10 ^ σ) :=
            (abs_add_le _ _).trans (add_le_add (hround.abs_sub_le.trans hunit) ih)
        _ = (pre.concat b).length / (2 * 10 ^ σ) := by
            rw [← hlength]
            push_cast
            ring

/-! ## Averages -/

theorem ne_nil_of_average (h : average.apply args = .ok v) : args ≠ [] := by
  rintro rfl
  cases h

theorem exists_total_of_average (h : average.apply args = .ok v) :
    ∃ t s, total? args = some t ∧ t.scale ≤ s ∧ v.Rounds (t.value / args.length) s := by
  have houtcome := outcome_apply average args
  rw [h] at houtcome
  rcases houtcome with _ | _ | ⟨-, hsum⟩
  obtain ⟨t, ht⟩ := Option.isSome_iff_exists.mp (hsum (.inr rfl))
  obtain ⟨w, s, hw, hs, hround⟩ := exists_average (ne_nil_of_average h) ht
  rw [h] at hw
  cases hw
  exact ⟨t, s, ht, hs, hround⟩

/-- An average is off from the mean by less than one unit of a digit that all partial sums have. -/
theorem abs_average_sub_lt (h : average.apply args = .ok v)
    (hσ : ∀ pre p, pre <+: args → pre ≠ [] → total? pre = some p → σ ≤ p.scale) :
    |v.value - (args.map Decimal.value).sum / args.length| < 1 / 10 ^ σ := by
  obtain ⟨t, s, ht, hs, hround⟩ := exists_total_of_average h
  have hlength := List.length_pos_iff.mpr (ne_nil_of_average h)
  have hn : (0 : ℚ) < args.length := by exact_mod_cast hlength
  have hscale := (hσ args t (List.prefix_refl args) (ne_nil_of_average h) ht).trans hs
  have hdivision := hround.abs_sub_le.trans (half_unit_le hscale)
  have hmean : |t.value / args.length - (args.map Decimal.value).sum / args.length| <
      1 / (2 * 10 ^ σ) := by
    have hless : ((args.length - 1 : Nat) : ℚ) < args.length := by
      exact_mod_cast Nat.sub_lt hlength Nat.one_pos
    rw [← sub_div, abs_div, abs_of_pos hn, div_lt_iff₀ hn, one_div_mul_eq_div]
    refine (abs_total_sub_le ht hσ).trans_lt ?_
    gcongr
  calc |v.value - (args.map Decimal.value).sum / args.length|
      ≤ |v.value - t.value / args.length| +
          |t.value / args.length - (args.map Decimal.value).sum / args.length| :=
        abs_sub_le _ _ _
    _ < 1 / (2 * 10 ^ σ) + 1 / (2 * 10 ^ σ) := add_lt_add_of_le_of_lt hdivision hmean
    _ = 1 / 10 ^ σ := by
        field_simp
        norm_num

theorem mul_le_sum (h : ∀ a ∈ args, x ≤ a.value) :
    args.length * x ≤ (args.map Decimal.value).sum := by
  have hle := List.card_nsmul_le_sum (args.map Decimal.value) x (by simpa using h)
  rwa [List.length_map, nsmul_eq_mul] at hle

theorem sum_le_mul (h : ∀ a ∈ args, a.value ≤ x) :
    (args.map Decimal.value).sum ≤ args.length * x := by
  have hle := List.sum_le_card_nsmul (args.map Decimal.value) x (by simpa using h)
  rwa [List.length_map, nsmul_eq_mul] at hle

/-- **Averages and extremes.** An average lies between the smallest and the largest argument if the
sum, as rounded, lies between their multiples: only additions can lead out of the range, the
division cannot. So it lies there if the sum is exact, and also if the multiples of the two extremes
are decimals. Then the average of arguments that are all one number is that number. In any case the
average is off from the mean of its arguments, and out of the range, by less than one unit of a
digit that all partial sums have. -/
theorem average_between (h : average.apply args = .ok v) :
    ∃ t lo hi, sum.apply args = .ok t ∧ minimum.apply args = .ok lo ∧ maximum.apply args = .ok hi ∧
      (args.length * lo.value ≤ t.value → lo.value ≤ v.value) ∧
      (t.value ≤ args.length * hi.value → v.value ≤ hi.value) ∧
      (t.value = (args.map Decimal.value).sum → lo.value ≤ v.value ∧ v.value ≤ hi.value) ∧
      (lo.HasMultiples args.length → lo.value ≤ v.value) ∧
      (hi.HasMultiples args.length → v.value ≤ hi.value) ∧
      (∀ x : Decimal, (∀ a ∈ args, a.value = x.value) → x.HasMultiples args.length →
        v.value = x.value) ∧
      ∀ σ, (∀ pre p, pre <+: args → pre ≠ [] → sum.apply pre = .ok p → σ ≤ p.scale) →
        |v.value - (args.map Decimal.value).sum / args.length| < 1 / 10 ^ σ ∧
        lo.value - 1 / 10 ^ σ < v.value ∧ v.value < hi.value + 1 / 10 ^ σ := by
  have hargs := ne_nil_of_average h
  have hn : (0 : ℚ) < args.length := by exact_mod_cast List.length_pos_iff.mpr hargs
  obtain ⟨t, s, ht, -, hround⟩ := exists_total_of_average h
  obtain ⟨i, lo, hlo, hlofirst⟩ := exists_minimum hargs
  obtain ⟨j, hi, hhi, hhifirst⟩ := exists_maximum hargs
  -- The division is rounded to nearest, so it cannot pass a decimal that the exact quotient does
  -- not.
  have hlower (x : Decimal) (hx : args.length * x.value ≤ t.value) : x.value ≤ v.value := by
    refine hround.le_of_le ?_
    rwa [le_div_iff₀ hn, mul_comm]
  have hupper (x : Decimal) (hx : t.value ≤ args.length * x.value) : v.value ≤ x.value := by
    refine hround.ge_of_ge ?_
    rwa [div_le_iff₀ hn, mul_comm]
  have hsum : sum.apply args = .ok t := by rw [apply, ht, orOverflow]
  refine ⟨t, lo, hi, hsum, hlo, hhi, hlower lo, hupper hi, ?_, ?_, ?_, ?_, ?_⟩
  · intro hexact
    rw [hexact] at hlower hupper
    exact ⟨hlower lo (mul_le_sum hlofirst.bounds), hupper hi (sum_le_mul hhifirst.bounds)⟩
  · exact fun hmultiples ↦ hlower lo (le_value_total ht hlofirst.bounds hmultiples)
  · exact fun hmultiples ↦ hupper hi (value_total_le ht hhifirst.bounds hmultiples)
  · intro x hx hmultiples
    have hle := value_total_le ht (fun a ha ↦ (hx a ha).le) hmultiples
    have hge := le_value_total ht (fun a ha ↦ (hx a ha).ge) hmultiples
    exact le_antisymm (hupper x hle) (hlower x hge)
  · intro σ hσ
    have hmean : |v.value - (args.map Decimal.value).sum / args.length| < 1 / 10 ^ σ :=
      abs_average_sub_lt h fun pre p hpre hne hp ↦
        hσ pre p hpre hne (by rw [apply, hp, orOverflow])
    have hmeanlo : lo.value ≤ (args.map Decimal.value).sum / args.length := by
      rw [le_div_iff₀ hn, mul_comm]
      exact mul_le_sum hlofirst.bounds
    have hmeanhi : (args.map Decimal.value).sum / args.length ≤ hi.value := by
      rw [div_le_iff₀ hn, mul_comm]
      exact sum_le_mul hhifirst.bounds
    obtain ⟨hbelow, habove⟩ := abs_lt.mp hmean
    exact ⟨hmean, by linarith, by linarith⟩

/-- The sum of eight, written with 27 digits behind the point, and the smallest positive decimal is
rounded. Their average is less than the largest of them all the same. -/
theorem average_between_rounded_sum :
    let eight : Decimal := ⟨false, 8 * 10 ^ 27, 27, by decide, by decide⟩
    let least : Decimal := ⟨false, 1, 28, by decide, by decide⟩
    let four : Decimal := ⟨false, 4 * 10 ^ 27, 27, by decide, by decide⟩
    average.apply [eight, least] = .ok four ∧ sum.apply [eight, least] = .ok eight ∧
      minimum.apply [eight, least] = .ok least ∧ maximum.apply [eight, least] = .ok eight ∧
      least.HasMultiples 2 ∧ eight.HasMultiples 2 ∧
      least.value ≤ four.value ∧ four.value ≤ eight.value ∧
      |four.value - ([eight, least].map Decimal.value).sum / 2| < 1 / 10 ^ 27 := by
  intro eight least four
  have haverage : average.apply [eight, least] = .ok four := by decide +kernel
  have hsum : sum.apply [eight, least] = .ok eight := by decide +kernel
  have hmin : minimum.apply [eight, least] = .ok least := by decide +kernel
  have hmax : maximum.apply [eight, least] = .ok eight := by decide +kernel
  have hleast : least.HasMultiples 2 := Decimal.hasMultiples_of_mul_lt (by decide)
  have height : eight.HasMultiples 2 := Decimal.hasMultiples_of_mul_lt (by decide)
  obtain ⟨t, lo, hi, ht, hlo, hhi, -, -, -, hlower, hupper, -, hmean⟩ := average_between haverage
  rw [hmin] at hlo
  rw [hmax] at hhi
  cases hlo
  cases hhi
  refine ⟨haverage, hsum, hmin, hmax, hleast, height, hlower hleast, hupper height, ?_⟩
  refine (hmean 27 fun pre p hpre hne hp ↦ ?_).1
  -- Of the partial sums, the first is the number eight and the other is the sum.
  have hpartial : sum.apply pre = .ok eight := by
    rcases List.prefix_cons_iff.mp hpre with rfl | ⟨rest, rfl, hrest⟩
    · exact absurd rfl hne
    rcases List.prefix_cons_iff.mp hrest with rfl | ⟨others, rfl, hothers⟩
    · decide +kernel
    · rw [List.prefix_nil.mp hothers]
      exact hsum
  rw [hpartial] at hp
  cases hp
  decide

/-- The average of a number and itself can be larger than the number. -/
theorem average_above_maximum :
    let a : Decimal := ⟨false, 5 * 10 ^ 28 + 3, 28, by decide, by decide⟩
    let v : Decimal := ⟨false, 5 * 10 ^ 28 + 5, 28, by decide, by decide⟩
    average.apply [a, a] = .ok v ∧ maximum.apply [a, a] = .ok a ∧ ¬ v.value ≤ a.value := by
  intro a v
  have hlt : a.lt v = true := by decide +kernel
  refine ⟨by decide +kernel, by decide +kernel, ?_⟩
  exact not_le.mpr (Decimal.lt_iff_value.mp hlt)

end Body

end DecimalFormula
