import DecimalFormula.Registry
import DecimalFormula.Proofs.Decimal.Value

/-!
# The largest and the smallest argument

Several arguments can be equal as numbers and still be different decimals, such as `1.0` and `1`. So
it matters which of them a maximum is: it is the first one. The same holds of a minimum, and both
are the fold of a list that gives up what it has for a later entry only if that entry is strictly
better (`Keeps.isFirstBound_foldl`). What is better is a parameter, a relation that is total and
transitive.

The order of the arguments decides which decimal the result is, but not which number
(`Body.extremes_first`).
-/

namespace DecimalFormula

namespace Body

/-- The entry `v`, at the index `i`, is the first one to which all entries are related. -/
structure IsFirstBound (r : Decimal → Decimal → Prop) (args : List Decimal) (i : Nat)
    (v : Decimal) : Prop where
  /-- The entry stands at the index. -/
  getElem?_eq : args[i]? = some v
  /-- All entries are related to it. -/
  bounds : ∀ a ∈ args, r a v
  /-- No entry before it has this property. -/
  first : ∀ j < i, ∀ w, args[j]? = some w → ∃ a ∈ args, ¬ r a w

/-- A step from the best entry so far and one more to the better of the two, where an entry that is
as good as the best so far does not replace it. -/
structure Keeps (r : Decimal → Decimal → Prop) (step : Decimal → Decimal → Decimal) : Prop where
  total : ∀ a b, r a b ∨ r b a
  trans : ∀ a b c, r a b → r b c → r a c
  keep : ∀ best next, r next best → step best next = best
  change : ∀ best next, ¬ r next best → step best next = next

variable {r : Decimal → Decimal → Prop} {step : Decimal → Decimal → Decimal} {args : List Decimal}
  {a best v w : Decimal} {i j : Nat}

/-! ## Keeping the better one -/

theorem IsFirstBound.mem (h : IsFirstBound r args i v) : v ∈ args :=
  List.mem_of_getElem? h.getElem?_eq

theorem IsFirstBound.rel_of_perm {args' : List Decimal} (h : IsFirstBound r args i v)
    (h' : IsFirstBound r args' j w) (hperm : args.Perm args') : r v w ∧ r w v :=
  ⟨h'.bounds v (hperm.mem_iff.mp h.mem), h.bounds w (hperm.mem_iff.mpr h'.mem)⟩

theorem IsFirstBound.append (h : IsFirstBound r args i v) (ha : r a v) :
    IsFirstBound r (args ++ [a]) i v where
  getElem?_eq := by
    rw [List.getElem?_append_left (List.getElem?_eq_some_iff.mp h.getElem?_eq).1]
    exact h.getElem?_eq
  bounds := by
    intro b hb
    rcases List.mem_append.mp hb with hb | hb
    · exact h.bounds b hb
    · rwa [List.mem_singleton.mp hb]
  first := by
    intro j hj w hw
    have hlt := (List.getElem?_eq_some_iff.mp h.getElem?_eq).1
    rw [List.getElem?_append_left (hj.trans hlt)] at hw
    obtain ⟨b, hb, hnot⟩ := h.first j hj w hw
    exact ⟨b, List.mem_append_left _ hb, hnot⟩

namespace Keeps

theorem refl (hstep : Keeps r step) (a : Decimal) : r a a := (hstep.total a a).elim id id

theorem append_of_not_rel (hstep : Keeps r step) (h : IsFirstBound r args i v) (ha : ¬ r a v) :
    IsFirstBound r (args ++ [a]) args.length a where
  getElem?_eq := List.getElem?_concat_length
  bounds := by
    intro b hb
    rcases List.mem_append.mp hb with hb | hb
    · exact hstep.trans b v a (h.bounds b hb) ((hstep.total a v).resolve_left ha)
    · rw [List.mem_singleton.mp hb]
      exact hstep.refl a
  first := by
    -- If the new entry were related to an earlier one, it would be to the best one of them, too.
    intro j hj w hw
    rw [List.getElem?_append_left hj] at hw
    refine ⟨a, List.mem_append_right _ (List.mem_singleton_self a), fun haw ↦ ha ?_⟩
    exact hstep.trans a w v haw (h.bounds w (List.mem_of_getElem? hw))

theorem isFirstBound_foldl (hstep : Keeps r step) (first : Decimal) (rest : List Decimal) :
    ∃ i, IsFirstBound r (first :: rest) i (rest.foldl step first) := by
  induction rest using List.reverseRecOn with
  | nil =>
    refine ⟨0, rfl, ?_, fun j hj ↦ absurd hj (Nat.not_lt_zero j)⟩
    intro a ha
    rw [List.mem_singleton.mp ha]
    exact hstep.refl first
  | append_singleton rest a ih =>
    obtain ⟨i, hi⟩ := ih
    rw [List.foldl_append, List.foldl_cons, List.foldl_nil]
    by_cases ha : r a (rest.foldl step first)
    · rw [hstep.keep _ _ ha]
      exact ⟨i, hi.append ha⟩
    · rw [hstep.change _ _ ha]
      exact ⟨_, hstep.append_of_not_rel hi ha⟩

end Keeps

/-! ## Maximum and minimum -/

theorem keeps_larger : Keeps (fun a v ↦ a.value ≤ v.value) larger where
  total a b := le_total a.value b.value
  trans a b c := le_trans
  keep best next hle := by rw [larger, if_neg (by rwa [Decimal.lt_iff_value, not_lt])]
  change best next hlt := by rw [larger, if_pos (by rwa [Decimal.lt_iff_value, ← not_le])]

theorem keeps_smaller : Keeps (fun a v ↦ v.value ≤ a.value) smaller where
  total a b := le_total b.value a.value
  trans a b c hab hbc := hbc.trans hab
  keep best next hle := by rw [smaller, if_neg (by rwa [Decimal.lt_iff_value, not_lt])]
  change best next hlt := by rw [smaller, if_pos (by rwa [Decimal.lt_iff_value, ← not_le])]

theorem exists_maximum (hargs : args ≠ []) : ∃ i v, maximum.apply args = .ok v ∧
    IsFirstBound (fun a v ↦ a.value ≤ v.value) args i v := by
  obtain ⟨first, rest, rfl⟩ := List.exists_cons_of_ne_nil hargs
  obtain ⟨i, hi⟩ := keeps_larger.isFirstBound_foldl first rest
  exact ⟨i, _, rfl, hi⟩

theorem exists_minimum (hargs : args ≠ []) : ∃ i v, minimum.apply args = .ok v ∧
    IsFirstBound (fun a v ↦ v.value ≤ a.value) args i v := by
  obtain ⟨first, rest, rfl⟩ := List.exists_cons_of_ne_nil hargs
  obtain ⟨i, hi⟩ := keeps_smaller.isFirstBound_foldl first rest
  exact ⟨i, _, rfl, hi⟩

/-- **The first extreme argument.** Of one argument or more, the maximum is the one at the least
index that is as large as every argument, and the minimum the one at the least index that is as
small, each with the sign and the scale that it has there. In another order the arguments have a
maximum and a minimum that are the same numbers. -/
theorem extremes_first (hargs : args ≠ []) :
    (∃ i v, maximum.apply args = .ok v ∧ IsFirstBound (fun a v ↦ a.value ≤ v.value) args i v) ∧
    (∃ i v, minimum.apply args = .ok v ∧ IsFirstBound (fun a v ↦ v.value ≤ a.value) args i v) ∧
    ∀ args', args.Perm args' → ∀ body, body = maximum ∨ body = minimum →
      ∃ v v', body.apply args = .ok v ∧ body.apply args' = .ok v' ∧ v.value = v'.value := by
  refine ⟨exists_maximum hargs, exists_minimum hargs, ?_⟩
  intro args' hperm body hbody
  have hargs' : args' ≠ [] := fun h ↦ hargs (List.perm_nil.mp (h ▸ hperm))
  rcases hbody with rfl | rfl
  · obtain ⟨i, v, hv, hfirst⟩ := exists_maximum hargs
    obtain ⟨j, w, hw, hfirst'⟩ := exists_maximum hargs'
    obtain ⟨hvw, hwv⟩ := hfirst.rel_of_perm hfirst' hperm
    exact ⟨v, w, hv, hw, le_antisymm hvw hwv⟩
  · obtain ⟨i, v, hv, hfirst⟩ := exists_minimum hargs
    obtain ⟨j, w, hw, hfirst'⟩ := exists_minimum hargs'
    obtain ⟨hvw, hwv⟩ := hfirst.rel_of_perm hfirst' hperm
    exact ⟨v, w, hv, hw, le_antisymm hwv hvw⟩

/-- Of `-0`, `1.0`, `0.00` and `1`, the maximum is `1.0` and the minimum is `-0`. -/
theorem extremes_first_equal_numbers :
    let args : List Decimal :=
      [⟨true, 0, 0, by decide, by decide⟩, ⟨false, 10, 1, by decide, by decide⟩,
        ⟨false, 0, 2, by decide, by decide⟩, ⟨false, 1, 0, by decide, by decide⟩]
    let largest : Decimal := ⟨false, 10, 1, by decide, by decide⟩
    let smallest : Decimal := ⟨true, 0, 0, by decide, by decide⟩
    args ≠ [] ∧ maximum.apply args = .ok largest ∧ minimum.apply args = .ok smallest ∧
      (∃ i, IsFirstBound (fun a v ↦ a.value ≤ v.value) args i largest) ∧
      (∃ i, IsFirstBound (fun a v ↦ v.value ≤ a.value) args i smallest) := by
  intro args largest smallest
  have hargs : args ≠ [] := List.cons_ne_nil _ _
  have hmax : maximum.apply args = .ok largest := by decide
  have hmin : minimum.apply args = .ok smallest := by decide
  obtain ⟨⟨i, v, hv, hfirst⟩, ⟨j, w, hw, hfirst'⟩, -⟩ := extremes_first hargs
  rw [hmax] at hv
  rw [hmin] at hw
  cases hv
  cases hw
  exact ⟨hargs, hmax, hmin, ⟨i, hfirst⟩, ⟨j, hfirst'⟩⟩

end Body

end DecimalFormula
