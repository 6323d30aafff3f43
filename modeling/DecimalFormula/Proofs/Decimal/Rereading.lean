import DecimalFormula.Proofs.Decimal.Digits

/-!
# Decimals are read from what they are written as

A numeral is read as the number and the scale it says, if a decimal can have them, and refused
otherwise (`Numeral.readSigned_eq`). So what a decimal is written as is read as that decimal, except
that a zero loses its sign (`Decimal.readValue?_render`).
-/

namespace DecimalFormula

variable {cs pre rest : List Char}

namespace Decimal

/-- Digits and at most one point are read as what they say together with those in front of them, if
that fits. By induction on what is left to be read. -/
theorem readDigits_eq {d : Digits} (hd : d.Reads pre) (hmantissa : d.mantissa < mantissaLimit)
    (hscale : d.scale ≤ maxScale) (hchars : ∀ c ∈ rest, c.isDigit = true ∨ c = '.')
    (hpoints : (pre ++ rest).count '.' ≤ 1) (hany : (pre ++ rest).any Char.isDigit = true) :
    readDigits .refuse d rest =
      if digitsNumber (pre ++ rest) < mantissaLimit ∧ fractionDigits (pre ++ rest) ≤ maxScale then
        some (digitsNumber (pre ++ rest), fractionDigits (pre ++ rest))
      else none := by
  induction rest generalizing d pre with
  | nil =>
    rw [List.append_nil] at hany ⊢
    rw [readDigits, hd.seen, if_pos hany, ← hd.mantissa, ← hd.scale,
      if_pos ⟨hmantissa, hscale⟩]
  | cons c rest ih =>
    obtain ⟨hc, hrest⟩ := List.forall_mem_cons.mp hchars
    have hsplit : pre ++ c :: rest = pre ++ [c] ++ rest := by simp
    -- A second point is not ahead.
    have hpoint : d.point = true → c.isDigit = true := by
      intro hpoint
      refine hc.resolve_right ?_
      rintro rfl
      have hbefore := List.one_le_count_iff.mpr (hd.point.mp hpoint)
      rw [List.count_append, List.count_cons_self] at hpoints
      omega
    rw [readDigits.eq_def]
    dsimp only
    split
    · next hfull =>
      rw [Bool.and_eq_true, decide_eq_true_iff] at hfull
      have hmore : ¬ fractionDigits (pre ++ c :: rest) ≤ maxScale := by
        rw [fractionDigits_append (hd.point.mp hfull.1), ← hd.scale,
          List.countP_cons_of_pos (hpoint hfull.1)]
        omega
      rw [if_neg fun h ↦ hmore h.2]
    next hroom =>
    split
    · next hdigit =>
      have hread := hd.digit hdigit
      rw [hsplit] at hpoints hany ⊢
      split
      · next hfits =>
        refine ih hread hfits ?_ hrest hpoints hany
        dsimp only
        split
        · next hpoint =>
          simp only [hpoint, Bool.true_and, decide_eq_true_eq] at hroom
          omega
        · exact hscale
      · next hlarge =>
        have hmore : ¬ digitsNumber (pre ++ [c] ++ rest) < mantissaLimit := by
          have hnumber : d.mantissa * 10 + digitValue c = digitsNumber (pre ++ [c]) :=
            hread.mantissa
          have hle := digitsNumber_le_append (pre ++ [c]) rest
          omega
        rw [if_neg fun h ↦ hmore h.1]
    · next hdigit =>
      obtain rfl := hc.resolve_left hdigit
      have hnone : d.point = false := by
        rw [← Bool.not_eq_true]
        exact fun h ↦ hdigit (hpoint h)
      rw [if_pos (by simp [hnone])]
      rw [hsplit] at hpoints hany ⊢
      exact ih (hd.passPoint hnone) hmantissa hscale hrest hpoints hany

theorem splitSign_of_isDigit {c : Char} (hc : c.isDigit = true) (cs : List Char) :
    splitSign (c :: cs) = (false, c :: cs) := by
  unfold splitSign
  split
  · next h =>
    cases h
    cases hc
  · next h =>
    cases h
    cases hc
  · rfl

end Decimal

namespace Numeral

theorem readDigits_start (h : Numeral cs) : Decimal.readDigits .refuse .start cs =
    if digitsNumber cs < mantissaLimit ∧ fractionDigits cs ≤ maxScale then
      some (digitsNumber cs, fractionDigits cs)
    else none := by
  have hread := Decimal.readDigits_eq Decimal.Digits.Reads.start (by decide) (by decide)
    h.isDigit_or_eq_point h.count_point_le h.any_isDigit
  exact hread

/-- A numeral with or without a minus sign is read as the number and the scale it says. -/
theorem readSigned_eq (h : Numeral cs) (negative : Bool) :
    Decimal.readSigned .refuse ((if negative then ['-'] else []) ++ cs) =
      Decimal.normal? negative (digitsNumber cs) (fractionDigits cs) := by
  have hsign : Decimal.splitSign ((if negative then ['-'] else []) ++ cs) = (negative, cs) := by
    cases negative with
    | true => rfl
    | false =>
      obtain ⟨c, rest, rfl⟩ := List.exists_cons_of_ne_nil h.ne_nil
      exact Decimal.splitSign_of_isDigit h.isDigit_head rest
  rw [Decimal.readSigned, hsign]
  dsimp only
  rw [h.readDigits_start]
  split
  · rfl
  · next hlarge =>
    have hnone : Decimal.normal? negative (digitsNumber cs) (fractionDigits cs) = none := by
      rw [Decimal.normal?, Decimal.ofParts?, dif_neg hlarge]
    rw [hnone]
    rfl

theorem read?_eq (h : Numeral cs) : Decimal.read? (.ofList cs) =
    Decimal.ofParts? false (digitsNumber cs) (fractionDigits cs) := by
  have hread := h.readSigned_eq false
  rw [if_neg Bool.false_ne_true, List.nil_append] at hread
  rw [Decimal.read?, String.toList_ofList, hread, Decimal.normal?, Bool.false_and]

end Numeral

namespace Decimal

/-- The decimal itself, but for the sign of a zero. -/
def withoutZeroSign (d : Decimal) : Decimal := { d with negative := d.negative && d.mantissa != 0 }

theorem withoutZeroSign_eq_self_iff {d : Decimal} :
    d.withoutZeroSign = d ↔ d.negative = false ∨ d.mantissa ≠ 0 := by
  obtain ⟨negative, mantissa, scale, hm, hs⟩ := d
  cases negative <;> simp [withoutZeroSign]

theorem read?_render (d : Decimal) : read? d.render = some d.withoutZeroSign := by
  obtain ⟨hnumeral, hmantissa, hscale⟩ := numeral_unsignedDigits d.mantissa d.scale
  have hread := hnumeral.readSigned_eq d.negative
  rw [hmantissa, hscale] at hread
  rw [read?, render, String.toList_ofList, hread, normal?, ofParts?_eq_some_iff]
  exact ⟨rfl, rfl, rfl⟩

theorem readValue?_render (d : Decimal) : readValue? d.render = some d.withoutZeroSign :=
  readValue?_of_read? d.read?_render

end Decimal

end DecimalFormula
