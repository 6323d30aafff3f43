import DecimalFormula.Decimal.Text
import DecimalFormula.Proofs.Decimal.Reading
import DecimalFormula.Proofs.Scanning.Lexeme

/-!
# Numerals and their digits

A numeral says two things: the number its digits are, read as one, and how many of them stand behind
the point. A decimal is written as a numeral that says its mantissa and its scale
(`Decimal.numeral_unsignedDigits`).

Numerals that say the same differ in zeros at their start only. Without those that a digit follows,
a numeral is what a decimal is written as (`Numeral.unsignedDigits_eq`). Both are proved from one
fact: as many digits that are the same number are the same (`digits_eq_of_digitsNumber_eq`).
-/

namespace DecimalFormula

variable {c : Char} {cs ds es : List Char} {m length : Nat}

/-! ## Digits -/

theorem digitValue_inj {d : Char} (hc : c.isDigit = true) (hd : d.isDigit = true)
    (h : Decimal.digitValue c = Decimal.digitValue d) : c = d := by
  have hclow := (Char.isDigit_iff_toNat.mp hc).1
  have hdlow := (Char.isDigit_iff_toNat.mp hd).1
  have hzero : '0'.toNat = 48 := rfl
  rw [Decimal.digitValue, Decimal.digitValue, hzero] at h
  exact Char.toNat_inj.mp (by omega)

theorem point_notMem_of_isDigit (h : ∀ d ∈ ds, d.isDigit = true) : '.' ∉ ds :=
  fun hmem ↦ absurd (h '.' hmem) (by decide)

theorem digitsNumber_eq_ofDigitChars (h : ∀ d ∈ ds, d.isDigit = true) :
    digitsNumber ds = Nat.ofDigitChars 10 ds 0 := by
  rw [digitsNumber, List.filter_eq_self.mpr h, Nat.ofDigitChars_eq_foldl]
  simp only [Decimal.digitValue, Nat.mul_comm]

theorem digitsNumber_le_append (cs ds : List Char) : digitsNumber cs ≤ digitsNumber (cs ++ ds) := by
  rw [digitsNumber_append]
  exact Nat.le_trans (Nat.le_mul_of_pos_right _ (Nat.pow_pos (by decide))) (Nat.le_add_right _ _)

theorem digitsNumber_append_point (ds es : List Char) :
    digitsNumber (ds ++ '.' :: es) = digitsNumber (ds ++ es) := by
  have hpoint : ('.' :: es).filter Char.isDigit = es.filter Char.isDigit :=
    List.filter_cons_of_neg (by decide)
  rw [digitsNumber, digitsNumber, List.filter_append, List.filter_append, hpoint]

theorem fractionDigits_append_point (hds : ∀ d ∈ ds, d.isDigit = true)
    (hes : ∀ e ∈ es, e.isDigit = true) : fractionDigits (ds ++ '.' :: es) = es.length := by
  rw [fractionDigits_append_of_notMem (point_notMem_of_isDigit hds), fractionDigits_cons,
    if_pos rfl, List.countP_eq_length.mpr hes]

theorem digitsNumber_zero_cons (cs : List Char) : digitsNumber ('0' :: cs) = digitsNumber cs := by
  have hzero : Decimal.digitValue '0' = 0 := rfl
  rw [digitsNumber_cons rfl, hzero, Nat.zero_mul, Nat.zero_add]

/-- By induction on the digits, from the last one on, which is the remainder modulo ten. -/
theorem digits_eq_of_digitsNumber_eq (hds : ∀ d ∈ ds, d.isDigit = true)
    (hes : ∀ e ∈ es, e.isDigit = true) (hlength : ds.length = es.length)
    (h : digitsNumber ds = digitsNumber es) : ds = es := by
  induction ds using List.reverseRecOn generalizing es with
  | nil => exact (List.length_eq_zero_iff.mp hlength.symm).symm
  | append_singleton ds d ih =>
    rcases List.eq_nil_or_concat' es with rfl | ⟨es, e, rfl⟩
    · simp at hlength
    obtain ⟨hds, hd⟩ := List.forall_mem_append.mp hds
    obtain ⟨hes, he⟩ := List.forall_mem_append.mp hes
    rw [List.forall_mem_singleton] at hd he
    rw [digitsNumber_append_singleton, digitsNumber_append_singleton, if_pos hd, if_pos he] at h
    have hdle := digitValue_le hd
    have hele := digitValue_le he
    have hlast : Decimal.digitValue d = Decimal.digitValue e := by omega
    have hrest : digitsNumber ds = digitsNumber es := by omega
    have hlength : ds.length = es.length := by simpa using hlength
    rw [ih hds hes hlength hrest, digitValue_inj hd he hlast]

theorem pow_le_digitsNumber (hc : c.isDigit = true) (hne : c ≠ '0')
    (hds : ∀ d ∈ ds, d.isDigit = true) : 10 ^ ds.length ≤ digitsNumber (c :: ds) := by
  have hpos : 0 < Decimal.digitValue c := by
    refine Nat.pos_of_ne_zero fun hzero ↦ hne ?_
    exact digitValue_inj hc rfl hzero
  rw [digitsNumber_cons hc, List.countP_eq_length.mpr hds]
  exact Nat.le_trans (Nat.le_mul_of_pos_left _ hpos) (Nat.le_add_right _ _)

namespace Decimal

theorem isDigit_of_mem_paddedDigits {d : Char} (h : d ∈ paddedDigits m length) :
    d.isDigit = true := by
  rcases List.mem_append.mp h with h | h
  · rw [List.eq_of_mem_replicate h]
    rfl
  · exact Nat.isDigit_of_mem_toDigits (by decide) (by decide) h

theorem digitsNumber_paddedDigits (m length : Nat) : digitsNumber (paddedDigits m length) = m := by
  rw [digitsNumber_eq_ofDigitChars fun d ↦ isDigit_of_mem_paddedDigits, paddedDigits,
    Nat.ofDigitChars_append, Nat.ofDigitChars_replicate_zero, Nat.mul_zero,
    Nat.ofDigitChars_ten_toDigits]

theorem length_paddedDigits_eq (m length : Nat) :
    (paddedDigits m length).length = max length (Nat.toDigits 10 m).length := by
  rw [paddedDigits, List.length_append, List.length_replicate]
  omega

theorem length_toDigits_le (hds : ∀ d ∈ ds, d.isDigit = true) (hne : ds ≠ []) :
    (Nat.toDigits 10 (digitsNumber ds)).length ≤ ds.length := by
  rw [Nat.length_toDigits_le_iff (by decide) (List.length_pos_iff.mpr hne)]
  exact (digitsNumber_lt ds).trans_eq (congrArg _ (List.countP_eq_length.mpr hds))

/-- Digits that do not start with a zero are all digits of their number. -/
theorem length_toDigits_eq (hc : c.isDigit = true) (hne : c ≠ '0')
    (hds : ∀ d ∈ ds, d.isDigit = true) :
    (Nat.toDigits 10 (digitsNumber (c :: ds))).length = ds.length + 1 := by
  have hshort := length_toDigits_le (List.forall_mem_cons.mpr ⟨hc, hds⟩) (List.cons_ne_nil c ds)
  have hlow := pow_le_digitsNumber hc hne hds
  refine Nat.le_antisymm hshort (Nat.lt_of_not_le fun hle ↦ ?_)
  have hdigit := Nat.length_toDigits_pos (b := 10) (n := digitsNumber (c :: ds))
  rw [Nat.length_toDigits_le_iff (by decide) (by omega)] at hle
  omega

/-- Digits of which none has to be left out are what their number is filled up to. -/
theorem paddedDigits_digitsNumber (hds : ∀ d ∈ ds, d.isDigit = true) (hpos : 0 < length)
    (hle : length ≤ ds.length) (hzeros : ds.length = length ∨ ds.head? ≠ some '0') :
    paddedDigits (digitsNumber ds) length = ds := by
  have hne : ds ≠ [] := List.ne_nil_of_length_pos (by omega)
  refine digits_eq_of_digitsNumber_eq (fun d ↦ isDigit_of_mem_paddedDigits) hds ?_
    (digitsNumber_paddedDigits _ _)
  rw [length_paddedDigits_eq]
  rcases hzeros with hlength | hhead
  · have hshort := length_toDigits_le hds hne
    omega
  · obtain ⟨c, ds, rfl⟩ := List.exists_cons_of_ne_nil hne
    obtain ⟨hc, hds⟩ := List.forall_mem_cons.mp hds
    rw [length_toDigits_eq hc (fun hzero ↦ hhead (congrArg some hzero)) hds, ← List.length_cons]
    exact Nat.max_eq_right hle

/-! ## Numerals -/

/-- The point stands in front of the last digits, as many as the scale says. -/
theorem unsignedDigits_eq_append (hne : es ≠ []) (h : paddedDigits m (es.length + 1) = ds ++ es) :
    unsignedDigits m es.length = ds ++ '.' :: es := by
  have hwhole : (ds ++ es).length - es.length = ds.length := by
    rw [List.length_append, Nat.add_sub_cancel]
  have hscale : es.length ≠ 0 := by simpa using hne
  rw [unsignedDigits, h, if_neg hscale, hwhole, List.take_left, List.drop_left]

/-- There are digits enough for one in front of the point. -/
theorem exists_paddedDigits_eq_append (m s : Nat) :
    ∃ ds es, paddedDigits m (s + 1) = ds ++ es ∧ ds ≠ [] ∧ es.length = s := by
  have hlength := length_paddedDigits m (s + 1)
  refine ⟨_, _, (List.take_append_drop ((paddedDigits m (s + 1)).length - s) _).symm, ?_, ?_⟩
  · refine List.ne_nil_of_length_pos ?_
    rw [List.length_take]
    omega
  · rw [List.length_drop]
    omega

/-- A mantissa and a scale are written as a numeral that says them. -/
theorem numeral_unsignedDigits (m s : Nat) : Numeral (unsignedDigits m s) ∧
    digitsNumber (unsignedDigits m s) = m ∧ fractionDigits (unsignedDigits m s) = s := by
  have hdigits : ∀ d ∈ paddedDigits m (s + 1), d.isDigit = true :=
    fun d ↦ isDigit_of_mem_paddedDigits
  have hnumber := digitsNumber_paddedDigits m (s + 1)
  obtain ⟨ds, es, hsplit, hds, rfl⟩ := exists_paddedDigits_eq_append m s
  by_cases hes : es = []
  · subst hes
    rw [List.length_nil] at hdigits hnumber hsplit ⊢
    rw [unsignedDigits, if_pos rfl]
    refine ⟨.whole ?_ hdigits, hnumber, fractionDigits_of_notMem (point_notMem_of_isDigit hdigits)⟩
    rwa [hsplit, List.append_nil]
  · rw [unsignedDigits_eq_append hes hsplit]
    rw [hsplit] at hdigits hnumber
    obtain ⟨hdsdigits, hesdigits⟩ := List.forall_mem_append.mp hdigits
    refine ⟨.fraction hds hdsdigits hes hesdigits, ?_, ?_⟩
    · rw [digitsNumber_append_point, hnumber]
    · exact fractionDigits_append_point hdsdigits hesdigits

end Decimal

/-- At the start stands no zero that a digit follows. -/
def NoLeadingZero (cs : List Char) : Prop :=
  ∀ c rest, cs = '0' :: c :: rest → c.isDigit = false

/-- Characters without the zeros at their start that a digit follows. -/
def withoutLeadingZeros : List Char → List Char
  | '0' :: c :: cs => if c.isDigit then withoutLeadingZeros (c :: cs) else '0' :: c :: cs
  | cs => cs

namespace Numeral

theorem count_point_le (h : Numeral cs) : cs.count '.' ≤ 1 := by
  cases h with
  | whole _ hds => simp [List.count_eq_zero_of_not_mem (point_notMem_of_isDigit hds)]
  | fraction _ hds _ hes =>
    simp [List.count_eq_zero_of_not_mem (point_notMem_of_isDigit hds),
      List.count_eq_zero_of_not_mem (point_notMem_of_isDigit hes)]

theorem any_isDigit (h : Numeral cs) : cs.any Char.isDigit = true := by
  obtain ⟨c, rest, rfl⟩ := List.exists_cons_of_ne_nil h.ne_nil
  rw [List.any_cons, h.isDigit_head, Bool.true_or]

/-- A digit may be left out in front of another. -/
theorem of_cons {d : Char} (h : Numeral (d :: c :: cs)) (hc : c.isDigit = true) :
    Numeral (c :: cs) := by
  generalize hchars : d :: c :: cs = chars at h
  cases h with
  | whole _ hds =>
    subst hchars
    exact .whole (List.cons_ne_nil c cs) (List.forall_mem_cons.mp hds).2
  | @fraction ds es hne hds hene hes =>
    match ds, hne, hds, hchars with
    | [x], _, _, hchars =>
      obtain ⟨-, rfl, -⟩ := hchars
      cases hc
    | x :: y :: ds, _, hds, hchars =>
      obtain ⟨-, rfl, rfl⟩ := hchars
      exact .fraction (List.cons_ne_nil c ds) (List.forall_mem_cons.mp hds).2 hene hes

/-- The digits in front of the point are a single one, or start with another than zero. -/
theorem length_eq_one_or_head (hne : ds ≠ []) (hds : ∀ d ∈ ds, d.isDigit = true)
    (hzero : NoLeadingZero (ds ++ es)) : ds.length = 1 ∨ ds.head? ≠ some '0' := by
  match ds with
  | [] => exact absurd rfl hne
  | [d] => exact .inl rfl
  | c :: d :: ds =>
    refine .inr fun hhead ↦ ?_
    obtain rfl : c = '0' := Option.some.inj hhead
    have hdigit := hds d (by simp)
    rw [hzero d (ds ++ es) rfl] at hdigit
    cases hdigit

theorem unsignedDigits_eq_self (h : Numeral cs) (hzero : NoLeadingZero cs) :
    Decimal.unsignedDigits (digitsNumber cs) (fractionDigits cs) = cs := by
  cases h with
  | whole hne hds =>
    have hzero : NoLeadingZero (cs ++ []) := by rwa [List.append_nil]
    have hzeros := length_eq_one_or_head hne hds hzero
    rw [fractionDigits_of_notMem (point_notMem_of_isDigit hds), Decimal.unsignedDigits]
    exact Decimal.paddedDigits_digitsNumber hds Nat.one_pos (List.length_pos_iff.mpr hne) hzeros
  | @fraction ds es hne hds hene hes =>
    have hpos := List.length_pos_iff.mpr hne
    have hdigits : ∀ d ∈ ds ++ es, d.isDigit = true := List.forall_mem_append.mpr ⟨hds, hes⟩
    have hpadded : Decimal.paddedDigits (digitsNumber (ds ++ es)) (es.length + 1) = ds ++ es := by
      refine Decimal.paddedDigits_digitsNumber hdigits (Nat.succ_pos _) ?_ ?_
      · rw [List.length_append]
        omega
      · rw [List.length_append, List.head?_append_of_ne_nil _ hne]
        refine (length_eq_one_or_head hne hds hzero).imp_left fun hone ↦ ?_
        omega
    rw [digitsNumber_append_point, fractionDigits_append_point hds hes]
    exact Decimal.unsignedDigits_eq_append hene hpadded

/-- By induction on the zeros that are left out. -/
theorem unsignedDigits_eq (h : Numeral cs) :
    Decimal.unsignedDigits (digitsNumber cs) (fractionDigits cs) = withoutLeadingZeros cs := by
  fun_induction withoutLeadingZeros cs with
  | case1 c cs hc ih =>
    rw [← ih (h.of_cons hc), digitsNumber_zero_cons, fractionDigits_cons, if_neg (by decide)]
  | case2 c cs hc =>
    refine h.unsignedDigits_eq_self ?_
    rintro _ _ ⟨rfl, rfl⟩
    simpa using hc
  | case3 cs hother =>
    exact h.unsignedDigits_eq_self fun c rest hcs ↦ absurd hcs (hother c rest)

theorem render_eq (h : Numeral cs) (hmantissa : digitsNumber cs < mantissaLimit)
    (hscale : fractionDigits cs ≤ maxScale) :
    Decimal.render ⟨false, digitsNumber cs, fractionDigits cs, hmantissa, hscale⟩ =
      .ofList (withoutLeadingZeros cs) := by
  rw [Decimal.render, if_neg Bool.false_ne_true, List.nil_append, h.unsignedDigits_eq]

end Numeral

end DecimalFormula
