import DecimalFormula.Decimal.Text
import DecimalFormula.Proofs.Decimal.Value
import Mathlib.Data.List.TakeWhile

/-!
# Values are read exactly

`written?` says which number a text writes, without regard to what a decimal can hold: the digits on
both sides of the point, underscores passed over, times ten to the exponent. A text that is read
gives this number, and one whose number is no decimal is refused, except for texts with an exponent
in which the part in front of it is no decimal. There that part is rounded first, so the number that
is read is a different one (`Decimal.readValue?_exact`).
-/

namespace DecimalFormula

/-! ## What a text writes -/

def digitsNumber (cs : List Char) : Nat :=
  (cs.filter Char.isDigit).foldl (fun n c ↦ n * 10 + Decimal.digitValue c) 0

/-- How many digits stand behind the first point. -/
def fractionDigits (cs : List Char) : Nat := (cs.dropWhile (· != '.')).countP Char.isDigit

/-- Whether characters are digits, underscores and at most one point, with a digit among them. -/
def isSignificand (cs : List Char) : Bool :=
  cs.all (fun c ↦ c.isDigit || c == '_' || c == '.') && cs.count '.' ≤ 1 && cs.any Char.isDigit

/-- A number with an optional exponent, as it is written. -/
structure Written where
  /-- The part in front of the exponent, with its sign. -/
  significand : ℚ
  /-- The exponent, if there is one. -/
  exponent : Option Int

def Written.number (w : Written) : ℚ := w.significand * 10 ^ w.exponent.getD 0

/-- The number that digits without a point write, a plus sign in front of them allowed. -/
def writtenNatural? (cs : List Char) : Option Nat :=
  let digits := match cs with
    | '+' :: rest => rest
    | cs => cs
  if digits.all Char.isDigit && digits.any Char.isDigit then some (digitsNumber digits) else none

/-- The exponent that is written behind its mark. -/
def writtenExponent? : List Char → Option Int
  | '-' :: digits => (writtenNatural? digits).map fun n ↦ -(n : Int)
  | digits => (writtenNatural? digits).map fun n ↦ (n : Int)

/-- What a text writes, if it writes a number. -/
def written? (text : String) : Option Written :=
  let (negative, digits) :=
    Decimal.splitSign (text.toList.takeWhile fun c ↦ !Decimal.isExponentMark c)
  if isSignificand digits then
    let significand := signFactor negative * fraction (digitsNumber digits) (fractionDigits digits)
    match text.toList.dropWhile fun c ↦ !Decimal.isExponentMark c with
    | [] => some ⟨significand, none⟩
    | _ :: exponent => (writtenExponent? exponent).map fun e ↦ ⟨significand, some e⟩
  else none

/-- Whether a number needs no more digits behind the point and no larger mantissa than a decimal
has. -/
def Representable (q : ℚ) : Prop := ∃ m < mantissaLimit, ∃ s ≤ maxScale, |q| = fraction m s

/-- A number is written without an exponent, or its part in front of the exponent is
representable. -/
def Written.Fits (w : Written) : Prop := w.exponent = none ∨ Representable w.significand

variable {cs ds pre rest : List Char} {c : Char} {m s n k : Nat}

/-! ## Numbers that decimals hold -/

theorem representable_signFactor_mul_iff {negative : Bool} {q : ℚ} :
    Representable (signFactor negative * q) ↔ Representable q := by
  rw [Representable, abs_signFactor_mul, Representable]

theorem representable_fraction (hm : m < mantissaLimit) (hs : s ≤ maxScale) :
    Representable (fraction m s) :=
  ⟨m, hm, s, hs, abs_of_nonneg (fraction_nonneg m s)⟩

/-- Where the last of too many digits behind the point is not zero, it cannot be left out. -/
theorem not_representable_fraction (hm : ¬ 10 ∣ m) (hs : maxScale < s) :
    ¬ Representable (fraction m s) := by
  rintro ⟨m', -, s', hs', h⟩
  rw [abs_of_nonneg (fraction_nonneg _ _), fraction, fraction,
    div_eq_div_iff (ten_pow_pos _).ne' (ten_pow_pos _).ne'] at h
  have heq : m * 10 ^ s' = m' * 10 ^ s := by exact_mod_cast h
  obtain ⟨t, rfl⟩ := Nat.exists_eq_add_of_lt (Nat.lt_of_le_of_lt hs' hs)
  have hten : m = 10 * (m' * 10 ^ t) := by
    refine Nat.eq_of_mul_eq_mul_right (Nat.pow_pos (by decide) : 0 < 10 ^ s') ?_
    rw [heq, Nat.pow_succ, Nat.pow_add]
    ring
  exact hm ⟨_, hten⟩

theorem Decimal.representable_value (d : Decimal) : Representable d.value :=
  ⟨d.mantissa, d.mantissa_lt, d.scale, d.scale_le, abs_value d⟩

/-! ## Digits -/

theorem digitValue_le (h : c.isDigit = true) : Decimal.digitValue c ≤ 9 := by
  have hle := (Char.isDigit_iff_toNat.mp h).2
  have hzero : '0'.toNat = 48 := rfl
  have hnine : '9'.toNat = 57 := rfl
  rw [Decimal.digitValue, hzero]
  omega

theorem digitsNumber_append_singleton (cs : List Char) (c : Char) : digitsNumber (cs ++ [c]) =
    if c.isDigit then digitsNumber cs * 10 + Decimal.digitValue c else digitsNumber cs := by
  rw [digitsNumber, List.filter_append, List.foldl_append, ← digitsNumber]
  by_cases hc : c.isDigit = true
  · simp [hc]
  · simp [hc]

theorem digitsNumber_append (cs ds : List Char) : digitsNumber (cs ++ ds) =
    digitsNumber cs * 10 ^ ds.countP Char.isDigit + digitsNumber ds := by
  induction ds using List.reverseRecOn with
  | nil => simp [digitsNumber]
  | append_singleton ds c ih =>
    rw [← List.append_assoc, digitsNumber_append_singleton, digitsNumber_append_singleton, ih,
      List.countP_append, List.countP_singleton]
    by_cases hc : c.isDigit = true
    · rw [if_pos hc, if_pos hc, if_pos hc, Nat.pow_succ]
      ring
    · rw [if_neg hc, if_neg hc, if_neg hc, Nat.add_zero]

theorem digitsNumber_cons (hc : c.isDigit = true) (cs : List Char) : digitsNumber (c :: cs) =
    Decimal.digitValue c * 10 ^ cs.countP Char.isDigit + digitsNumber cs := by
  have hfirst : digitsNumber [c] = Decimal.digitValue c := by
    simp [digitsNumber, hc]
  rw [← List.singleton_append, digitsNumber_append, hfirst]

theorem digitsNumber_lt (cs : List Char) : digitsNumber cs < 10 ^ cs.countP Char.isDigit := by
  induction cs using List.reverseRecOn with
  | nil => simp [digitsNumber]
  | append_singleton cs c ih =>
    rw [digitsNumber_append_singleton, List.countP_append, List.countP_singleton]
    by_cases hc : c.isDigit = true
    · have := digitValue_le hc
      rw [if_pos hc, if_pos hc, Nat.pow_succ]
      omega
    · rw [if_neg hc, if_neg hc, Nat.add_zero]
      exact ih

theorem fractionDigits_cons (c : Char) (cs : List Char) : fractionDigits (c :: cs) =
    if c = '.' then cs.countP Char.isDigit else fractionDigits cs := by
  by_cases hc : c = '.'
  · subst hc
    rfl
  · rw [if_neg hc, fractionDigits, List.dropWhile_cons_of_pos (by simpa using hc), fractionDigits]

theorem fractionDigits_append (h : '.' ∈ cs) (ds : List Char) :
    fractionDigits (cs ++ ds) = fractionDigits cs + ds.countP Char.isDigit := by
  induction cs with
  | nil => cases h
  | cons c cs ih =>
    rw [List.cons_append, fractionDigits_cons, fractionDigits_cons]
    by_cases hc : c = '.'
    · rw [if_pos hc, if_pos hc, List.countP_append]
    · rw [if_neg hc, if_neg hc, ih (List.mem_of_ne_of_mem (Ne.symm hc) h)]

theorem fractionDigits_append_of_notMem (h : '.' ∉ cs) (ds : List Char) :
    fractionDigits (cs ++ ds) = fractionDigits ds := by
  induction cs with
  | nil => rfl
  | cons c cs ih =>
    rw [List.mem_cons, not_or] at h
    rw [List.cons_append, fractionDigits_cons, if_neg (Ne.symm h.1), ih h.2]

theorem fractionDigits_of_notMem (h : '.' ∉ cs) : fractionDigits cs = 0 := by
  rw [← List.append_nil cs, fractionDigits_append_of_notMem h]
  rfl

theorem any_isDigit_of_fractionDigits (h : fractionDigits cs ≠ 0) :
    cs.any Char.isDigit = true := by
  obtain ⟨c, hc, hdigit⟩ := List.countP_pos_iff.mp (Nat.pos_of_ne_zero h)
  exact List.any_eq_true.mpr ⟨c, (List.dropWhile_suffix _).subset hc, hdigit⟩

/-! ## Digits that do not fit -/

/-- A number whose digits are too large for a mantissa, up to the first one behind the scale `n`,
has that scale if it has few enough digits at all. -/
theorem scale_le_of_mantissa_lt {number i : Nat} (hm : m < mantissaLimit)
    (hlarge : mantissaLimit * 10 ^ i ≤ number) (h : number * 10 ^ s = m * 10 ^ (n + (i + 1))) :
    s ≤ n := by
  by_contra hmore
  have hle : mantissaLimit * 10 ^ (n + (i + 1)) ≤ m * 10 ^ (n + (i + 1)) := by
    calc mantissaLimit * 10 ^ (n + (i + 1))
        = mantissaLimit * 10 ^ i * 10 ^ (n + 1) := by
          rw [Nat.mul_assoc, ← Nat.pow_add, ← Nat.add_assoc, Nat.add_comm n i, Nat.add_assoc]
      _ ≤ number * 10 ^ s :=
          Nat.mul_le_mul hlarge (Nat.pow_le_pow_right (by decide) (Nat.lt_of_not_le hmore))
      _ = m * 10 ^ (n + (i + 1)) := h
  exact Nat.not_le.mpr hm (Nat.le_of_mul_le_mul_right hle (Nat.pow_pos (by decide)))

/-- Behind as many digits as a decimal holds, a number that is one has only zeros. -/
theorem digitsNumber_eq_zero_of_representable
    (hq : Representable (fraction (digitsNumber (pre ++ rest)) (fractionDigits (pre ++ rest))))
    (hpoint : '.' ∈ pre) (hfull : maxScale ≤ fractionDigits pre ∨
      ∃ c ds, rest = c :: ds ∧ c.isDigit = true ∧
        mantissaLimit ≤ digitsNumber pre * 10 + Decimal.digitValue c) :
    digitsNumber rest = 0 := by
  obtain ⟨m, hm, s, hs, hq⟩ := hq
  rw [abs_of_nonneg (fraction_nonneg _ _), fractionDigits_append hpoint, digitsNumber_append,
    fraction, fraction, div_eq_div_iff (ten_pow_pos _).ne' (ten_pow_pos _).ne'] at hq
  have heq : (digitsNumber pre * 10 ^ rest.countP Char.isDigit + digitsNumber rest) * 10 ^ s =
      m * 10 ^ (fractionDigits pre + rest.countP Char.isDigit) := by
    exact_mod_cast hq
  have hscale : s ≤ fractionDigits pre := by
    rcases hfull with hfull | ⟨c, ds, rfl, hc, hlimit⟩
    · exact Nat.le_trans hs hfull
    rw [List.countP_cons, if_pos hc, digitsNumber_cons hc] at heq
    refine scale_le_of_mantissa_lt hm ((Nat.mul_le_mul_right _ hlimit).trans ?_) heq
    rw [Nat.pow_succ', Nat.add_mul, Nat.mul_assoc, ← Nat.add_assoc]
    exact Nat.le_add_right _ _
  obtain ⟨t, ht⟩ := Nat.exists_eq_add_of_le hscale
  have hmultiple : digitsNumber pre * 10 ^ rest.countP Char.isDigit + digitsNumber rest =
      m * 10 ^ t * 10 ^ rest.countP Char.isDigit := by
    refine Nat.eq_of_mul_eq_mul_right (Nat.pow_pos (by decide) : 0 < 10 ^ s) ?_
    rw [heq, ht, Nat.pow_add, Nat.pow_add]
    ring
  have hdvd : 10 ^ rest.countP Char.isDigit ∣ digitsNumber rest := by
    rw [← Nat.dvd_add_right (Nat.dvd_mul_left _ (digitsNumber pre)), hmultiple]
    exact Nat.dvd_mul_left _ _
  exact Nat.eq_zero_of_dvd_of_lt hdvd (digitsNumber_lt rest)

namespace Decimal

/-- Where only zeros are dropped, nothing is rounded. -/
theorem roundAt_eq_some (h : roundAt m s c rest = some (n, k)) :
    (∀ d ∈ c :: rest, isDigitOrUnderscore d = true) ∧
      (digitsNumber (c :: rest) = 0 → n = m ∧ k = s) := by
  rw [roundAt] at h
  split at h
  · cases h
  · next hchars =>
    have hall : ∀ d ∈ c :: rest, isDigitOrUnderscore d = true := by
      simpa using hchars
    refine ⟨hall, fun hzero ↦ ?_⟩
    have hfirst : ¬ (c.isDigit && decide (5 ≤ digitValue c)) = true := by
      intro hfive
      rw [Bool.and_eq_true, decide_eq_true_iff] at hfive
      rw [digitsNumber_cons hfive.1, Nat.add_eq_zero_iff, Nat.mul_eq_zero] at hzero
      rcases hzero.1 with hzero | hzero
      · omega
      · exact absurd hzero (Nat.pow_pos (by decide)).ne'
    rw [if_neg hfirst, Option.some.injEq, Prod.mk.injEq] at h
    exact ⟨h.1.symm, h.2.symm⟩

theorem roundAtFullScale_eq_some (h : roundAtFullScale m s c rest = some (n, k)) :
    (∀ d ∈ c :: rest, isDigitOrUnderscore d = true) ∧
      (digitsNumber (c :: rest) = 0 → n = m ∧ k = s) := by
  rw [roundAtFullScale] at h
  split at h
  · -- Underscores in front of the digit that rounds are no digits themselves.
    have hunderscores : ∀ d ∈ (c :: rest).takeWhile (· == '_'), isDigitOrUnderscore d = true := by
      intro d hd
      have hd : (d == '_') = true := List.all_eq_true.mp List.all_takeWhile d hd
      rw [eq_of_beq hd]
      rfl
    rw [← List.takeWhile_append_dropWhile (p := fun d ↦ d == '_') (l := c :: rest)]
    split at h
    · next hdrop =>
      rw [Option.some.injEq, Prod.mk.injEq] at h
      rw [hdrop, List.append_nil]
      exact ⟨hunderscores, fun _ ↦ ⟨h.1.symm, h.2.symm⟩⟩
    · next d ds hdrop =>
      obtain ⟨hall, hexact⟩ := roundAt_eq_some h
      rw [hdrop]
      refine ⟨List.forall_mem_append.mpr ⟨hunderscores, hall⟩, fun hzero ↦ hexact ?_⟩
      rw [digitsNumber_append, Nat.add_eq_zero_iff] at hzero
      exact hzero.2
  · exact roundAt_eq_some h

/-! ## Digit by digit -/

/-- These characters have been read, without that anything was dropped. -/
structure Digits.Reads (d : Digits) (cs : List Char) : Prop where
  mantissa : d.mantissa = digitsNumber cs
  scale : d.scale = fractionDigits cs
  point : d.point = true ↔ '.' ∈ cs
  seen : d.seen = cs.any Char.isDigit
  chars : cs.all (fun c ↦ c.isDigit || c == '_' || c == '.') = true
  count : cs.count '.' ≤ 1

namespace Digits.Reads

variable {d : Digits}

theorem start : Digits.start.Reads [] := by
  constructor <;> simp [Digits.start, digitsNumber, fractionDigits]

theorem isSignificand (h : d.Reads cs) (hseen : d.seen = true) : isSignificand cs = true := by
  rw [DecimalFormula.isSignificand, h.chars, ← h.seen, hseen, decide_eq_true h.count]
  rfl

theorem digit (h : d.Reads cs) (hc : c.isDigit = true) :
    Digits.Reads ⟨d.mantissa * 10 + digitValue c, if d.point then d.scale + 1 else d.scale, d.point,
      true⟩ (cs ++ [c]) := by
  have hne : '.' ≠ c := by
    rintro rfl
    cases hc
  constructor
  · rw [digitsNumber_append_singleton, if_pos hc, h.mantissa]
  · by_cases hpoint : d.point = true
    · rw [fractionDigits_append (h.point.mp hpoint), List.countP_singleton, if_pos hc, ← h.scale]
      simp [hpoint]
    · have hmem : '.' ∉ cs ++ [c] := by
        rw [List.mem_append, List.mem_singleton, not_or]
        exact ⟨fun hmem ↦ hpoint (h.point.mpr hmem), hne⟩
      rw [fractionDigits_of_notMem hmem, ← fractionDigits_of_notMem (mt h.point.mpr hpoint),
        ← h.scale]
      simp [hpoint]
  · simp [h.point, hne]
  · simp [hc]
  · simp [h.chars, hc]
  · simpa [List.count_append, List.count_singleton, hne.symm] using h.count

theorem underscore (h : d.Reads cs) : d.Reads (cs ++ ['_']) := by
  constructor
  · rw [digitsNumber_append_singleton, if_neg (by decide)]
    exact h.mantissa
  · rw [h.scale]
    by_cases hpoint : '.' ∈ cs
    · rw [fractionDigits_append hpoint]
      rfl
    · rw [fractionDigits_append_of_notMem hpoint, fractionDigits_of_notMem hpoint]
      rfl
  · simpa using h.point
  · simpa using h.seen
  · simp [h.chars]
  · simpa [List.count_append] using h.count

theorem passPoint (h : d.Reads cs) (hpoint : d.point = false) :
    Digits.Reads { d with point := true } (cs ++ ['.']) := by
  have hmem : '.' ∉ cs := by
    rw [← h.point, hpoint]
    decide
  constructor
  · rw [digitsNumber_append_singleton, if_neg (by decide)]
    exact h.mantissa
  · have hscale : d.scale = 0 := by rw [h.scale, fractionDigits_of_notMem hmem]
    rw [fractionDigits_append_of_notMem hmem]
    exact hscale
  · simp
  · simpa using h.seen
  · simp [h.chars]
  · rw [List.count_append, List.count_eq_zero_of_not_mem hmem]
    decide

/-- Behind the point, digits and underscores that are left over belong to the number. -/
theorem isSignificand_append (h : d.Reads cs) (hds : ∀ c ∈ ds, isDigitOrUnderscore c = true)
    (hseen : (cs ++ ds).any Char.isDigit = true) :
    DecimalFormula.isSignificand (cs ++ ds) = true := by
  have hchars : ds.all (fun c ↦ c.isDigit || c == '_' || c == '.') = true := by
    rw [List.all_eq_true]
    intro c hc
    rw [show (c.isDigit || c == '_') = true from hds c hc, Bool.true_or]
  have hcount : ds.count '.' = 0 := by
    rw [List.count_eq_zero]
    intro hmem
    exact absurd (hds '.' hmem) (by decide)
  rw [DecimalFormula.isSignificand, hseen, List.all_append, h.chars, hchars, List.count_append,
    hcount, decide_eq_true (by exact h.count)]
  rfl

theorem fraction_append (h : d.Reads cs) (hpoint : d.point = true) (hds : digitsNumber ds = 0) :
    fraction d.mantissa d.scale =
      fraction (digitsNumber (cs ++ ds)) (fractionDigits (cs ++ ds)) := by
  rw [digitsNumber_append, fractionDigits_append (h.point.mp hpoint), hds, h.mantissa, h.scale,
    Nat.add_zero, ← fraction_div_pow (Nat.dvd_mul_left _ _) (Nat.le_add_left _ _),
    Nat.mul_div_cancel _ (Nat.pow_pos (by decide)), Nat.add_sub_cancel]

end Digits.Reads

/-- The answer to some characters, of which `cs` come last, is the number they write if nothing is
refused, and also if it is a number that a decimal holds. -/
def ReadsAs (excess : Excess) (cs : List Char) (m s : Nat) : Prop :=
  isSignificand cs = true ∧
    (excess = .refuse ∨ Representable (fraction (digitsNumber cs) (fractionDigits cs)) →
      fraction m s = fraction (digitsNumber cs) (fractionDigits cs))

/-- Digits may be dropped where no more of them fit. -/
theorem Digits.Reads.readsAs_of_dropped {d : Digits} (hd : d.Reads pre) (hpoint : d.point = true)
    (hfull : maxScale ≤ d.scale ∨
      c.isDigit = true ∧ mantissaLimit ≤ d.mantissa * 10 + digitValue c)
    (hall : ∀ b ∈ c :: rest, isDigitOrUnderscore b = true)
    (hexact : digitsNumber (c :: rest) = 0 → m = d.mantissa ∧ s = d.scale) :
    ReadsAs .round (pre ++ c :: rest) m s := by
  refine ⟨hd.isSignificand_append hall ?_, ?_⟩
  · rw [List.any_append, Bool.or_eq_true]
    rcases hfull with hfull | ⟨hdigit, -⟩
    · refine .inl (any_isDigit_of_fractionDigits ?_)
      rw [← hd.scale]
      simp only [maxScale] at hfull
      omega
    · right
      rw [List.any_cons, hdigit, Bool.true_or]
  · rintro (hrefuse | hq)
    · cases hrefuse
    have hzero : digitsNumber (c :: rest) = 0 := by
      refine digitsNumber_eq_zero_of_representable hq (hd.point.mp hpoint) ?_
      rw [← hd.scale, ← hd.mantissa]
      rcases hfull with hfull | ⟨hdigit, hlimit⟩
      · exact .inl hfull
      · exact .inr ⟨c, rest, rfl, hdigit, hlimit⟩
    obtain ⟨rfl, rfl⟩ := hexact hzero
    exact hd.fraction_append hpoint hzero

/-- Digits that are read are those of the text, unless some that do not fit are dropped. -/
theorem readsAs_of_readDigits {excess : Excess} {d : Digits}
    (h : readDigits excess d rest = some (m, s)) (hd : d.Reads pre) :
    ReadsAs excess (pre ++ rest) m s := by
  -- By induction on the characters that are left. The invariant is that the state holds what the
  -- characters in front of them say; it ends where digits no longer fit.
  induction rest generalizing d pre with
  | nil =>
    rw [readDigits] at h
    split at h
    · next hseen =>
      rw [Option.some.injEq, Prod.mk.injEq] at h
      obtain ⟨rfl, rfl⟩ := h
      rw [List.append_nil, ReadsAs, hd.mantissa, hd.scale]
      exact ⟨hd.isSignificand hseen, fun _ ↦ rfl⟩
    · cases h
  | cons c rest ih =>
    rw [readDigits.eq_def] at h
    dsimp only at h
    split at h
    · next hfull =>
      rw [Bool.and_eq_true, decide_eq_true_iff] at hfull
      cases excess with
      | refuse => cases h
      | round =>
        obtain ⟨hall, hexact⟩ := roundAtFullScale_eq_some h
        exact hd.readsAs_of_dropped hfull.1 (.inl hfull.2) hall hexact
    rw [← List.singleton_append, ← List.append_assoc]
    split at h
    · next hdigit =>
      split at h
      · exact ih h (hd.digit hdigit)
      · next hlimit =>
        cases excess with
        | refuse => cases h
        | round =>
          dsimp only at h
          split at h
          · next hpoint =>
            obtain ⟨hall, hexact⟩ := roundAt_eq_some h
            rw [List.append_assoc, List.singleton_append]
            exact hd.readsAs_of_dropped hpoint (.inr ⟨hdigit, Nat.le_of_not_lt hlimit⟩) hall hexact
          · cases h
    · split at h
      · next hpoint =>
        simp only [Bool.and_eq_true, decide_eq_true_eq, Bool.not_eq_true'] at hpoint
        obtain ⟨rfl, hpoint⟩ := hpoint
        exact ih h (hd.passPoint hpoint)
      · split at h
        · next hunderscore =>
          simp only [Bool.and_eq_true, decide_eq_true_eq] at hunderscore
          obtain ⟨rfl, -⟩ := hunderscore
          exact ih h hd.underscore
        · cases h

/-- Where something is read as a decimal, it is a sign and digits, which give its value unless some
that do not fit are dropped. -/
theorem value_of_readSigned {excess : Excess} {d : Decimal} (h : readSigned excess cs = some d) :
    isSignificand (splitSign cs).2 = true ∧
      (excess = .refuse ∨ Representable (fraction (digitsNumber (splitSign cs).2)
          (fractionDigits (splitSign cs).2)) →
        d.value = signFactor (splitSign cs).1 *
          fraction (digitsNumber (splitSign cs).2) (fractionDigits (splitSign cs).2)) := by
  rw [readSigned] at h
  dsimp only at h
  obtain ⟨⟨m, s⟩, hread, hd⟩ := Option.bind_eq_some_iff.mp h
  obtain ⟨hdigits, hexact⟩ := readsAs_of_readDigits hread .start
  refine ⟨hdigits, fun hfits ↦ ?_⟩
  rw [value_of_normal? hd]
  exact congrArg _ (hexact hfits)

/-! ## Exponents -/

variable {d v : Decimal} {e : Nat}

theorem writtenNatural?_of_readExponent (h : readExponent cs = some e) :
    writtenNatural? cs = some e := by
  have hdigits : ∀ digits : List Char, (if digits.isEmpty || !digits.all Char.isDigit then none
      else if digits.foldl (fun n c ↦ n * 10 + digitValue c) 0 < writtenExponentLimit then
        some (digits.foldl (fun n c ↦ n * 10 + digitValue c) 0) else none) = some e →
      (if digits.all Char.isDigit && digits.any Char.isDigit then some (digitsNumber digits)
        else none) = some e := by
    intro digits h
    split at h
    · cases h
    next hdigits =>
    simp only [Bool.or_eq_true, Bool.not_eq_true', not_or, Bool.not_eq_false] at hdigits
    obtain ⟨hne, hall⟩ := hdigits
    obtain ⟨c, rest, rfl⟩ := List.exists_cons_of_ne_nil (by simpa using hne)
    have hany : (c :: rest).any Char.isDigit = true := by
      rw [List.any_cons, List.all_eq_true.mp hall c List.mem_cons_self, Bool.true_or]
    have hfilter : (c :: rest).filter Char.isDigit = c :: rest := by
      rw [List.filter_eq_self]
      exact List.all_eq_true.mp hall
    split at h
    · rw [hall, hany, Bool.and_self, if_pos rfl, digitsNumber, hfilter]
      exact h
    · cases h
  exact hdigits _ h

/-- Moving the point by multiplication is exact, because only zeros that it appends are dropped. -/
theorem value_of_shiftLeft? (h : d.shiftLeft? e = some v) : v.value = d.value * 10 ^ e := by
  rw [shiftLeft?] at h
  obtain ⟨p, hp, hv⟩ := Option.bind_eq_some_iff.mp h
  obtain ⟨-, hmantissa, hscale⟩ := ofParts?_eq_some_iff.mp hp
  have hpvalue : p.value = 10 ^ e := by
    rw [value_of_normal? hp]
    simp [signFactor, fraction]
  have hpos : 0 < 10 ^ e := Nat.pow_pos (by decide)
  have hdiv : d.mantissa * p.mantissa / 10 ^ e < mantissaLimit := by
    rw [hmantissa, Nat.mul_div_cancel _ hpos]
    exact d.mantissa_lt
  have hscale : d.scale + p.scale ≤ maxScale + e := by
    rw [hscale]
    exact Nat.le_add_right_of_le d.scale_le
  rcases mul?_of_dvd (by rw [hmantissa]; exact Nat.dvd_mul_left _ _) hdiv hscale with
    ⟨hnone, -⟩ | ⟨r, hr, hvalue⟩
  · rw [hnone] at hv
    cases hv
  · rw [hr, Option.some.injEq] at hv
    rw [← hv, hvalue, hpvalue]

theorem value_of_scaleDown (h : d.scaleDown e = some v) :
    v.value = d.value * 10 ^ (-(e : Int)) := by
  rw [value_of_ofParts? h, value_eq, fraction, fraction, pow_add, zpow_neg, zpow_natCast]
  ring

theorem value_of_scaleUp (h : d.scaleUp e = some v) : v.value = d.value * 10 ^ (e : Int) := by
  rw [zpow_natCast]
  rw [scaleUp] at h
  split at h
  · next hle =>
    rw [value_of_ofParts? h, value_eq, fraction, fraction, ← Nat.sub_add_cancel hle,
      Nat.add_sub_cancel, pow_add]
    field_simp
  split at h
  · cases h
  split at h
  · next htwo =>
    obtain ⟨p, hp, rfl⟩ := Option.map_eq_some_iff.mp h
    obtain ⟨r, hr, hp⟩ := Option.bind_eq_some_iff.mp hp
    rw [value_normalize, value_of_shiftLeft? hp, value_of_shiftLeft? hr, mul_assoc, ← pow_add,
      Nat.add_sub_cancel' (Nat.le_of_lt htwo)]
  · obtain ⟨p, hp, rfl⟩ := Option.map_eq_some_iff.mp h
    rw [value_normalize, value_of_shiftLeft? hp]

/-! ## Values -/

theorem isExponentMark_of_isSignificand (h : isSignificand (splitSign cs).2 = true) :
    ∀ c ∈ cs, (!isExponentMark c) = true := by
  rw [isSignificand, Bool.and_eq_true, Bool.and_eq_true, List.all_eq_true] at h
  have hmark : ∀ c ∈ (splitSign cs).2, (!isExponentMark c) = true := by
    intro c hc
    have hchar := h.1.1 c hc
    rw [Bool.not_eq_true', isExponentMark, Bool.or_eq_false_iff, beq_eq_false_iff_ne,
      beq_eq_false_iff_ne]
    constructor
    · rintro rfl
      cases hchar
    · rintro rfl
      cases hchar
  unfold splitSign at hmark
  split at hmark
  · exact List.forall_mem_cons.mpr ⟨rfl, hmark⟩
  · exact List.forall_mem_cons.mpr ⟨rfl, hmark⟩
  · exact hmark

theorem written?_of_read? {text : String} (h : read? text = some v) :
    written? text = some ⟨v.value, none⟩ := by
  obtain ⟨hdigits, hvalue⟩ := value_of_readSigned h
  have hmark := isExponentMark_of_isSignificand hdigits
  have htake : (text.toList.takeWhile fun c ↦ !isExponentMark c) = text.toList := by
    rw [List.takeWhile_eq_self_iff]
    exact hmark
  have hdrop : (text.toList.dropWhile fun c ↦ !isExponentMark c) = [] := by
    rw [List.dropWhile_eq_nil_iff]
    exact hmark
  rw [written?, htake, hdrop]
  dsimp only
  rw [if_pos hdigits, hvalue (.inl rfl)]

theorem value_of_exponent {exponent : List Char}
    (h : (match exponent with
      | '-' :: digits => (readExponent digits).bind d.scaleDown
      | digits => (readExponent digits).bind d.scaleUp) = some v) :
    ∃ k, writtenExponent? exponent = some k ∧ v.value = d.value * 10 ^ k := by
  split at h
  · obtain ⟨e, he, hv⟩ := Option.bind_eq_some_iff.mp h
    refine ⟨-(e : Int), ?_, value_of_scaleDown hv⟩
    rw [writtenExponent?, writtenNatural?_of_readExponent he]
    rfl
  · next hsign =>
    obtain ⟨e, he, hv⟩ := Option.bind_eq_some_iff.mp h
    refine ⟨(e : Int), ?_, value_of_scaleUp hv⟩
    rw [writtenExponent?, writtenNatural?_of_readExponent he]
    · rfl
    · exact hsign

/-- What is read with an exponent is the number in front of it, rounded if it has too many digits,
times ten to the exponent that is written. -/
theorem written?_of_readScientific {text : String} (h : readScientific text.toList = some v) :
    ∃ d : Decimal, ∃ w e, written? text = some w ∧ w.exponent = some e ∧
      v.value = d.value * 10 ^ e ∧ (Representable w.significand → d.value = w.significand) := by
  rw [readScientific] at h
  rw [written?]
  dsimp only at h ⊢
  generalize (text.toList.takeWhile fun c ↦ !isExponentMark c) = before at h ⊢
  generalize (text.toList.dropWhile fun c ↦ !isExponentMark c) = behind at h ⊢
  cases behind with
  | nil => cases h
  | cons mark exponent =>
    obtain ⟨d, hd, hv⟩ := Option.bind_eq_some_iff.mp h
    obtain ⟨hdigits, hvalue⟩ := value_of_readSigned hd
    obtain ⟨k, hk, hv⟩ := value_of_exponent hv
    rw [if_pos hdigits]
    dsimp only
    rw [hk]
    exact ⟨d, _, k, rfl, rfl, hv, fun hfits ↦
      hvalue (.inr (representable_signFactor_mul_iff.mp hfits))⟩

theorem readValue?_eq_some {text : String} (h : readValue? text = some v) :
    ∃ w, written? text = some w ∧ (v.value = w.number ↔ w.Fits) := by
  rw [readValue?, Option.or_eq_some_iff] at h
  rcases h with hread | ⟨-, hread⟩
  · refine ⟨_, written?_of_read? hread, ?_⟩
    rw [Written.number, Written.Fits]
    simp
  · obtain ⟨d, w, e, hw, hexponent, hvalue, hexact⟩ := written?_of_readScientific hread
    refine ⟨w, hw, ?_⟩
    have hten : (10 : ℚ) ^ e ≠ 0 := zpow_ne_zero e (by decide)
    rw [Written.number, Written.Fits, hexponent, hvalue, Option.getD_some, mul_left_inj' hten]
    constructor
    · intro heq
      rw [← heq]
      exact .inr d.representable_value
    · rintro (hnone | hfits)
      · cases hnone
      · exact hexact hfits

/-- **Values are read exactly.** A text that is read is one that writes a number. The value is that
number if and only if the number is written without an exponent or its part in front of the exponent
can be represented. With the same exception, a text whose number cannot be represented is
refused. -/
theorem readValue?_exact (text : String) :
    (∀ v, readValue? text = some v →
      ∃ w, written? text = some w ∧ (v.value = w.number ↔ w.Fits)) ∧
    ∀ w, written? text = some w → w.Fits → ¬ Representable w.number → readValue? text = none := by
  refine ⟨fun v h ↦ readValue?_eq_some h, fun w hw hfits hlarge ↦ ?_⟩
  rw [Option.eq_none_iff_forall_ne_some]
  intro v h
  obtain ⟨w', hw', hexact⟩ := readValue?_eq_some h
  rw [hw, Option.some.injEq] at hw'
  subst hw'
  apply hlarge
  rw [← hexact.mpr hfits]
  exact v.representable_value

/-- A number that is read as it is written, and one that is refused. -/
theorem readValue?_exact_exponents :
    (∃ v, readValue? "-1_2.50e1" = some v ∧ v.value = -125) ∧ readValue? "1.5e-28" = none := by
  constructor
  · obtain ⟨hread, -⟩ := readValue?_exact "-1_2.50e1"
    have hv : readValue? "-1_2.50e1" = some ⟨true, 1250, 1, by decide, by decide⟩ := by
      decide +kernel
    obtain ⟨w, hw, hexact⟩ := hread _ hv
    have hwritten : written? "-1_2.50e1" = some ⟨signFactor true * fraction 1250 2, some 1⟩ := rfl
    rw [hwritten, Option.some.injEq] at hw
    subst hw
    refine ⟨_, hv, ?_⟩
    rw [hexact.mpr (.inr (representable_signFactor_mul_iff.mpr
      (representable_fraction (by decide) (by decide))))]
    norm_num [Written.number, signFactor, fraction]
  · obtain ⟨-, hrefuse⟩ := readValue?_exact "1.5e-28"
    have hwritten : written? "1.5e-28" = some ⟨signFactor false * fraction 15 1, some (-28)⟩ := rfl
    refine hrefuse _ hwritten (.inr (representable_signFactor_mul_iff.mpr
      (representable_fraction (by decide) (by decide)))) ?_
    have hnumber : (Written.mk (signFactor false * fraction 15 1) (some (-28))).number =
        fraction 15 29 := by
      norm_num [Written.number, signFactor, fraction]
    rw [hnumber]
    exact not_representable_fraction (by decide) (by decide)

/-- In front of an exponent a number with too many digits is not refused but rounded. -/
theorem readValue?_rounds :
    ∃ v w, readValue? "0.00000000000000000000000000015e0" = some v ∧
      written? "0.00000000000000000000000000015e0" = some w ∧ ¬ Representable w.number ∧
      v.value ≠ w.number := by
  have hwritten : written? "0.00000000000000000000000000015e0" =
      some ⟨signFactor false * fraction 15 29, some 0⟩ := rfl
  have hnumber : (Written.mk (signFactor false * fraction 15 29) (some 0)).number =
      fraction 15 29 := by
    simp [Written.number, signFactor]
  have hlarge : ¬ Representable (fraction 15 29) :=
    not_representable_fraction (by decide) (by decide)
  refine ⟨⟨false, 2, 28, by decide, by decide⟩, _, by decide +kernel, hwritten, ?_, ?_⟩
  · rw [hnumber]
    exact hlarge
  · intro heq
    rw [hnumber] at heq
    apply hlarge
    rw [← heq]
    exact representable_value _

end Decimal

end DecimalFormula
