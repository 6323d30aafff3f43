/-!
# White space, words and upper case

What separates words in a line or a definition, and how names are written that are the same in every
letter case.
-/

namespace DecimalFormula.Text

/-! ## White space and words

Which characters are white space is the property `White_Space` of the Unicode character database.
It is wider than `Char.isWhitespace`, which knows ASCII characters alone, and leaves out U+200B,
which separates words without any space. -/

/-- Whether a character is white space. -/
def isSpace (c : Char) : Bool :=
  (0x09 ≤ c.toNat && c.toNat ≤ 0x0D) || c.toNat == 0x20 || c.toNat == 0x85 || c.toNat == 0xA0 ||
    c.toNat == 0x1680 || (0x2000 ≤ c.toNat && c.toNat ≤ 0x200A) || c.toNat == 0x2028 ||
    c.toNat == 0x2029 || c.toNat == 0x202F || c.toNat == 0x205F || c.toNat == 0x3000

/-- A text without the characters of some kind at its end. -/
def dropTrailing (p : Char → Bool) (cs : List Char) : List Char :=
  (cs.reverse.dropWhile p).reverse

/-- A text without white space at either end. -/
def trim (cs : List Char) : List Char := dropTrailing isSpace (cs.dropWhile isSpace)

/-- Splits off the first word: the characters up to the next white space, and the words behind. -/
def wordsFrom (current : List Char) : List Char → List (List Char)
  | [] => if current.isEmpty then [] else [current.reverse]
  | c :: cs =>
    if isSpace c then
      if current.isEmpty then wordsFrom [] cs else current.reverse :: wordsFrom [] cs
    else wordsFrom (c :: current) cs

/-- The parts of a text that white space separates, none of them empty. -/
def words (cs : List Char) : List (List Char) := wordsFrom [] cs

theorem exists_eq_dropTrailing_append (p : Char → Bool) (cs : List Char) :
    ∃ ds, cs = dropTrailing p cs ++ ds ∧ ds.all p = true := by
  refine ⟨(cs.reverse.takeWhile p).reverse, ?_, ?_⟩
  · rw [dropTrailing, ← List.reverse_append, List.takeWhile_append_dropWhile, List.reverse_reverse]
  · simp [List.all_reverse]

/-! ## Names in upper case

Only the letters `a` to `z` have an upper case here; every other character, accented letters
included, stays as it is. So putting a text in upper case keeps its length, and doing it twice is
doing it once. -/

theorem val_toUpper_of_lower {c : Char} (h : 'a'.val ≤ c.val ∧ c.val ≤ 'z'.val) :
    c.toUpper.val = c.val + ('A'.val - 'a'.val) := by
  delta Char.toUpper
  rw [dif_pos h]

theorem toUpper_of_not_lower {c : Char} (h : ¬ ('a'.val ≤ c.val ∧ c.val ≤ 'z'.val)) :
    c.toUpper = c :=
  dif_neg h

private theorem toUpper_not_lower (c : Char) :
    ¬ ('a'.val ≤ c.toUpper.val ∧ c.toUpper.val ≤ 'z'.val) := by
  by_cases h : 'a'.val ≤ c.val ∧ c.val ≤ 'z'.val
  · rw [val_toUpper_of_lower h]
    have hl : 97 ≤ c.val.toNat := UInt32.le_iff_toNat_le.mp h.1
    have hu : c.val.toNat ≤ 122 := UInt32.le_iff_toNat_le.mp h.2
    have hd : ('A'.val - 'a'.val).toNat = 4294967264 := by decide
    rintro ⟨hlow, -⟩
    have hlow' : 97 ≤ (c.val + ('A'.val - 'a'.val)).toNat := UInt32.le_iff_toNat_le.mp hlow
    rw [UInt32.toNat_add, hd] at hlow'
    omega
  · rw [toUpper_of_not_lower h]
    exact h

@[simp] theorem toUpper_toUpper (c : Char) : c.toUpper.toUpper = c.toUpper :=
  toUpper_of_not_lower (toUpper_not_lower c)

/-- A text with its ASCII letters in upper case. -/
def upper (s : String) : String := String.ofList (s.toList.map Char.toUpper)

@[simp] theorem toList_upper (s : String) : (upper s).toList = s.toList.map Char.toUpper := by
  simp [upper]

@[simp] theorem upper_upper (s : String) : upper (upper s) = upper s := by
  simp [upper, Function.comp_def]

end DecimalFormula.Text
