import DecimalFormula.Text.Words
import Mathlib.Data.List.TakeWhile

/-!
# Words of a text

White space ends a word and makes no difference otherwise: not at the ends of a text
(`words_trim`), and in front of it the words of a text are those before and those behind it
(`words_append_cons`). A text that trimming leaves as it is has no white space at its ends.
-/

namespace DecimalFormula.Text

/-- Some characters are one word. -/
structure IsWord (w : List Char) : Prop where
  /-- There is one at least. -/
  ne_nil : w ≠ []
  /-- None of them is white space. -/
  space : ∀ c ∈ w, isSpace c = false

variable {current cs w blanks : List Char} {c : Char}

theorem isWord_iff : IsWord w ↔ w ≠ [] ∧ (w.all fun c ↦ !isSpace c) = true := by
  constructor
  · intro h
    exact ⟨h.ne_nil, by simpa using h.space⟩
  · rintro ⟨hne, hall⟩
    exact ⟨hne, by simpa using hall⟩

instance : Decidable (IsWord w) := decidable_of_iff _ isWord_iff.symm

/-! ## White space at the ends -/

theorem wordsFrom_blanks (h : ∀ b ∈ blanks, isSpace b = true) :
    wordsFrom current blanks = wordsFrom current [] := by
  induction blanks generalizing current with
  | nil => rfl
  | cons b blanks ih =>
    obtain ⟨hb, hblanks⟩ := List.forall_mem_cons.mp h
    simp only [wordsFrom, if_pos hb, ih hblanks]
    split <;> rfl

theorem words_append_blanks (h : ∀ b ∈ blanks, isSpace b = true) (cs : List Char) :
    words (cs ++ blanks) = words cs := by
  suffices hfrom : ∀ current, wordsFrom current (cs ++ blanks) = wordsFrom current cs from hfrom []
  induction cs with
  | nil => exact fun current ↦ wordsFrom_blanks h
  | cons c cs ih =>
    intro current
    rw [List.cons_append, wordsFrom, wordsFrom, ih, ih]

theorem words_blanks_append (h : ∀ b ∈ blanks, isSpace b = true) (cs : List Char) :
    words (blanks ++ cs) = words cs := by
  induction blanks with
  | nil => rfl
  | cons b blanks ih =>
    obtain ⟨hb, hblanks⟩ := List.forall_mem_cons.mp h
    rw [List.cons_append, words, wordsFrom, if_pos hb]
    exact ih hblanks

theorem words_trim (cs : List Char) : words (trim cs) = words cs := by
  obtain ⟨blanks, htail, hblanks⟩ := exists_eq_dropTrailing_append isSpace (cs.dropWhile isSpace)
  calc words (trim cs) = words (trim cs ++ blanks) :=
        (words_append_blanks (List.all_eq_true.mp hblanks) _).symm
    _ = words (cs.dropWhile isSpace) := by rw [trim, ← htail]
    _ = words (cs.takeWhile isSpace ++ cs.dropWhile isSpace) :=
        (words_blanks_append (List.all_eq_true.mp List.all_takeWhile) _).symm
    _ = words cs := by rw [List.takeWhile_append_dropWhile]

/-! ## One word after the other -/

theorem wordsFrom_word_append (h : ∀ c ∈ w, isSpace c = false) :
    wordsFrom current (w ++ cs) = wordsFrom (w.reverse ++ current) cs := by
  induction w generalizing current with
  | nil => rfl
  | cons c w ih =>
    obtain ⟨hc, hw⟩ := List.forall_mem_cons.mp h
    rw [List.cons_append, wordsFrom, if_neg (by simp [hc]), ih hw, List.reverse_cons,
      List.append_assoc]
    rfl

theorem IsWord.words_eq (h : IsWord w) : words w = [w] := by
  have hw : wordsFrom [] (w ++ []) = wordsFrom (w.reverse ++ []) [] :=
    wordsFrom_word_append h.space
  rw [List.append_nil, List.append_nil] at hw
  rw [words, hw, wordsFrom, if_neg (by simpa using h.ne_nil), List.reverse_reverse]

theorem IsWord.words_append_cons (h : IsWord w) (hc : isSpace c = true) (cs : List Char) :
    words (w ++ c :: cs) = w :: words cs := by
  rw [words, wordsFrom_word_append h.space, List.append_nil, wordsFrom, if_pos hc,
    if_neg (by simpa using h.ne_nil), List.reverse_reverse]
  rfl

/-- The first word of a text that does not start with white space starts the text. -/
theorem exists_words_cons (hc : isSpace c = false) (cs : List Char) :
    ∃ w ws, words (c :: cs) = (c :: w) :: ws := by
  have hword : IsWord (c :: cs.takeWhile fun d ↦ !isSpace d) := by
    rw [isWord_iff, List.all_cons, List.all_takeWhile, hc]
    exact ⟨List.cons_ne_nil _ _, rfl⟩
  rw [← List.takeWhile_append_dropWhile (p := fun d ↦ !isSpace d) (l := cs), ← List.cons_append]
  cases hrest : cs.dropWhile fun d ↦ !isSpace d with
  | nil =>
    rw [List.append_nil]
    exact ⟨_, _, hword.words_eq⟩
  | cons b rest =>
    have hb : isSpace b = true := by
      have hnot := List.head?_dropWhile_not (fun d ↦ !isSpace d) cs
      rw [hrest] at hnot
      simpa using hnot
    exact ⟨_, _, hword.words_append_cons hb rest⟩

/-! ## Trimmed texts -/

variable {p : Char → Bool} {ends : List Char}

theorem dropTrailing_append (h : ∀ c ∈ ends, p c = true) (cs : List Char) :
    dropTrailing p (cs ++ ends) = dropTrailing p cs := by
  have hends : ∀ c ∈ ends.reverse, p c = true := fun c hc ↦ h c (List.mem_reverse.mp hc)
  rw [dropTrailing, List.reverse_append, List.dropWhile_append_of_pos hends, dropTrailing]

theorem dropTrailing_eq_nil_iff : dropTrailing p cs = [] ↔ ∀ c ∈ cs, p c = true := by
  rw [dropTrailing, List.reverse_eq_nil_iff, List.dropWhile_eq_nil_iff]
  simp only [List.mem_reverse]

theorem dropTrailing_eq_self (h : ∀ c, cs.getLast? = some c → p c = false) :
    dropTrailing p cs = cs := by
  rcases List.eq_nil_or_concat cs with rfl | ⟨cs, c, rfl⟩
  · rfl
  · rw [List.concat_eq_append, List.getLast?_concat] at h
    have hc : ¬ p c = true := by simp [h c rfl]
    rw [dropTrailing, List.concat_eq_append, List.reverse_concat, List.dropWhile_cons_of_neg hc,
      List.reverse_cons, List.reverse_reverse]

theorem trim_eq_self (h : ∀ c ∈ cs, isSpace c = false) : trim cs = cs := by
  have hfront : cs.dropWhile isSpace = cs := by
    cases cs with
    | nil => rfl
    | cons c cs => exact List.dropWhile_cons_of_neg (by simp [h c List.mem_cons_self])
  rw [trim, hfront]
  exact dropTrailing_eq_self fun c hc ↦ h c (List.mem_of_getLast? hc)

theorem not_of_getLast?_dropTrailing (h : (dropTrailing p cs).getLast? = some c) :
    p c = false := by
  have hnot := List.head?_dropWhile_not p cs.reverse
  rw [dropTrailing, List.getLast?_reverse] at h
  rw [h] at hnot
  simpa using hnot

theorem isSpace_of_getLast?_trim (h : (trim cs).getLast? = some c) : isSpace c = false :=
  not_of_getLast?_dropTrailing h

theorem isSpace_of_head?_trim (h : (trim cs).head? = some c) : isSpace c = false := by
  obtain ⟨blanks, htail, -⟩ := exists_eq_dropTrailing_append isSpace (cs.dropWhile isSpace)
  have hnot := List.head?_dropWhile_not isSpace cs
  rw [htail, ← trim, List.head?_append, h] at hnot
  simpa using hnot

end DecimalFormula.Text
