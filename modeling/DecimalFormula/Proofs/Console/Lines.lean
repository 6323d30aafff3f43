import DecimalFormula.Proofs.CommandLine.Arguments
import DecimalFormula.Proofs.Console.Session

/-!
# Writing lines for a session

Lines with a line feed behind each of them are read back as they are (`linesOf_inputOf`). Of the
lines that a session is given, two sorts are written here: one that binds a name, and a formula. A
formula is taken for one unless it starts with a point.
-/

namespace DecimalFormula.Console.Loop

/-! ## Line ends -/

variable {current cs : List Char} {lines : List String}

theorem splitLines_append_cons (h : '\n' ∉ cs) (rest : List Char) :
    splitLines current (cs ++ '\n' :: rest) =
      (current.reverse ++ (cs ++ ['\n'])) :: splitLines [] rest := by
  induction cs generalizing current with
  | nil => rw [List.nil_append, splitLines, if_pos rfl, List.reverse_cons, List.nil_append]
  | cons c cs ih =>
    obtain ⟨hc, hcs⟩ := List.ne_and_not_mem_of_not_mem_cons h
    rw [List.cons_append, splitLines, if_neg (Ne.symm hc), ih hcs, List.reverse_cons]
    simp

theorem chomp_append (h : cs.getLast? ≠ some '\r') : chomp (cs ++ ['\n']) = cs := by
  rw [chomp, List.getLast?_concat, if_pos rfl, List.dropLast_concat]
  exact if_neg h

/-- An input with a line feed behind each line. -/
def inputOf (lines : List String) : String := String.join (lines.map (· ++ "\n"))

theorem linesOf_inputOf
    (h : ∀ line ∈ lines, '\n' ∉ line.toList ∧ line.toList.getLast? ≠ some '\r') :
    linesOf (inputOf lines) = lines := by
  rw [linesOf, inputOf]
  induction lines with
  | nil => rfl
  | cons line lines ih =>
    obtain ⟨⟨hfeed, hreturn⟩, hlines⟩ := List.forall_mem_cons.mp h
    have hinput : (String.join ((line :: lines).map (· ++ "\n"))).toList =
        line.toList ++ '\n' :: (String.join (lines.map (· ++ "\n"))).toList := by
      simp
    rw [hinput, splitLines_append_cons hfeed, List.map_cons, ih hlines, List.reverse_nil,
      List.nil_append, chomp_append hreturn, String.ofList_toList]

/-! ## Definitions -/

/-- The line that binds a name as a definition does. -/
def setLine (d : Definition) : String := ".set " ++ (d.name ++ (" " ++ d.value))

variable {d : Definition}

theorem toList_setLine (d : Definition) :
    (setLine d).toList = ".set".toList ++ ' ' :: (d.name.toList ++ ' ' :: d.value.toList) := by
  simp [setLine]

theorem isWord_name (h : d.IsPlain) : Text.IsWord d.name.toList := by
  refine ⟨fun hnil ↦ h.bareName ?_, h.name⟩
  rw [hnil]
  rfl

theorem isWord_value (h : d.IsPlain) : Text.IsWord d.value.toList := by
  refine ⟨fun hnil ↦ ?_, h.value⟩
  have hnumber := h.number
  rw [String.toList_eq_nil_iff.mp hnil] at hnumber
  exact absurd hnumber (by decide)

theorem words_setLine (hname : Text.IsWord d.name.toList) (hvalue : Text.IsWord d.value.toList) :
    Text.words (setLine d).toList = [".set".toList, d.name.toList, d.value.toList] := by
  have hset : Text.IsWord ".set".toList := by decide
  rw [toList_setLine, hset.words_append_cons rfl, hname.words_append_cons rfl, hvalue.words_eq]

theorem ofLine_setLine (h : d.IsPlain) :
    Request.ofLine (setLine d) = .set d.bare.name d.bare.value := by
  rw [Request.ofLine_of_set (words_setLine (isWord_name h) (isWord_value h)),
    String.ofList_toList, if_pos h.number]
  rfl

theorem feed_setLine (h : d.IsPlain) : '\n' ∉ (setLine d).toList := by
  have hfeed {cs : List Char} (hcs : ∀ c ∈ cs, Text.isSpace c = false) : '\n' ∉ cs :=
    fun hmem ↦ absurd (hcs '\n' hmem) (by decide)
  rw [toList_setLine]
  simp [hfeed h.name, hfeed h.value]

theorem getLast?_setLine (h : d.IsPlain) : (setLine d).toList.getLast? ≠ some '\r' := by
  have hlast : (setLine d).toList.getLast? = d.value.toList.getLast? := by
    rw [toList_setLine, ← List.cons_append, ← List.append_assoc, List.getLast?_append_cons,
      List.getLast?_cons_of_ne_nil (isWord_value h).ne_nil]
  rw [hlast]
  exact fun hreturn ↦ absurd (h.value '\r' (List.mem_of_getLast? hreturn)) (by decide)

/-! ## Formulas -/

/-- A formula that is a line of its own and no command. -/
structure IsFormula (line : String) : Prop where
  /-- It is not empty. -/
  ne_empty : line ≠ ""
  /-- There is no white space at its ends. -/
  trim : Text.trim line.toList = line.toList
  /-- There is no line feed in it. -/
  feed : '\n' ∉ line.toList
  /-- It does not start with a point. -/
  point : line.toList.head? ≠ some '.'

namespace IsFormula

variable {line : String}

theorem isSpace_of_getLast? (h : IsFormula line) {c : Char} (hc : line.toList.getLast? = some c) :
    Text.isSpace c = false :=
  Text.isSpace_of_getLast?_trim (h.trim.symm ▸ hc)

theorem ofLine_eq (h : IsFormula line) : Request.ofLine line = .formula line := by
  obtain ⟨c, cs, hchars⟩ :=
    List.exists_cons_of_ne_nil fun hnil ↦ h.ne_empty (String.toList_eq_nil_iff.mp hnil)
  have hhead : (Text.trim line.toList).head? = some c := by rw [h.trim, hchars, List.head?_cons]
  have hspace : Text.isSpace c = false := Text.isSpace_of_head?_trim hhead
  have hpoint : c ≠ '.' := by
    rintro rfl
    exact h.point (by rw [hchars, List.head?_cons])
  obtain ⟨w, ws, hwords⟩ := Text.exists_words_cons hspace cs
  rw [← hchars] at hwords
  have hword (text : String) (htext : text.toList.head? = some '.') :
      String.ofList (c :: w) ≠ text := by
    rintro rfl
    rw [String.toList_ofList, List.head?_cons] at htext
    exact hpoint (Option.some.inj htext)
  have hstarts : ¬ (String.ofList (c :: w)).startsWith "." = true := by
    rw [String.startsWith_string_iff, String.toList_ofList (l := c :: w)]
    rintro ⟨rest, hrest⟩
    exact hpoint (List.cons.inj hrest).1.symm
  simp only [Request.ofLine, h.trim, hwords, String.ofList_toList]
  rw [if_neg (hword exitWord rfl), if_neg (hword ".help" rfl), if_neg (hword ".vars" rfl),
    if_neg (hword ".funcs" rfl), if_neg (hword ".set" rfl), if_neg (hword ".unset" rfl),
    if_neg hstarts]

end IsFormula

end DecimalFormula.Console.Loop
