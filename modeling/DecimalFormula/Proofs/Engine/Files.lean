import DecimalFormula.Engine
import DecimalFormula.Proofs.Text.Encoding
import DecimalFormula.Proofs.Text.Words

/-!
# Formulas in files

The bytes of a file are decoded to their end before anything else is looked at. If they are the
bytes of a text, the answer is that of the text without the line ends behind it; otherwise it is one
of the two complaints about bytes, whatever characters were decoded before
(`Engine.parseFile_decodes`). So line ends may be added to a text freely, and characters that no
formula can have do not hide that a file is no text.

Which of the two complaints is made can depend on what is added: bytes that stop within a character
are cut off, but with a line end behind them they are malformed.
-/

namespace DecimalFormula.Engine

open Text

variable {text formula : String} {ends : List Char} {bytes : List UInt8}

/-! ## Line ends behind a text -/

/-- The second text is the first one without all the carriage returns and line feeds at its end. -/
structure WithoutLineEnds (text formula : String) : Prop where
  /-- What is left out are line ends. -/
  exists_ends : ∃ ends : List Char, text.toList = formula.toList ++ ends ∧
    ∀ c ∈ ends, c = '\r' ∨ c = '\n'
  /-- All of them are left out. -/
  last_ne : ∀ c, formula.toList.getLast? = some c → c ≠ '\r' ∧ c ≠ '\n'

theorem isLineEnd_iff {c : Char} : isLineEnd c = true ↔ c = '\r' ∨ c = '\n' := by
  rw [isLineEnd, Bool.or_eq_true, beq_iff_eq, beq_iff_eq]

theorem isLineEnd_eq_false_iff {c : Char} : isLineEnd c = false ↔ c ≠ '\r' ∧ c ≠ '\n' := by
  rw [← Bool.not_eq_true, isLineEnd_iff, not_or]

theorem withoutLineEnds_iff :
    WithoutLineEnds text formula ↔ formula = .ofList (dropTrailing isLineEnd text.toList) := by
  constructor
  · rintro ⟨⟨ends, htext, hends⟩, hlast⟩
    have hends : ∀ c ∈ ends, isLineEnd c = true := fun c hc ↦ isLineEnd_iff.mpr (hends c hc)
    have hlast : ∀ c, formula.toList.getLast? = some c → isLineEnd c = false :=
      fun c hc ↦ isLineEnd_eq_false_iff.mpr (hlast c hc)
    rw [htext, dropTrailing_append hends, dropTrailing_eq_self hlast, String.ofList_toList]
  · rintro rfl
    obtain ⟨ends, htext, hends⟩ := exists_eq_dropTrailing_append isLineEnd text.toList
    rw [List.all_eq_true] at hends
    refine ⟨⟨ends, ?_, fun c hc ↦ isLineEnd_iff.mp (hends c hc)⟩, fun c hc ↦ ?_⟩
    · rwa [String.toList_ofList]
    · rw [String.toList_ofList] at hc
      exact isLineEnd_eq_false_iff.mp (not_of_getLast?_dropTrailing hc)

/-- Further line ends are left out with the others. -/
theorem WithoutLineEnds.append (h : WithoutLineEnds text formula)
    (hends : ∀ c ∈ ends, c = '\r' ∨ c = '\n') :
    WithoutLineEnds (.ofList (text.toList ++ ends)) formula := by
  obtain ⟨⟨first, htext, hfirst⟩, hlast⟩ := h
  refine ⟨⟨first ++ ends, ?_, fun c hc ↦ ?_⟩, hlast⟩
  · rw [String.toList_ofList, htext, List.append_assoc]
  · exact (List.mem_append.mp hc).elim (hfirst c) (hends c)

/-! ## From bytes to formulas -/

theorem formulaOfBytes_of_withoutLineEnds (h : WithoutLineEnds text formula) :
    formulaOfBytes (Utf8.encode text.toList) = .ok formula := by
  rw [formulaOfBytes, Utf8.decode_encode, withoutLineEnds_iff.mp h]

/-- Bytes of no text make no formula, and there are two complaints about them. -/
theorem formulaOfBytes_eq_error (h : ∀ text : String, Utf8.encode text.toList ≠ bytes) :
    formulaOfBytes bytes = .error .invalidData ∨ formulaOfBytes bytes = .error .unexpectedEnd := by
  rw [formulaOfBytes]
  cases hdecode : Utf8.decode bytes with
  | ok cs =>
    refine absurd ?_ (h (.ofList cs))
    rw [String.toList_ofList, Utf8.encode_of_decode hdecode]
  | error fault =>
    cases fault with
    | malformed => exact .inl rfl
    | truncated => exact .inr rfl

theorem parseFile_of_formulaOfBytes (e : Engine) (h : formulaOfBytes bytes = .ok formula) :
    e.parseFile (.ok bytes) = (e.parse formula).map (.mk formula) := by
  have hcontents : (Except.ok bytes).bind formulaOfBytes = .ok formula := h
  rw [parseFile, hcontents]
  rfl

theorem parseFile_of_error (e : Engine) {fault : FileError}
    (h : formulaOfBytes bytes = .error fault) : e.parseFile (.ok bytes) = .error (.file fault) := by
  have hcontents : (Except.ok bytes).bind formulaOfBytes = .error fault := h
  rw [parseFile, hcontents]
  rfl

/-- **Files are decoded, then parsed.** A file that holds the bytes of a text is parsed as the one
text that is left without the line ends at its end: with that text as its source and the same tree,
or with the same error. So line ends behind a text make no difference. Bytes of no text are refused
as such, before anything is scanned or parsed. -/
theorem parseFile_decodes (e : Engine) :
    (∀ text : String, ∃ formula, (∀ s, WithoutLineEnds text s ↔ s = formula) ∧
      e.parseFile (.ok (Utf8.encode text.toList)) = (e.parse formula).map (.mk formula)) ∧
    (∀ (text : String) (ends : List Char), (∀ c ∈ ends, c = '\r' ∨ c = '\n') →
      e.parseFile (.ok (Utf8.encode (text.toList ++ ends))) =
        e.parseFile (.ok (Utf8.encode text.toList))) ∧
    ∀ bytes : List UInt8, (∀ text : String, Utf8.encode text.toList ≠ bytes) →
      e.parseFile (.ok bytes) = .error (.file .invalidData) ∨
        e.parseFile (.ok bytes) = .error (.file .unexpectedEnd) := by
  refine ⟨fun text ↦ ?_, fun text ends hends ↦ ?_, fun bytes hbytes ↦ ?_⟩
  · refine ⟨_, fun s ↦ withoutLineEnds_iff, ?_⟩
    exact e.parseFile_of_formulaOfBytes
      (formulaOfBytes_of_withoutLineEnds (withoutLineEnds_iff.mpr rfl))
  · have hformula : WithoutLineEnds text _ := withoutLineEnds_iff.mpr rfl
    have hmore := formulaOfBytes_of_withoutLineEnds (hformula.append hends)
    rw [String.toList_ofList] at hmore
    rw [e.parseFile_of_formulaOfBytes hmore,
      e.parseFile_of_formulaOfBytes (formulaOfBytes_of_withoutLineEnds hformula)]
  · exact (formulaOfBytes_eq_error hbytes).imp e.parseFile_of_error e.parseFile_of_error

/-- The text `2` in front of a line end, and the character `#` in front of half a character. -/
theorem parseFile_decodes_two :
    WithoutLineEnds "2\r\n" "2" ∧
      standard.parseFile (.ok [0x32, 0x0D, 0x0A]) = (standard.parse "2").map (.mk "2") ∧
    (∀ c ∈ ['\n', '\r'], c = '\r' ∨ c = '\n') ∧
      standard.parseFile (.ok [0x32, 0x0A, 0x0D]) = standard.parseFile (.ok [0x32]) ∧
    (∀ text : String, Utf8.encode text.toList ≠ [0x23, 0xC3]) ∧
      (standard.parseFile (.ok [0x23, 0xC3]) = .error (.file .invalidData) ∨
        standard.parseFile (.ok [0x23, 0xC3]) = .error (.file .unexpectedEnd)) := by
  obtain ⟨hformula, hends, hbytes⟩ := parseFile_decodes standard
  have hline : WithoutLineEnds "2\r\n" "2" := by
    refine ⟨⟨['\r', '\n'], rfl, by simp⟩, fun c hc ↦ ?_⟩
    obtain rfl : '2' = c := Option.some.inj hc
    exact ⟨by decide, by decide⟩
  obtain ⟨formula, hiff, hparse⟩ := hformula "2\r\n"
  rw [← (hiff "2").mp hline] at hparse
  have hbreaks : ∀ c ∈ ['\n', '\r'], c = '\r' ∨ c = '\n' := by simp
  have hhalf : ∀ text : String, Utf8.encode text.toList ≠ [0x23, 0xC3] := by
    intro text htext
    have hdecode := Utf8.decode_encode text.toList
    have htruncated : Utf8.decode [0x23, 0xC3] = .error .truncated := by decide +kernel
    rw [htext, htruncated] at hdecode
    cases hdecode
  exact ⟨hline, hparse, hbreaks, hends "2" _ hbreaks, hhalf, hbytes _ hhalf⟩

end DecimalFormula.Engine
