import DecimalFormula.Proofs.Decimal.Rereading
import DecimalFormula.Proofs.Engine.Reading
import DecimalFormula.Proofs.Scanning.Malformed

/-!
# Formulas that are one number or one name

A formula that is a single lexeme, a number or a name in braces, is parsed as a leaf under every
limit of at least eight (`Engine.parse_of_lexeme`), and so it has the value of that leaf.

For numbers this is all there is to know: a numeral is accepted exactly if a decimal can have its
number and its scale, and then its value is that decimal, which is written as the numeral was but
for zeros at its start (`Engine.numeral_evaluates_to_itself`). Whether it is accepted is decided
when it is scanned; the digits are read once more when it is evaluated.
-/

namespace DecimalFormula

theorem DerivesWithin.leaf {kind : LeafKind} {t : Token} {n : Nat}
    (h : (Tree.leaf kind t).BuiltFromToken) :
    DerivesWithin (n + 1) .primary [t] (.leaf kind t) := by
  cases kind with
  | number => exact .number h
  | identifier => exact .identifier h

/-- What stands between the braces of an identifier. -/
inductive IsIdentifierName : List Char → Prop
  | mk {c cs} : startsIdentifier c = true → (∀ d ∈ cs, continuesIdentifier d = true) →
    IsIdentifierName (c :: cs)

namespace Engine

variable {e : Engine} {bindings : Bindings} {formula text : String} {kind : TokenKind}
  {v : Decimal}

/-! ## Leaves -/

theorem lexes_of_lexeme {registry : Registry} (h : Lexeme registry kind text formula.toList) :
    Lexer.Lexes registry (.start formula.toList)
      [⟨kind, text, lexemeSpan kind 0 formula.toList⟩] ⟨byteLength formula.toList, []⟩ := by
  have hends : kind.EndsAt [] := fun _ hc ↦ by cases hc
  have hscan := Lexer.scanToken_of_lexeme (n := 0) (List.forall_mem_nil _) h hends
  rw [List.append_nil, List.nil_append, byteLength_nil, Nat.zero_add, Nat.zero_add] at hscan
  exact .cons hscan (Token.isEnd_eq_false_iff.mpr h.kind_ne_endOfInput) .nil

/-- A number, or a name in braces, is a formula. It takes all eight levels. -/
theorem parse_of_lexeme (leafKind : LeafKind) (hlimit : 8 ≤ e.limit)
    (h : Lexeme e.registry kind text formula.toList)
    (hleaf : ∀ span, (Tree.leaf leafKind ⟨kind, text, span⟩).BuiltFromToken) :
    e.parse formula = .ok (.leaf leafKind ⟨kind, text, lexemeSpan kind 0 formula.toList⟩) := by
  have hprimary := DerivesWithin.leaf (n := 0) (hleaf (lexemeSpan kind 0 formula.toList))
  have hderives : DerivesWithin e.limit .disjunction _ _ := hprimary.of_primary hlimit
  refine parse_eq_ok_iff.mpr ⟨_, _, lexes_of_lexeme h, List.forall_mem_nil _, hderives, ?_⟩
  exact Tree.accepted_iff.mpr ⟨trivial, List.forall_mem_nil _⟩

theorem evalFormula_of_lexeme (leafKind : LeafKind) (hlimit : 8 ≤ e.limit)
    (h : Lexeme e.registry kind text formula.toList)
    (hleaf : ∀ span, (Tree.leaf leafKind ⟨kind, text, span⟩).BuiltFromToken)
    (hvalue : leafStep bindings leafKind text = .ok v) :
    e.evalFormula bindings formula = .ok v := by
  rw [evalFormula, parse_of_lexeme leafKind hlimit h hleaf, Except.bind, evaluate, Tree.evaluate,
    hvalue]
  rfl

/-! ## Names -/

theorem evalFormula_of_identifier {name : String} (hlimit : 8 ≤ e.limit)
    (hname : IsIdentifierName name.toList) (hbound : bindings.get? name = some text)
    (hread : Decimal.readValue? text = some v) :
    e.evalFormula bindings ("\x7b" ++ name ++ "\x7d") = .ok v := by
  have hlexeme : Lexeme e.registry .identifier name ("\x7b" ++ name ++ "\x7d").toList := by
    generalize hchars : name.toList = chars at hname
    cases hname with
    | @mk c cs hc hcs =>
      have hname : name = .ofList (c :: cs) := by rw [← hchars, String.ofList_toList]
      have hbraced : ("\x7b" ++ name ++ "\x7d").toList = '\x7b' :: (c :: cs ++ ['\x7d']) := by
        simp [hchars]
      rw [hbraced, hname]
      exact .identifier hc hcs
  refine evalFormula_of_lexeme .identifier hlimit hlexeme (fun _ ↦ rfl) ?_
  rw [leafStep, hbound]
  dsimp only
  rw [readDecimal, hread]

/-! ## Numbers -/

/-- A numeral that no decimal can hold is refused when it is scanned, as a whole. -/
theorem parse_of_numeral_outOfRange (hformula : Numeral formula.toList)
    (hread : Decimal.read? formula = none) : e.parse formula =
      .error (.lexical formula ⟨.outOfRange formula, .between 0 (byteLength formula.toList)⟩) := by
  have hmalformed : Malformed e.registry 0 (formula.toList ++ []) _ :=
    .outOfRange hformula (by rwa [String.ofList_toList]) fun _ hc ↦ by cases hc
  have hscan := Lexer.scanToken_of_malformed (n := 0) (List.forall_mem_nil _) hmalformed
  rw [List.append_nil, List.nil_append, String.ofList_toList, Nat.zero_add] at hscan
  exact parse_of_scan_error (Lexer.scan_eq_error_iff.mpr ⟨_, _, .nil, hscan⟩)

theorem lexeme_of_numeral {registry : Registry} (hformula : Numeral formula.toList)
    (hread : Decimal.read? formula = some v) :
    Lexeme registry .number formula formula.toList := by
  have hlexeme : Lexeme registry .number (.ofList formula.toList) formula.toList :=
    .number hformula (by rwa [String.ofList_toList])
  rwa [String.ofList_toList] at hlexeme

theorem exists_parse_iff_of_numeral (hlimit : 8 ≤ e.limit) (hformula : Numeral formula.toList) :
    (∃ tree, e.parse formula = .ok tree) ↔ (Decimal.read? formula).isSome = true := by
  constructor
  · rintro ⟨tree, hparse⟩
    rw [Option.isSome_iff_ne_none]
    intro hnone
    rw [parse_of_numeral_outOfRange hformula hnone] at hparse
    cases hparse
  · intro hread
    obtain ⟨v, hv⟩ := Option.isSome_iff_exists.mp hread
    exact ⟨_, parse_of_lexeme .number hlimit (lexeme_of_numeral hformula hv) fun _ ↦ rfl⟩

theorem evalFormula_of_numeral (hlimit : 8 ≤ e.limit) (hformula : Numeral formula.toList)
    (hread : Decimal.read? formula = some v) : e.evalFormula bindings formula = .ok v := by
  refine evalFormula_of_lexeme .number hlimit (lexeme_of_numeral hformula hread) (fun _ ↦ rfl) ?_
  rw [leafStep, readDecimal, Decimal.readValue?_of_read? hread]

/-- **Numbers evaluate to themselves.** Let a formula be digits, or digits around a point, and the
limit at least eight. It is accepted if and only if its digits, read as one number, are small enough
for a mantissa, and no more than 28 of them stand behind the point. Then, under any bindings, its
value is not negative, and has that number as mantissa and as many digits behind the point. It is
written as the formula is but for zeros at its start that a digit follows. -/
theorem numeral_evaluates_to_itself (hlimit : 8 ≤ e.limit) {n : String} (hn : Numeral n.toList) :
    ((∃ tree, e.parse n = .ok tree) ↔
      digitsNumber n.toList < mantissaLimit ∧ fractionDigits n.toList ≤ maxScale) ∧
    ∀ (hmantissa : digitsNumber n.toList < mantissaLimit)
      (hscale : fractionDigits n.toList ≤ maxScale) (bindings : Bindings),
      let d : Decimal := ⟨false, digitsNumber n.toList, fractionDigits n.toList, hmantissa, hscale⟩
      e.evalFormula bindings n = .ok d ∧ d.render = .ofList (withoutLeadingZeros n.toList) := by
  have hread := hn.read?_eq
  rw [String.ofList_toList] at hread
  refine ⟨?_, fun hmantissa hscale bindings ↦ ?_⟩
  · rw [exists_parse_iff_of_numeral hlimit hn, hread, Decimal.ofParts?_isSome_iff]
  · intro d
    have hd : Decimal.read? n = some d := hread.trans d.ofParts?_self
    exact ⟨evalFormula_of_numeral hlimit hn hd, hn.render_eq hmantissa hscale⟩

/-- Zeros at the start are no digits of the value, those at the end are. -/
theorem numeral_evaluates_to_itself_zeros :
    8 ≤ standard.limit ∧ Numeral "007.50".toList ∧
      standard.evalFormula .empty "007.50" = .ok ⟨false, 750, 2, by decide, by decide⟩ ∧
      Decimal.render ⟨false, 750, 2, by decide, by decide⟩ = "7.50" := by
  have hlimit : 8 ≤ standard.limit := by decide
  have hn : Numeral "007.50".toList :=
    @Numeral.fraction ['0', '0', '7'] ['5', '0'] (List.cons_ne_nil _ _) (List.all_eq_true.mp rfl)
      (List.cons_ne_nil _ _) (List.all_eq_true.mp rfl)
  obtain ⟨-, hvalue⟩ := numeral_evaluates_to_itself hlimit hn
  exact ⟨hlimit, hn, hvalue (by decide) (by decide) .empty⟩

end Engine

end DecimalFormula
