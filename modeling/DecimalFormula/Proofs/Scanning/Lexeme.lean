import DecimalFormula.Lexer

/-!
# Lexemes

`Lexeme registry kind text cs` says that the characters `cs`, taken by themselves, are one lexeme
and what token they are. A scanner takes lexemes as long as they can be, so a lexeme ends only in
front of a character that does not extend it (`EndsAt`): `>` is no lexeme in front of `=`, and `1`
none in front of `2`.

A token is written by its text, or by its text in braces; the characters of that are a lexeme again
and the same token (`Lexeme.legible`). Only a function name may have stood in the formula otherwise,
in lower case.
-/

namespace DecimalFormula

/-! ## Lexemes by themselves -/

/-- Digits, or digits around a point. -/
inductive Numeral : List Char → Prop
  | whole {ds} : ds ≠ [] → (∀ d ∈ ds, d.isDigit = true) → Numeral ds
  | fraction {ds es} : ds ≠ [] → (∀ d ∈ ds, d.isDigit = true) → es ≠ [] →
    (∀ d ∈ es, d.isDigit = true) → Numeral (ds ++ '.' :: es)

theorem Numeral.isDigit_head {c : Char} {cs : List Char} (h : Numeral (c :: cs)) :
    c.isDigit = true := by
  generalize hchars : c :: cs = chars at h
  cases h with
  | whole _ hds =>
    subst hchars
    exact hds c List.mem_cons_self
  | @fraction ds _ hne hds =>
    cases ds with
    | nil => exact absurd rfl hne
    | cons d ds =>
      obtain ⟨rfl, -⟩ := List.cons.inj hchars
      exact hds c List.mem_cons_self

theorem Numeral.ne_nil {cs : List Char} (h : Numeral cs) : cs ≠ [] := by
  cases h with
  | whole hne => exact hne
  | fraction => simp

theorem Numeral.isDigit_or_eq_point {cs : List Char} (h : Numeral cs) :
    ∀ c ∈ cs, c.isDigit = true ∨ c = '.' := by
  intro c hc
  cases h with
  | whole _ hds => exact .inl (hds c hc)
  | fraction _ hds _ hes =>
    rcases List.mem_append.mp hc with hc | hc
    · exact .inl (hds c hc)
    rcases List.mem_cons.mp hc with rfl | hc
    · exact .inr rfl
    · exact .inl (hes c hc)

/-- The operators of one character that a following `=` would belong to. -/
def openOperators : List (Char × TokenKind) := [('!', .not), ('>', .greater), ('<', .less)]

/-- What these operators are with the `=`. -/
def closedOperators : List (Char × TokenKind) :=
  [('!', .notEqual), ('>', .greaterOrEqual), ('<', .lessOrEqual)]

/-- Some characters are one lexeme, which is a token of this kind with this text. -/
inductive Lexeme (registry : Registry) : TokenKind → String → List Char → Prop
  /-- An operator or delimiter that is one character whatever follows it. -/
  | symbol {c kind} : TokenKind.ofSymbol? c = some kind →
    Lexeme registry kind (.ofList [c]) [c]
  /-- An operator that a following `=` would belong to. -/
  | openOperator {c kind} : (c, kind) ∈ openOperators → Lexeme registry kind (.ofList [c]) [c]
  /-- An operator with its `=`. -/
  | closedOperator {c kind} : (c, kind) ∈ closedOperators →
    Lexeme registry kind (.ofList [c, '=']) [c, '=']
  /-- A number that a decimal can hold. -/
  | number {cs d} : Numeral cs → Decimal.read? (.ofList cs) = some d →
    Lexeme registry .number (.ofList cs) cs
  /-- A name in braces. -/
  | identifier {c cs} : startsIdentifier c = true → (∀ d ∈ cs, continuesIdentifier d = true) →
    Lexeme registry .identifier (.ofList (c :: cs)) ('\x7b' :: (c :: cs ++ ['\x7d']))
  /-- The name of a registered function. -/
  | function {c cs} : c.isAlpha = true → (∀ d ∈ cs, continuesName d = true) →
    registry.contains (.ofList ((c :: cs).map Char.toUpper)) = true →
    Lexeme registry .function (.ofList ((c :: cs).map Char.toUpper)) (c :: cs)

/-- Whether a character that follows a lexeme of this kind would still belong to it. -/
def TokenKind.extendedBy : TokenKind → Char → Bool
  | .number, c => c.isDigit || c == '.'
  | .function, c => continuesName c
  | .not, c | .greater, c | .less, c => c == '='
  | _, _ => false

/-- A lexeme of this kind ends in front of these characters. -/
def TokenKind.EndsAt (kind : TokenKind) (rest : List Char) : Prop :=
  ∀ c ∈ rest.head?, kind.extendedBy c = false

theorem TokenKind.endsAt_cons {kind : TokenKind} {c : Char} {rest : List Char}
    (h : kind.extendedBy c = false) : kind.EndsAt (c :: rest) := by
  rintro d ⟨⟩
  exact h

/-! ### Symbols and operators -/

/-- Symbols look alike wherever they stand, and nothing extends them. -/
theorem TokenKind.of_symbol {c : Char} {kind : TokenKind} (h : ofSymbol? c = some kind) :
    kind.isNamedByWord = false ∧ kind.literal = .ofList [c] ∧ ∀ d, kind.extendedBy d = false := by
  unfold ofSymbol? at h
  split at h <;> cases h <;> exact ⟨rfl, rfl, fun _ ↦ rfl⟩

theorem TokenKind.of_openOperator {c : Char} {kind : TokenKind} (h : (c, kind) ∈ openOperators) :
    kind.isNamedByWord = false ∧ kind.literal = .ofList [c] ∧
      ∀ d, kind.extendedBy d = (d == '=') := by
  simp only [openOperators, List.mem_cons, List.not_mem_nil, or_false, Prod.mk.injEq] at h
  obtain ⟨rfl, rfl⟩ | ⟨rfl, rfl⟩ | ⟨rfl, rfl⟩ := h <;> exact ⟨rfl, rfl, fun _ ↦ rfl⟩

theorem TokenKind.of_closedOperator {c : Char} {kind : TokenKind}
    (h : (c, kind) ∈ closedOperators) :
    kind.isNamedByWord = false ∧ kind.literal = .ofList [c, '='] ∧
      ∀ d, kind.extendedBy d = false := by
  simp only [closedOperators, List.mem_cons, List.not_mem_nil, or_false, Prod.mk.injEq] at h
  obtain ⟨rfl, rfl⟩ | ⟨rfl, rfl⟩ | ⟨rfl, rfl⟩ := h <;> exact ⟨rfl, rfl, fun _ ↦ rfl⟩

/-- Where the token of a lexeme stands that starts at an offset: the braces of an identifier do not
belong to it. -/
def lexemeSpan (kind : TokenKind) (start : Nat) (cs : List Char) : Span :=
  if kind = .identifier then .between (start + 1) (start + byteLength cs - 1)
  else .between start (start + byteLength cs)

/-! ## Characters -/

theorem isBlank_iff {c : Char} : isBlank c = true ↔ c = ' ' ∨ c = '\t' := by
  rw [isBlank, Bool.or_eq_true, beq_iff_eq, beq_iff_eq]

theorem TokenKind.endsAt_of_blank {c : Char} (h : isBlank c = true) (kind : TokenKind)
    (rest : List Char) : kind.EndsAt (c :: rest) := by
  refine endsAt_cons ?_
  rcases isBlank_iff.mp h with rfl | rfl <;> cases kind <;> rfl

theorem isAlpha_iff_toNat {c : Char} : c.isAlpha = true ↔
    (65 ≤ c.toNat ∧ c.toNat ≤ 90) ∨ (97 ≤ c.toNat ∧ c.toNat ≤ 122) := by
  have hupper : c.isUpper = decide (65 ≤ c.val ∧ c.val ≤ 90) := rfl
  have hlower : c.isLower = (decide (97 ≤ c.val) && decide (c.val ≤ 122)) := rfl
  have halpha : c.isAlpha = (c.isUpper || c.isLower) := rfl
  simp only [halpha, hupper, hlower, Bool.or_eq_true, Bool.and_eq_true, decide_eq_true_eq,
    UInt32.le_iff_toNat_le]
  exact Iff.rfl

theorem isDigit_eq_false_of_isAlpha {c : Char} (h : c.isAlpha = true) : c.isDigit = false := by
  rw [isAlpha_iff_toNat] at h
  rw [← Bool.not_eq_true, Char.isDigit_iff_toNat]
  simp only [Char.reduceToNat]
  omega

theorem isAlpha_toUpper {c : Char} (h : c.isAlpha = true) : c.toUpper.isAlpha = true := by
  by_cases hlower : 'a'.val ≤ c.val ∧ c.val ≤ 'z'.val
  · have hlow : 97 ≤ c.toNat := UInt32.le_iff_toNat_le.mp hlower.1
    have hhigh : c.toNat ≤ 122 := UInt32.le_iff_toNat_le.mp hlower.2
    have hval : c.toUpper.toNat = (c.toNat + 4294967264) % 4294967296 := by
      have := congrArg UInt32.toNat (Text.val_toUpper_of_lower hlower)
      rwa [UInt32.toNat_add, show ('A'.val - 'a'.val).toNat = 4294967264 from by decide] at this
    rw [isAlpha_iff_toNat, hval]
    omega
  · rwa [Text.toUpper_of_not_lower hlower]

theorem forall_continuesName {c : Char} {cs : List Char} (hc : c.isAlpha = true)
    (hcs : ∀ d ∈ cs, continuesName d = true) : ∀ d ∈ c :: cs, continuesName d = true := by
  refine List.forall_mem_cons.mpr ⟨?_, hcs⟩
  rw [continuesName, hc, Bool.true_or]

theorem forall_continuesIdentifier {c : Char} {cs : List Char} (hc : startsIdentifier c = true)
    (hcs : ∀ d ∈ cs, continuesIdentifier d = true) :
    ∀ d ∈ c :: cs, continuesIdentifier d = true := by
  refine List.forall_mem_cons.mpr ⟨?_, hcs⟩
  rw [startsIdentifier, Bool.or_eq_true] at hc
  rw [continuesIdentifier, Char.isAlphanum, Bool.or_eq_true, Bool.or_eq_true]
  exact hc.imp_left .inl

theorem continuesName_toUpper {c : Char} (h : continuesName c = true) :
    continuesName c.toUpper = true := by
  rw [continuesName, Bool.or_eq_true, beq_iff_eq] at h ⊢
  rcases h with h | rfl
  · exact .inl (isAlpha_toUpper h)
  · exact .inr (by decide)

/-! ## Lexemes that tokens are written as -/

/-- A token is legible if what it is written as is a lexeme and the same token again. -/
def Token.Legible (registry : Registry) (t : Token) : Prop :=
  Lexeme registry t.kind t.text t.render.toList

namespace Lexeme

variable {registry : Registry} {kind : TokenKind} {text : String} {cs : List Char}

/-- Kinds whose texts are all alike have the literal of the kind as their only lexeme. -/
theorem eq_literal (h : Lexeme registry kind text cs) (hkind : kind.isNamedByWord = false) :
    text = kind.literal ∧ cs = kind.literal.toList := by
  cases h with
  | symbol h => rw [(TokenKind.of_symbol h).2.1, String.toList_ofList]; exact ⟨rfl, rfl⟩
  | openOperator h =>
    rw [(TokenKind.of_openOperator h).2.1, String.toList_ofList]; exact ⟨rfl, rfl⟩
  | closedOperator h =>
    rw [(TokenKind.of_closedOperator h).2.1, String.toList_ofList]; exact ⟨rfl, rfl⟩
  | number | identifier | function => cases hkind

theorem kind_of_isNamedByWord (h : Lexeme registry kind text cs)
    (hkind : kind.isNamedByWord = true) :
    kind = .number ∨ kind = .identifier ∨ kind = .function := by
  cases h with
  | symbol h => rw [(TokenKind.of_symbol h).1] at hkind; cases hkind
  | openOperator h => rw [(TokenKind.of_openOperator h).1] at hkind; cases hkind
  | closedOperator h => rw [(TokenKind.of_closedOperator h).1] at hkind; cases hkind
  | number => exact .inl rfl
  | identifier => exact .inr (.inl rfl)
  | function => exact .inr (.inr rfl)

theorem kind_ne_endOfInput (h : Lexeme registry kind text cs) : kind ≠ .endOfInput := by
  rintro rfl
  rcases h.kind_of_isNamedByWord rfl with h | h | h <;> cases h

/-! ### Lexemes of one kind -/

theorem numeral_of_number (h : Lexeme registry .number text cs) :
    Numeral cs ∧ text = .ofList cs ∧ ∃ d, Decimal.read? text = some d := by
  cases h with
  | symbol h => cases (TokenKind.of_symbol h).1
  | openOperator h => cases (TokenKind.of_openOperator h).1
  | closedOperator h => cases (TokenKind.of_closedOperator h).1
  | number hcs hread => exact ⟨hcs, rfl, _, hread⟩

theorem name_of_identifier (h : Lexeme registry .identifier text cs) :
    ∃ c ds, cs = '\x7b' :: (c :: ds ++ ['\x7d']) ∧ text = .ofList (c :: ds) ∧
      startsIdentifier c = true ∧ ∀ d ∈ ds, continuesIdentifier d = true := by
  cases h with
  | symbol h => cases (TokenKind.of_symbol h).1
  | openOperator h => cases (TokenKind.of_openOperator h).1
  | closedOperator h => cases (TokenKind.of_closedOperator h).1
  | identifier hc hcs => exact ⟨_, _, rfl, rfl, hc, hcs⟩

theorem name_of_function (h : Lexeme registry .function text cs) :
    ∃ c ds, cs = c :: ds ∧ text = .ofList ((c :: ds).map Char.toUpper) ∧ c.isAlpha = true ∧
      (∀ d ∈ ds, continuesName d = true) ∧ registry.contains text = true := by
  cases h with
  | symbol h => cases (TokenKind.of_symbol h).1
  | openOperator h => cases (TokenKind.of_openOperator h).1
  | closedOperator h => cases (TokenKind.of_closedOperator h).1
  | function hc hcs hcontains => exact ⟨_, _, rfl, rfl, hc, hcs, hcontains⟩

theorem exists_cons (h : Lexeme registry kind text cs) :
    ∃ c ds, cs = c :: ds ∧ isBlank c = false := by
  have hblank {c : Char} (hc : c = ' ' ∨ c = '\t' → False) : isBlank c = false := by
    rw [← Bool.not_eq_true, isBlank_iff]
    exact hc
  cases h with
  | symbol h =>
    refine ⟨_, _, rfl, hblank ?_⟩
    rintro (rfl | rfl) <;> cases h
  | openOperator h | closedOperator h =>
    refine ⟨_, _, rfl, hblank ?_⟩
    rintro (rfl | rfl) <;> simp [openOperators, closedOperators] at h
  | number hcs =>
    obtain ⟨c, ds, rfl⟩ := List.exists_cons_of_ne_nil hcs.ne_nil
    refine ⟨c, ds, rfl, hblank ?_⟩
    rintro (rfl | rfl) <;> exact absurd hcs.isDigit_head (by decide)
  | identifier => exact ⟨_, _, rfl, rfl⟩
  | function hc =>
    refine ⟨_, _, rfl, hblank ?_⟩
    rintro (rfl | rfl) <;> exact absurd hc (by decide)

theorem isBlank_head (h : Lexeme registry kind text cs) (rest : List Char) :
    ∀ b ∈ (cs ++ rest).head?, isBlank b = false := by
  obtain ⟨c, ds, rfl, hc⟩ := h.exists_cons
  rintro b ⟨⟩
  exact hc

/-- The characters a token comes from may differ from those it is written as in letter case only. -/
theorem legible {t : Token} (h : Lexeme registry t.kind t.text cs) : t.Legible registry := by
  obtain ⟨kind, text, span⟩ := t
  rw [Token.Legible, Token.render]
  dsimp only at h ⊢
  cases hword : kind.isNamedByWord with
  | false =>
    obtain ⟨rfl, rfl⟩ := h.eq_literal hword
    cases kind <;> first | exact h | cases hword
  | true =>
    rcases h.kind_of_isNamedByWord hword with rfl | rfl | rfl
    · obtain ⟨-, rfl, -⟩ := h.numeral_of_number
      simpa using h
    · obtain ⟨c, ds, rfl, rfl, -, -⟩ := h.name_of_identifier
      simpa using h
    · obtain ⟨c, ds, rfl, rfl, hc, hds, hcontains⟩ := h.name_of_function
      -- What is in upper case already stays as it is, so the text is a lexeme of itself.
      have hupper : ((c :: ds).map Char.toUpper).map Char.toUpper = (c :: ds).map Char.toUpper := by
        simp
      have hlexeme : Lexeme registry .function
          (.ofList (((c :: ds).map Char.toUpper).map Char.toUpper))
          ((c :: ds).map Char.toUpper) := by
        refine .function (isAlpha_toUpper hc) (fun d hd ↦ ?_) (by rwa [← List.map_cons, hupper])
        obtain ⟨e, he, rfl⟩ := List.mem_map.mp hd
        exact continuesName_toUpper (hds e he)
      rw [hupper] at hlexeme
      simpa using hlexeme

end Lexeme

end DecimalFormula
