import DecimalFormula.Proofs.Scanning.Lexeme

/-!
# Malformed lexemes

Where no lexeme starts, something is wrong. `Malformed registry n rest e` says that the characters
`rest`, which start at the offset `n`, go wrong there and that `e` is the first thing wrong with
them: whatever comes before the place it names is in order.

There is no third possibility: in front of anything but a blank or the end, a lexeme stands or one
of the seven things is wrong (`startsLexeme_or_malformed`).
-/

namespace DecimalFormula

/-! ## What can be wrong -/

/-- No lexeme starts with such a character, and it is no blank. -/
structure Foreign (c : Char) : Prop where
  /-- It does not separate tokens. -/
  blank : isBlank c = false
  /-- It does not start a number. -/
  digit : c.isDigit = false
  /-- It does not start a function name. -/
  alpha : c.isAlpha = false
  /-- It does not start an identifier. -/
  brace : c ≠ '\x7b'
  /-- It does not start an operator that an `=` may belong to. -/
  operator : ∀ kind, (c, kind) ∉ openOperators
  /-- It is no symbol. -/
  symbol : TokenKind.ofSymbol? c = none

/-- These characters, from the offset `n` on, start with a lexeme that goes wrong in this way. -/
inductive Malformed (registry : Registry) (n : Nat) : List Char → LexicalError → Prop
  /-- No lexeme starts like that. -/
  | unrecognized {c rest} : Foreign c →
    Malformed registry n (c :: rest) ⟨.unrecognized c, .between n (n + c.utf8Size)⟩
  /-- A number is followed by a second point; the digits between the points may be missing. -/
  | secondPoint {ds es rest} : ds ≠ [] → (∀ d ∈ ds, d.isDigit = true) →
    (∀ d ∈ es, d.isDigit = true) →
    Malformed registry n (ds ++ '.' :: (es ++ '.' :: rest))
      ⟨.secondPoint, TextCursor.here ⟨n + byteLength (ds ++ '.' :: es), '.' :: rest⟩⟩
  /-- A number ends with its point, which is the place of the error. -/
  | missingFraction {ds rest} : ds ≠ [] → (∀ d ∈ ds, d.isDigit = true) →
    TokenKind.number.EndsAt rest →
    Malformed registry n (ds ++ '.' :: rest)
      ⟨.missingFraction rest.head?, .between (n + byteLength ds) (n + byteLength ds + 1)⟩
  /-- A number is well written but no decimal. -/
  | outOfRange {cs rest} : Numeral cs → Decimal.read? (.ofList cs) = none →
    TokenKind.number.EndsAt rest →
    Malformed registry n (cs ++ rest) ⟨.outOfRange (.ofList cs), .between n (n + byteLength cs)⟩
  /-- What follows an opening brace does not start a name. -/
  | badIdentifierStart {rest} : (∀ c ∈ rest.head?, startsIdentifier c = false) →
    Malformed registry n ('\x7b' :: rest)
      ⟨.badIdentifierStart rest.head?, TextCursor.here ⟨n + 1, rest⟩⟩
  /-- The longest name behind an opening brace is not followed by a closing one. -/
  | missingBrace {c cs rest} : startsIdentifier c = true →
    (∀ d ∈ cs, continuesIdentifier d = true) →
    (∀ d ∈ rest.head?, continuesIdentifier d = false) → rest.head? ≠ some '\x7d' →
    Malformed registry n ('\x7b' :: (c :: cs ++ rest))
      ⟨.missingBrace rest.head?, TextCursor.here ⟨n + 1 + byteLength (c :: cs), rest⟩⟩
  /-- The longest word there is not the name of a registered function. -/
  | unknownFunction {c cs rest} : c.isAlpha = true → (∀ d ∈ cs, continuesName d = true) →
    TokenKind.function.EndsAt rest →
    registry.contains (.ofList ((c :: cs).map Char.toUpper)) = false →
    Malformed registry n (c :: cs ++ rest)
      ⟨.unknownFunction (.ofList ((c :: cs).map Char.toUpper)),
        .between n (n + byteLength (c :: cs))⟩

/-! ## A lexeme, or something wrong -/

theorem exists_longest_run (p : Char → Bool) (chars : List Char) : ∃ cs rest, chars = cs ++ rest ∧
    (∀ d ∈ cs, p d = true) ∧ ∀ d ∈ rest.head?, p d = false := by
  refine ⟨chars.takeWhile p, chars.dropWhile p, ?_, fun d hd ↦ ?_, fun d hd ↦ ?_⟩
  · rw [List.takeWhile_append_dropWhile]
  · exact List.all_eq_true.mp List.all_takeWhile d hd
  · have hnot := List.head?_dropWhile_not p chars
    rw [Option.mem_def.mp hd] at hnot
    exact hnot

/-- Some lexeme that starts with a character is the longest one there. -/
def StartsLexeme (registry : Registry) (c : Char) (tail : List Char) : Prop :=
  ∃ kind text cs rest, tail = cs ++ rest ∧ Lexeme registry kind text (c :: cs) ∧ kind.EndsAt rest

variable {registry : Registry} {n : Nat} {c : Char} {cs rest tail : List Char}

theorem TokenKind.number_endsAt_iff : TokenKind.number.EndsAt rest ↔
    (∀ d ∈ rest.head?, d.isDigit = false) ∧ rest.head? ≠ some '.' := by
  constructor
  · intro h
    refine ⟨fun d hd ↦ (Bool.or_eq_false_iff.mp (h d hd)).1, fun hpoint ↦ ?_⟩
    exact absurd (h '.' hpoint) (by decide)
  · rintro ⟨hdigit, hpoint⟩ d hd
    rw [extendedBy, hdigit d hd, Bool.false_or, beq_eq_false_iff_ne]
    rintro rfl
    exact hpoint hd

/-- A numeral is a lexeme if a decimal can hold it. -/
theorem Numeral.startsLexeme_or_malformed (h : Numeral (c :: cs))
    (hends : TokenKind.number.EndsAt rest) :
    StartsLexeme registry c (cs ++ rest) ∨ ∃ e, Malformed registry n (c :: (cs ++ rest)) e := by
  cases hread : Decimal.read? (.ofList (c :: cs)) with
  | some d => exact .inl ⟨.number, _, cs, rest, rfl, .number h hread, hends⟩
  | none => exact .inr ⟨_, .outOfRange h hread hends⟩

theorem startsLexeme_or_malformed_of_isDigit (hc : c.isDigit = true) (tail : List Char) :
    StartsLexeme registry c tail ∨ ∃ e, Malformed registry n (c :: tail) e := by
  obtain ⟨cs, rest, rfl, hcs, hrest⟩ := exists_longest_run Char.isDigit tail
  have hwhole : ∀ d ∈ c :: cs, d.isDigit = true := List.forall_mem_cons.mpr ⟨hc, hcs⟩
  have hne : c :: cs ≠ [] := List.cons_ne_nil c cs
  by_cases hpoint : rest.head? = some '.'
  · obtain ⟨rest, rfl⟩ := List.head?_eq_some_iff.mp hpoint
    obtain ⟨es, behind, rfl, hes, hbehind⟩ := exists_longest_run Char.isDigit rest
    by_cases hsecond : behind.head? = some '.'
    · obtain ⟨behind, rfl⟩ := List.head?_eq_some_iff.mp hsecond
      exact .inr ⟨_, .secondPoint hne hwhole hes⟩
    have hends := TokenKind.number_endsAt_iff.mpr ⟨hbehind, hsecond⟩
    by_cases hfraction : es = []
    · subst hfraction
      exact .inr ⟨_, .missingFraction hne hwhole hends⟩
    · have hnumeral : Numeral (c :: (cs ++ '.' :: es)) := .fraction hne hwhole hfraction hes
      rw [← List.cons_append, ← List.append_assoc]
      exact hnumeral.startsLexeme_or_malformed hends
  · exact (Numeral.whole hne hwhole).startsLexeme_or_malformed
      (TokenKind.number_endsAt_iff.mpr ⟨hrest, hpoint⟩)

theorem startsLexeme_of_equals {single double : TokenKind} (hsingle : (c, single) ∈ openOperators)
    (hdouble : (c, double) ∈ closedOperators) : StartsLexeme registry c tail := by
  by_cases hequals : tail.head? = some '='
  · obtain ⟨rest, rfl⟩ := List.head?_eq_some_iff.mp hequals
    obtain ⟨-, -, hextended⟩ := TokenKind.of_closedOperator hdouble
    exact ⟨double, _, ['='], rest, rfl, .closedOperator hdouble, fun d _ ↦ hextended d⟩
  · obtain ⟨-, -, hextended⟩ := TokenKind.of_openOperator hsingle
    refine ⟨single, _, [], tail, rfl, .openOperator hsingle, fun d hd ↦ ?_⟩
    rw [hextended, beq_eq_false_iff_ne]
    rintro rfl
    exact hequals hd

theorem startsLexeme_of_openOperator {kind : TokenKind} (h : (c, kind) ∈ openOperators) :
    StartsLexeme registry c tail := by
  have hdouble : ∃ double, (c, double) ∈ closedOperators := by
    simp only [openOperators, List.mem_cons, List.not_mem_nil, or_false, Prod.mk.injEq] at h
    obtain ⟨rfl, -⟩ | ⟨rfl, -⟩ | ⟨rfl, -⟩ := h
    · exact ⟨.notEqual, by simp [closedOperators]⟩
    · exact ⟨.greaterOrEqual, by simp [closedOperators]⟩
    · exact ⟨.lessOrEqual, by simp [closedOperators]⟩
  obtain ⟨double, hdouble⟩ := hdouble
  exact startsLexeme_of_equals h hdouble

theorem startsLexeme_or_malformed_of_brace (tail : List Char) :
    StartsLexeme registry '\x7b' tail ∨ ∃ e, Malformed registry n ('\x7b' :: tail) e := by
  by_cases hstart : ∃ c, tail.head? = some c ∧ startsIdentifier c = true
  case neg =>
    have hnone : ∀ c ∈ tail.head?, startsIdentifier c = false := fun c hc ↦
      Bool.eq_false_iff.mpr fun h ↦ hstart ⟨c, hc, h⟩
    exact .inr ⟨_, .badIdentifierStart hnone⟩
  obtain ⟨c, hhead, hc⟩ := hstart
  obtain ⟨tail, rfl⟩ := List.head?_eq_some_iff.mp hhead
  obtain ⟨cs, rest, rfl, hcs, hrest⟩ := exists_longest_run continuesIdentifier tail
  by_cases hbrace : rest.head? = some '\x7d'
  · obtain ⟨rest, rfl⟩ := List.head?_eq_some_iff.mp hbrace
    refine .inl ⟨.identifier, _, c :: cs ++ ['\x7d'], rest, by simp, .identifier hc hcs, ?_⟩
    exact fun _ _ ↦ rfl
  · exact .inr ⟨_, .missingBrace hc hcs hrest hbrace⟩

theorem startsLexeme_or_malformed_of_isAlpha (hc : c.isAlpha = true) (tail : List Char) :
    StartsLexeme registry c tail ∨ ∃ e, Malformed registry n (c :: tail) e := by
  obtain ⟨cs, rest, rfl, hcs, hrest⟩ := exists_longest_run continuesName tail
  cases hcontains : registry.contains (.ofList ((c :: cs).map Char.toUpper)) with
  | true => exact .inl ⟨.function, _, cs, rest, rfl, .function hc hcs hcontains, hrest⟩
  | false => exact .inr ⟨_, .unknownFunction hc hcs hrest hcontains⟩

theorem startsLexeme_or_malformed (registry : Registry) (n : Nat) (hblank : isBlank c = false)
    (tail : List Char) :
    StartsLexeme registry c tail ∨ ∃ e, Malformed registry n (c :: tail) e := by
  by_cases hdigit : c.isDigit = true
  · exact startsLexeme_or_malformed_of_isDigit hdigit tail
  by_cases halpha : c.isAlpha = true
  · exact startsLexeme_or_malformed_of_isAlpha halpha tail
  by_cases hbrace : c = '\x7b'
  · subst hbrace
    exact startsLexeme_or_malformed_of_brace tail
  by_cases hoperator : ∃ kind, (c, kind) ∈ openOperators
  · obtain ⟨kind, hkind⟩ := hoperator
    exact .inl (startsLexeme_of_openOperator hkind)
  cases hsymbol : TokenKind.ofSymbol? c with
  | some kind =>
    obtain ⟨-, -, hextended⟩ := TokenKind.of_symbol hsymbol
    exact .inl ⟨kind, _, [], tail, rfl, .symbol hsymbol, fun d _ ↦ hextended d⟩
  | none =>
    exact .inr ⟨_, .unrecognized ⟨hblank, Bool.eq_false_iff.mpr hdigit,
      Bool.eq_false_iff.mpr halpha, hbrace, not_exists.mp hoperator, hsymbol⟩⟩

theorem Malformed.exists_cons {e : LexicalError} (h : Malformed registry n rest e) :
    ∃ c tail, rest = c :: tail ∧ isBlank c = false := by
  have hblank {p : Char → Bool} {c : Char} (hc : p c = true) (hspace : p ' ' = false)
      (htab : p '\t' = false) : isBlank c = false := by
    rw [← Bool.not_eq_true, isBlank_iff]
    rintro (rfl | rfl)
    · rw [hspace] at hc
      cases hc
    · rw [htab] at hc
      cases hc
  have hdigits {ds : List Char} (hne : ds ≠ []) (hds : ∀ d ∈ ds, d.isDigit = true)
      (tail : List Char) : ∃ c cs, ds ++ tail = c :: cs ∧ isBlank c = false := by
    obtain ⟨d, ds, rfl⟩ := List.exists_cons_of_ne_nil hne
    exact ⟨d, ds ++ tail, rfl, hblank (hds d List.mem_cons_self) rfl rfl⟩
  cases h with
  | unrecognized hc => exact ⟨_, _, rfl, hc.blank⟩
  | secondPoint hne hds => exact hdigits hne hds _
  | missingFraction hne hds => exact hdigits hne hds _
  | outOfRange hcs =>
    obtain ⟨c, cs, rfl⟩ := List.exists_cons_of_ne_nil hcs.ne_nil
    exact ⟨c, _, rfl, hblank hcs.isDigit_head rfl rfl⟩
  | badIdentifierStart => exact ⟨_, _, rfl, rfl⟩
  | missingBrace => exact ⟨_, _, rfl, rfl⟩
  | unknownFunction hc => exact ⟨_, _, rfl, hblank hc rfl rfl⟩

theorem Malformed.isBlank_head {e : LexicalError} (h : Malformed registry n rest e) :
    ∀ b ∈ rest.head?, isBlank b = false := by
  obtain ⟨c, tail, rfl, hc⟩ := h.exists_cons
  rintro b ⟨⟩
  exact hc

end DecimalFormula
