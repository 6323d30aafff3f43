import DecimalFormula.Proofs.Engine.Reading
import DecimalFormula.Proofs.Parsing.Position
import DecimalFormula.Proofs.Scanning.Layout

/-!
# Formulas in another layout

What an engine makes of a formula is considered here without the formula's text and without spans:
as the shape of its tree, or of the error in place of a tree (`Engine.shape`), and as its value or
error (`Engine.outcome`). The outcome depends on the shape alone (`Engine.outcome_eq`).

A formula in another layout has the same tokens but for their spans. A parser looks at no span, so
the shape is the same, and with it the outcome (`Engine.layout_irrelevant`).
-/

namespace DecimalFormula

/-- A lexical error as it would be anywhere else. -/
def LexicalError.withoutSpan (e : LexicalError) : LexicalError := { e with span := .emptyAt 0 }

/-- An error without the text it is about and without its places in that text. -/
def Error.withoutPlaces : Error → Error
  | lexical _ error => lexical "" error.withoutSpan
  | parse _ error => parse "" error.withoutSpans
  | evaluation _ error => evaluation none error.withoutSpans
  | file error => file error

namespace Engine

variable {e : Engine} {bindings : Bindings} {formula formula' : String} {tree : Tree}

/-- The tree of a formula without its spans. -/
def shape (e : Engine) (formula : String) : Except Error Tree :=
  ((e.parse formula).map Tree.withoutSpans).mapError Error.withoutPlaces

def outcome (e : Engine) (bindings : Bindings) (formula : String) : Except Error Decimal :=
  (e.evalFormula bindings formula).mapError Error.withoutPlaces

theorem shape_of_parse (h : e.parse formula = .ok tree) :
    e.shape formula = .ok tree.withoutSpans := by
  rw [shape, h]
  rfl

theorem outcome_eq (e : Engine) (bindings : Bindings) (formula : String) :
    e.outcome bindings formula = (e.shape formula).bind (e.evaluate bindings) := by
  rw [outcome, evalFormula, shape]
  cases e.parse formula with
  | error error => rfl
  | ok tree =>
    have hevaluate : e.evaluate bindings tree.withoutSpans =
        ((e.evaluate bindings tree).mapError (.withSource formula)).mapError
          Error.withoutPlaces := by
      rw [evaluate, evaluate, Tree.evaluate_withoutSpans]
      cases tree.evaluate e.registry bindings <;> rfl
    exact hevaluate.symm

theorem shape_of_scan {tokens : List Token} (h : Lexer.scan e.registry formula = .ok tokens) :
    e.shape formula = (((Tree.ofTokens e.registry e.limit tokens).map Tree.withoutSpans).mapError
      ParseError.withoutSpans).mapError (.parse "") := by
  rw [shape, parse_of_scan h]
  cases Tree.ofTokens e.registry e.limit tokens <;> rfl

/-- What is scanned as the tokens of a derivation has, but for spans, the shape of its tree. -/
theorem shape_of_sameWords {us ts : List Token} {n : UInt32}
    (hscan : Lexer.scan e.registry formula = .ok (us ++ [.endAt n])) (hsame : SameWords us ts)
    (hderives : DerivesWithin e.limit .disjunction ts tree)
    (haccepted : tree.Accepted e.registry) : e.shape formula = .ok tree.withoutSpans := by
  have hparse : Tree.ofTokens e.registry e.limit (ts ++ [.endAt 0]) = .ok tree :=
    (Tree.ofTokens_append_eq_ok_iff (fun t ht ↦ hderives.isEnd_eq_false ht) rfl).mpr
      ⟨hderives, haccepted⟩
  have hwords : SameWords (us ++ [.endAt n]) (ts ++ [.endAt 0]) := hsame.append rfl
  rw [shape_of_scan hscan, Tree.ofTokens_eq_of_sameWords hwords, hparse]
  rfl

/-- **Layout.** Let blanks be put into a formula that can be scanned, in front of its lexemes or
behind the last one, and let the letter case of its function names be changed. The result can be
scanned, and its tokens have the same kinds and texts. Under every limit it is parsed as the same
tree but for the spans, or refused at the same token for the same reason; and under any bindings it
has the same value, or an error with the same cause and the same operators in its frames. -/
theorem layout_irrelevant {registry : Registry} (h : Relaid registry formula formula') :
    (∃ tokens tokens', Lexer.scan registry formula = .ok tokens ∧
      Lexer.scan registry formula' = .ok tokens' ∧ SameWords tokens' tokens) ∧
    ∀ limit, (Engine.mk registry limit).shape formula' = (Engine.mk registry limit).shape formula ∧
      ∀ bindings, (Engine.mk registry limit).outcome bindings formula' =
        (Engine.mk registry limit).outcome bindings formula := by
  obtain ⟨tokens, tokens', hscan, hscan', hsame⟩ := h.exists_scan
  refine ⟨⟨tokens, tokens', hscan, hscan', hsame⟩, fun limit ↦ ?_⟩
  have hshape : (Engine.mk registry limit).shape formula' =
      (Engine.mk registry limit).shape formula := by
    rw [shape_of_scan (e := ⟨registry, limit⟩) hscan', Tree.ofTokens_eq_of_sameWords hsame,
      shape_of_scan (e := ⟨registry, limit⟩) hscan]
  refine ⟨hshape, fun bindings ↦ ?_⟩
  rw [outcome_eq, outcome_eq, hshape]

/-- A call of `abs` is the same with blanks in it and with a capital letter. -/
theorem layout_irrelevant_call :
    Relaid .standard "abs(1)" "\tAbs( 1) " ∧
      standard.shape "\tAbs( 1) " = standard.shape "abs(1)" ∧
      standard.outcome .empty "\tAbs( 1) " = standard.outcome .empty "abs(1)" := by
  let ps : List Piece := [⟨[], .function, "ABS", ['a', 'b', 's']⟩, ⟨[], .leftParen, "(", ['(']⟩,
    ⟨[], .number, "1", ['1']⟩, ⟨[], .rightParen, ")", [')']⟩]
  let qs : List Piece := [⟨['\t'], .function, "ABS", ['A', 'b', 's']⟩, ⟨[], .leftParen, "(", ['(']⟩,
    ⟨[' '], .number, "1", ['1']⟩, ⟨[], .rightParen, ")", [')']⟩]
  have hnone : ∀ b ∈ ([] : List Char), isBlank b = true := List.forall_mem_nil _
  have hblank {b : Char} (hb : isBlank b = true) : ∀ c ∈ [b], isBlank c = true :=
    List.forall_mem_singleton.mpr hb
  have habs : Lexeme .standard .function "ABS" ['a', 'b', 's'] :=
    @Lexeme.function _ 'a' ['b', 's'] rfl (List.all_eq_true.mp rfl) (by decide +kernel)
  have hone : Lexeme .standard .number "1" ['1'] :=
    .number (d := ⟨false, 1, 0, by decide, by decide⟩)
      (.whole (List.cons_ne_nil _ _) (List.all_eq_true.mp rfl)) (by decide)
  have hsplit : Split .standard "abs(1)" ps [] [] := by
    refine ⟨rfl, .cons ⟨hnone, habs, ?_⟩ <| .cons ⟨hnone, .symbol rfl, ?_⟩ <|
      .cons ⟨hnone, hone, ?_⟩ <| .cons ⟨hnone, .symbol rfl, ?_⟩ .nil, hnone⟩ <;>
    rintro c ⟨⟩ <;> rfl
  have hrelaid : Relaid .standard "abs(1)" "\tAbs( 1) " := by
    refine ⟨ps, qs, [], [' '], hsplit, ?_, List.nil_sublist _, hblank rfl, rfl⟩
    exact .cons ⟨rfl, rfl, List.nil_sublist _, hblank rfl, .inr ⟨rfl, rfl⟩⟩ <|
      .cons (.refl hnone) <| .cons ⟨rfl, rfl, List.nil_sublist _, hblank rfl, .inl rfl⟩ <|
      .cons (.refl hnone) .nil
  obtain ⟨hshape, houtcome⟩ := (layout_irrelevant hrelaid).2 Parser.defaultLimit
  exact ⟨hrelaid, hshape, houtcome .empty⟩

end Engine

end DecimalFormula
