import DecimalFormula.Proofs.Parsing.Limit
import DecimalFormula.Proofs.Tree.Spans

/-!
# A parser looks at no span

A parser decides by the kinds of tokens, and by the texts of function names. Where the tokens stand
makes a difference to the spans of what it answers, and to nothing else: on tokens without spans it
takes the same steps and gives the same answer without spans (`Tree.ofTokens_withoutSpan`). That
includes its errors, with the tokens and the numbers in them.

Every step of the parser is shown to commute with taking the spans away, and
`Outcome.withoutSpans_andThen` puts the steps together. Nodes merge spans; empty ones stay empty.
-/

namespace DecimalFormula

/-! ## Without spans -/

/-- A cursor in the same tokens without spans. -/
def TokenCursor.withoutSpans (c : TokenCursor) : TokenCursor :=
  ⟨c.index, c.current.withoutSpan, c.ahead.map Token.withoutSpan⟩

/-- A complaint about the same token without its span. -/
def ParseCause.withoutSpans : ParseCause → ParseCause
  | unexpectedToken token expected => unexpectedToken token.withoutSpan expected
  | incompleteParse token => incompleteParse token.withoutSpan
  | cause => cause

/-- A parse error as it would be anywhere else. -/
def ParseError.withoutSpans (e : ParseError) : ParseError :=
  ⟨e.cause.withoutSpans, .emptyAt 0, e.index⟩

namespace Outcome

variable {α β γ δ : Type}

/-- An outcome without spans, given how to take them away from what was read. -/
def withoutSpans (erase : α → β) : Outcome α → Outcome β
  | done value cursor => done (erase value) cursor.withoutSpans
  | stop error cursor headroom => stop error.withoutSpans cursor.withoutSpans headroom

/-- Steps that commute with taking the spans away do so one after the other. -/
theorem withoutSpans_andThen {erase : α → β} {erase' : γ → δ} {outcome : Outcome α}
    {next : α → TokenCursor → Outcome γ} {next' : β → TokenCursor → Outcome δ}
    (h : ∀ a c, next' (erase a) c.withoutSpans = (next a c).withoutSpans erase') :
    (outcome.withoutSpans erase).andThen next' =
      (outcome.andThen next).withoutSpans erase' := by
  cases outcome with
  | done a c => exact h a c
  | stop => rfl

end Outcome

@[simp] theorem Token.withoutSpan_isEnd (t : Token) : t.withoutSpan.isEnd = t.isEnd := rfl

/-! ## Nodes -/

namespace Tree

theorem span_withoutSpans (tree : Tree) : (withoutSpans tree).span = .emptyAt 0 := by
  cases tree <;> rfl

theorem withoutSpans_mkUnary (o : UnaryOp) (t : Token) (x : Tree) :
    (mkUnary o t x).withoutSpans = mkUnary o t.withoutSpan x.withoutSpans := by
  rw [mkUnary, mkUnary, span_withoutSpans]
  rfl

theorem withoutSpans_mkBinary (o : BinaryOp) (t : Token) (x y : Tree) :
    (mkBinary o t x y).withoutSpans = mkBinary o t.withoutSpan x.withoutSpans y.withoutSpans := by
  rw [mkBinary, mkBinary, span_withoutSpans, span_withoutSpans]
  rfl

end Tree

/-! ## Cursors -/

namespace TokenCursor

variable (c : TokenCursor)

@[simp] theorem kind_withoutSpans : c.withoutSpans.kind = c.kind := rfl

@[simp] theorem current_withoutSpans : c.withoutSpans.current = c.current.withoutSpan := rfl

@[simp] theorem advance_withoutSpans : c.withoutSpans.advance = c.advance.withoutSpans := by
  obtain ⟨i, t, ts⟩ := c
  cases ts with
  | nil => rfl
  | cons u us =>
    simp only [advance, withoutSpans, List.map_cons, Token.withoutSpan_isEnd]
    split <;> rfl

theorem length_tokens_withoutSpans : c.withoutSpans.tokens.length = c.tokens.length := by
  simp [tokens, withoutSpans]

theorem closed_map_withoutSpan (tokens : List Token) :
    closed (tokens.map Token.withoutSpan) = (closed tokens).map Token.withoutSpan := by
  rw [closed, closed, List.getLast?_map]
  cases tokens.getLast? with
  | none => rfl
  | some last =>
    rw [Option.map_some]
    dsimp only
    rw [Token.withoutSpan_isEnd]
    split
    · rfl
    · rw [List.map_append]
      rfl

theorem start_map_withoutSpan (tokens : List Token) :
    start (tokens.map Token.withoutSpan) = (start tokens).withoutSpans := by
  rw [start, start, closed_map_withoutSpan]
  cases closed tokens <;> rfl

end TokenCursor

/-! ## Steps of a parser -/

namespace Parser

open Outcome

variable {registry : Registry} {limit headroom : Nat} {c : TokenCursor}
  {argument : TokenCursor → Outcome Tree}

theorem mismatch_withoutSpans (expected : List TokenKind) :
    mismatch c.withoutSpans expected = (mismatch c expected).withoutSpans := by
  rw [mismatch, mismatch, TokenCursor.current_withoutSpans, Token.withoutSpan_isEnd]
  split <;> rfl

theorem unexpected_withoutSpans {α β : Type} (erase : α → β) (expected : List TokenKind) :
    unexpected expected headroom c.withoutSpans =
      (unexpected expected headroom c).withoutSpans erase := by
  rw [unexpected, mismatch_withoutSpans]
  rfl

theorem expect_withoutSpans (kind : TokenKind) :
    expect kind headroom c.withoutSpans =
      (expect kind headroom c).withoutSpans Token.withoutSpan := by
  rw [expect, expect, TokenCursor.kind_withoutSpans]
  split
  · rw [TokenCursor.advance_withoutSpans]
    rfl
  · exact unexpected_withoutSpans _ _

/-- The parser of an argument commutes with taking the spans away. -/
def IgnoresSpans (argument : TokenCursor → Outcome Tree) : Prop :=
  ∀ c, argument c.withoutSpans = (argument c).withoutSpans Tree.withoutSpans

theorem moreArguments_withoutSpans (h : IgnoresSpans argument) (fuel : Nat) (c : TokenCursor) :
    moreArguments argument fuel c.withoutSpans =
      (moreArguments argument fuel c).withoutSpans (List.map Tree.withoutSpans) := by
  induction fuel generalizing c with
  | zero => rfl
  | succ fuel ih =>
    rw [moreArguments, moreArguments, TokenCursor.kind_withoutSpans]
    split
    · rw [TokenCursor.advance_withoutSpans, h]
      refine withoutSpans_andThen fun x c ↦ ?_
      rw [ih]
      exact withoutSpans_andThen fun xs c ↦ rfl
    · rfl

theorem arguments_withoutSpans (h : IgnoresSpans argument) (c : TokenCursor) :
    arguments argument c.withoutSpans =
      (arguments argument c).withoutSpans (List.map Tree.withoutSpans) := by
  rw [arguments, arguments, TokenCursor.kind_withoutSpans]
  split
  · rfl
  · rw [h]
    refine withoutSpans_andThen fun x c ↦ ?_
    rw [TokenCursor.length_tokens_withoutSpans, moreArguments_withoutSpans h]
    exact withoutSpans_andThen fun xs c ↦ rfl

theorem finishCall_withoutSpans (name : Token) (args : List Tree) (c : TokenCursor) :
    finishCall registry headroom name.withoutSpan (args.map Tree.withoutSpans) c.withoutSpans =
      (finishCall registry headroom name args c).withoutSpans Tree.withoutSpans := by
  rw [finishCall, finishCall, TokenCursor.kind_withoutSpans, Token.withoutSpan_text,
    List.length_map]
  split
  · cases registry.arity? name.text with
    | none => rfl
    | some arity =>
      dsimp only
      split
      · -- The spans of the name and the parenthesis are empty, and so is what they cover.
        rw [TokenCursor.advance_withoutSpans, Outcome.withoutSpans, Tree.withoutSpans,
          Tree.withoutSpansAll_eq]
        rfl
      · rfl
  · exact unexpected_withoutSpans _ _

theorem primary_withoutSpans (h : IgnoresSpans argument) (c : TokenCursor) :
    primary registry headroom argument c.withoutSpans =
      (primary registry headroom argument c).withoutSpans Tree.withoutSpans := by
  rw [primary, primary, TokenCursor.kind_withoutSpans]
  split
  · rw [TokenCursor.advance_withoutSpans]
    rfl
  · rw [TokenCursor.advance_withoutSpans]
    rfl
  · rw [TokenCursor.advance_withoutSpans, expect_withoutSpans]
    refine withoutSpans_andThen fun _ c' ↦ ?_
    rw [arguments_withoutSpans h]
    exact withoutSpans_andThen fun args c' ↦ finishCall_withoutSpans _ args c'
  · rw [TokenCursor.advance_withoutSpans, h]
    refine withoutSpans_andThen fun x c' ↦ ?_
    rw [expect_withoutSpans]
    exact withoutSpans_andThen fun _ c' ↦ rfl
  · exact unexpected_withoutSpans _ _

/-- By induction on the headroom: every step commutes with taking the spans away. -/
theorem parseLevel_withoutSpans (registry : Registry) (limit headroom : Nat) (level : Level)
    (c : TokenCursor) : parseLevel registry limit headroom level c.withoutSpans =
      (parseLevel registry limit headroom level c).withoutSpans Tree.withoutSpans := by
  induction headroom generalizing level c with
  | zero => rw [parseLevel, parseLevel]; rfl
  | succ headroom ih =>
    by_cases hlevel : level = .primary
    · subst hlevel
      rw [parseLevel_primary, parseLevel_primary]
      exact primary_withoutSpans (ih .disjunction) c
    rw [parseLevel_succ hlevel, parseLevel_succ hlevel, TokenCursor.kind_withoutSpans]
    split
    · rw [TokenCursor.advance_withoutSpans, ih]
      refine withoutSpans_andThen fun x c' ↦ ?_
      rw [Outcome.withoutSpans, Tree.withoutSpans_mkUnary]
      rfl
    · rw [ih]
      refine withoutSpans_andThen fun x c' ↦ ?_
      rw [TokenCursor.kind_withoutSpans]
      split
      · rfl
      · rw [TokenCursor.advance_withoutSpans, ih]
        refine withoutSpans_andThen fun y c'' ↦ ?_
        rw [Outcome.withoutSpans, Tree.withoutSpans_mkBinary]
        rfl

end Parser

/-! ## Whole formulas -/

theorem Outcome.answer_withoutSpans (outcome : Outcome Tree) :
    (outcome.withoutSpans Tree.withoutSpans).answer =
      (outcome.answer.map Tree.withoutSpans).mapError ParseError.withoutSpans := by
  cases outcome with
  | stop => rfl
  | done tree c =>
    rw [withoutSpans, answer, answer, TokenCursor.current_withoutSpans, Token.withoutSpan_isEnd]
    split <;> rfl

namespace Tree

theorem ofTokens_withoutSpan (registry : Registry) (limit : Nat) (tokens : List Token) :
    ofTokens registry limit (tokens.map Token.withoutSpan) =
      ((ofTokens registry limit tokens).map withoutSpans).mapError ParseError.withoutSpans := by
  rw [ofTokens_eq_answer, ofTokens_eq_answer, TokenCursor.start_map_withoutSpan,
    Parser.parseLevel_withoutSpans, Outcome.answer_withoutSpans]

theorem ofTokens_eq_of_sameWords {us ts : List Token} (h : SameWords us ts) (registry : Registry)
    (limit : Nat) :
    ((ofTokens registry limit us).map withoutSpans).mapError ParseError.withoutSpans =
      ((ofTokens registry limit ts).map withoutSpans).mapError ParseError.withoutSpans := by
  rw [← ofTokens_withoutSpan, h, ofTokens_withoutSpan]

end Tree

end DecimalFormula
