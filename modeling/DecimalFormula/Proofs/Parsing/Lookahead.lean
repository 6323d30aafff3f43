import DecimalFormula.Proofs.Parsing.Stepping
import DecimalFormula.Proofs.Parsing.Vocabulary

/-!
# A parser looks at nothing behind its cursor

Every decision of a parser is made by the current token, and every token that was current before has
been passed. So where a run stops, with a tree or with an error, the tokens behind are still unread:
over any other list of tokens that agrees with the first one up to that place, the run is the same
(`Parser.parse_looks_no_further`). In particular a parser never looks behind an end of input.

## Two runs at once

Two cursors agree up to a position if they stand at the same token and have the same tokens ahead up
to that position (`TokenCursor.AgreeTo`). One outcome mirrors another if it is the same as long as
that other one has not gone beyond the position (`Outcome.Mirrors`). That runs only go forward is
part of this, for otherwise a part of a run might have looked further than the whole of it.

The second run may know more functions than the first one. Then it mirrors all outcomes of the first
one but the complaints about calls. This serves to compare a run with the grammar, which permits all
calls.
-/

namespace DecimalFormula

variable {registry registry' : Registry} {limit headroom n reach fuel fuel' : Nat}
  {c c' d d' : TokenCursor} {formula formula' : TokenCursor → Outcome Tree}

/-! ## Registries that accept more -/

/-- Whatever calls the first registry accepts the second one accepts too. -/
def Registry.RelaxedBy (registry registry' : Registry) : Prop :=
  ∀ name arity n, registry.arity? name = some arity → arity.accepts n = true →
    ∃ arity', registry'.arity? name = some arity' ∧ arity'.accepts n = true

theorem Registry.RelaxedBy.refl (registry : Registry) : registry.RelaxedBy registry :=
  fun _ arity _ harity haccepts ↦ ⟨arity, harity, haccepts⟩

/-! ## Cursors that agree up to a position -/

namespace TokenCursor

/-- Both cursors stand at the same token, and up to a position the tokens ahead are the same. -/
structure AgreeTo (reach : Nat) (c c' : TokenCursor) : Prop where
  /-- The tokens of the first cursor end with an end of input. -/
  closed : c.Closed
  /-- So do those of the second one. -/
  closed' : c'.Closed
  /-- They have passed the same number of tokens. -/
  index_eq : c'.index = c.index
  /-- They stand at the same token. -/
  current_eq : c'.current = c.current
  /-- The tokens ahead agree as far as the position. -/
  tokens_eq : ∀ k, c.index + k ≤ reach → c'.tokens[k]? = c.tokens[k]?

namespace AgreeTo

theorem refl (hc : c.Closed) : AgreeTo reach c c := ⟨hc, hc, rfl, rfl, fun _ _ ↦ rfl⟩

theorem kind_eq (h : AgreeTo reach c c') : c'.kind = c.kind := congrArg Token.kind h.current_eq

theorem advance (h : AgreeTo reach c c') (hkind : c.kind ≠ .endOfInput)
    (hreach : c.advance.index ≤ reach) : AgreeTo reach c.advance c'.advance := by
  have hpass := h.closed.passes_advance hkind
  have hpass' := h.closed'.passes_advance (h.kind_eq ▸ hkind)
  have hindex : c.advance.index = c.index + 1 := hpass.index_eq
  have hindex' : c'.advance.index = c'.index + 1 := hpass'.index_eq
  have hahead : ∀ k, c.index + 1 + k ≤ reach → c'.advance.tokens[k]? = c.advance.tokens[k]? := by
    intro k hk
    have htokens := h.tokens_eq (k + 1) (by omega)
    rwa [hpass.tokens_eq, hpass'.tokens_eq, List.singleton_append, List.singleton_append,
      List.getElem?_cons_succ, List.getElem?_cons_succ] at htokens
  refine ⟨hpass.closed h.closed, hpass'.closed h.closed', ?_, ?_, ?_⟩
  · rw [hindex, hindex', h.index_eq]
  · exact Option.some.inj (hahead 0 (by omega))
  · rw [hindex]
    exact hahead

end AgreeTo

end TokenCursor

open TokenCursor

/-! ## Outcomes that mirror one another -/

namespace Outcome

variable {α β : Type} {outcome outcome' outcome'' : Outcome α}

/-- From a cursor on the first run goes forward. If it does not go beyond a position, and unless it
stops with a complaint about a call and the registries differ, the second run is the same. -/
def Mirrors (registry registry' : Registry) (reach : Nat) (c : TokenCursor)
    (outcome outcome' : Outcome α) : Prop :=
  match outcome with
  | done x d => c.index ≤ d.index ∧ d.Closed ∧
      (d.index ≤ reach → ∃ d', outcome' = done x d' ∧ AgreeTo reach d d')
  | stop e d left => c.index ≤ d.index ∧
      (d.index ≤ reach → registry' = registry ∨ e.cause.isAboutCall = false →
        ∃ d', outcome' = stop e d' left ∧ d'.index = d.index)

namespace Mirrors

theorem ofDone (x : α) (h : AgreeTo reach c c') :
    Mirrors registry registry' reach c (done x c) (done x c') :=
  ⟨Nat.le_refl _, h.closed, fun _ ↦ ⟨c', rfl, h⟩⟩

theorem ofFail (cause : ParseCause) (span : Span) (headroom : Nat) (h : AgreeTo reach c c') :
    Mirrors (α := α) registry registry' reach c (Parser.fail cause span headroom c)
      (Parser.fail cause span headroom c') := by
  refine ⟨Nat.le_refl _, fun _ _ ↦ ⟨c', ?_, h.index_eq⟩⟩
  rw [Parser.fail, h.index_eq]

theorem of_le (hle : c.index ≤ d.index) (h : Mirrors registry registry' reach d outcome outcome') :
    Mirrors registry registry' reach c outcome outcome' := by
  cases outcome with
  | done x d₁ => exact ⟨Nat.le_trans hle h.1, h.2⟩
  | stop e d₁ left => exact ⟨Nat.le_trans hle h.1, h.2⟩

/-- A run that starts beyond the position ends there, so the second one may be anything. -/
theorem of_beyond (hbeyond : reach < c.index)
    (h : Mirrors registry registry' reach c outcome outcome') :
    Mirrors registry registry' reach c outcome outcome'' := by
  cases outcome with
  | done x d₁ => exact ⟨h.1, h.2.1, fun hle ↦ absurd (Nat.le_trans h.1 hle) (by omega)⟩
  | stop e d₁ left => exact ⟨h.1, fun hle ↦ absurd (Nat.le_trans h.1 hle) (by omega)⟩

/-- **Sequences.** Runs that follow one another are mirrored if each of them is. -/
theorem andThen {next next' : α → TokenCursor → Outcome β}
    (h : Mirrors registry registry' reach c outcome outcome')
    (hnext : ∀ x d d', AgreeTo reach d d' →
      Mirrors registry registry' reach d (next x d) (next' x d')) :
    Mirrors registry registry' reach c (outcome.andThen next) (outcome'.andThen next') := by
  cases outcome with
  | done x d =>
    obtain ⟨hle, hclosed, hsame⟩ := h
    refine of_le hle ?_
    by_cases hreach : d.index ≤ reach
    · obtain ⟨d', rfl, hagree⟩ := hsame hreach
      exact hnext x d d' hagree
    · exact of_beyond (Nat.not_le.mp hreach) (hnext x d d (.refl hclosed))
  | stop e d left =>
    refine ⟨h.1, fun hreach hcause ↦ ?_⟩
    obtain ⟨d', rfl, hindex⟩ := h.2 hreach hcause
    exact ⟨d', rfl, hindex⟩

theorem behind {run run' : TokenCursor → Outcome α} (h : AgreeTo reach c c')
    (hkind : c.kind ≠ .endOfInput)
    (hrun : ∀ d d', AgreeTo reach d d' → Mirrors registry registry' reach d (run d) (run' d')) :
    Mirrors registry registry' reach c (run c.advance) (run' c'.advance) := by
  have hpass := h.closed.passes_advance hkind
  have hle : c.index ≤ c.advance.index := by
    rw [hpass.index_eq]
    exact Nat.le_add_right _ _
  refine of_le hle ?_
  by_cases hreach : c.advance.index ≤ reach
  · exact hrun _ _ (h.advance hkind hreach)
  · exact of_beyond (Nat.not_le.mp hreach) (hrun _ _ (.refl (hpass.closed h.closed)))

end Mirrors

end Outcome

/-! ## The functions of the parser, one by one -/

namespace Parser

open Outcome

theorem unexpected_mirrors {α : Type} (expected : List TokenKind) (h : AgreeTo reach c c') :
    Mirrors (α := α) registry registry' reach c (unexpected expected headroom c)
      (unexpected expected headroom c') := by
  have hmismatch : mismatch c' expected = mismatch c expected := by
    rw [mismatch, mismatch, h.current_eq]
  rw [unexpected, unexpected, hmismatch, h.current_eq]
  exact .ofFail _ _ _ h

theorem expect_mirrors {kind : TokenKind} (hkind : kind ≠ .endOfInput) (h : AgreeTo reach c c') :
    Mirrors registry registry' reach c (expect kind headroom c) (expect kind headroom c') := by
  rw [expect, expect, h.kind_eq]
  split
  · next hcurrent =>
    rw [h.current_eq]
    exact .behind h (hcurrent ▸ hkind) fun d d' hd ↦ .ofDone c.current hd
  · exact unexpected_mirrors _ h

/-- Fuel for all the tokens ahead is as good as any other. -/
theorem moreArguments_fuel (hformula : FormulaSpec registry limit n formula) (hc : c.Closed)
    (hfuel : c.ahead.length ≤ fuel) (hfuel' : c.ahead.length ≤ fuel') :
    moreArguments formula fuel c = moreArguments formula fuel' c := by
  -- Without fuel there is nothing ahead, so no comma either.
  have hend : ∀ {k : Nat} {d : TokenCursor}, d.Closed → d.ahead.length ≤ 0 →
      moreArguments formula k d = .done [] d := by
    intro k d hd hzero
    have hcomma : d.kind ≠ .comma := by
      intro hcomma
      refine hd.ahead_ne_nil (by rw [hcomma]; decide) ?_
      exact List.length_eq_zero_iff.mp (Nat.le_zero.mp hzero)
    cases k with
    | zero => rfl
    | succ k => rw [moreArguments, if_neg hcomma]
  induction fuel generalizing c fuel' with
  | zero => rw [hend hc hfuel, hend hc hfuel]
  | succ fuel ih =>
    cases fuel' with
    | zero => rw [hend hc hfuel', hend hc hfuel']
    | succ fuel' =>
      rw [moreArguments, moreArguments]
      split
      · next hcomma =>
        have hpass := hc.passes_advance (by rw [hcomma]; decide)
        have hlength := hpass.length_ahead
        rw [List.length_singleton] at hlength
        have hclosed := hpass.closed hc
        refine (hformula _ hclosed).andThen_congr fun ts x d hx ↦ ?_
        have hlength' := hx.length_ahead
        have hrest : moreArguments formula fuel d = moreArguments formula fuel' d :=
          ih (hx.closed hclosed) (by omega) (by omega)
        rw [hrest]
      · rfl

/-- What the lemmas on calls and parentheses need to know of two functions for formulas: what they
pass, and that the second one mirrors the first. -/
structure Mirrored (registry registry' : Registry) (limit n reach : Nat)
    (formula formula' : TokenCursor → Outcome Tree) : Prop where
  /-- A formula is read from tokens that are passed. -/
  spec : FormulaSpec registry limit n formula
  /-- So it is by the second function. -/
  spec' : FormulaSpec registry' limit n formula'
  /-- From cursors that agree on, the second run mirrors the first one. -/
  mirrors : ∀ c c', AgreeTo reach c c' →
    Mirrors registry registry' reach c (formula c) (formula' c')

theorem moreArguments_mirrors
    (hformula : Mirrored registry registry' limit n reach formula formula') (fuel : Nat)
    (h : AgreeTo reach c c') :
    Mirrors registry registry' reach c (moreArguments formula fuel c)
      (moreArguments formula' fuel c') := by
  induction fuel generalizing c c' with
  | zero => exact .ofDone [] h
  | succ fuel ih =>
    rw [moreArguments, moreArguments, h.kind_eq]
    split
    · next hcomma =>
      refine .andThen (.behind h (by rw [hcomma]; decide) hformula.mirrors) fun x d d' hd ↦ ?_
      exact .andThen (ih hd) fun xs e e' he ↦ .ofDone _ he
    · exact .ofDone [] h

theorem arguments_mirrors (hformula : Mirrored registry registry' limit n reach formula formula')
    (h : AgreeTo reach c c') : Mirrors registry registry' reach c (arguments formula c)
      (arguments formula' c') := by
  rw [arguments, arguments, h.kind_eq]
  split
  · exact .ofDone [] h
  · refine .andThen (hformula.mirrors c c' h) fun x d d' hd ↦ ?_
    -- The fuel is the number of tokens ahead, which need not be the same for both runs.
    let enough := d.tokens.length + d'.tokens.length
    have hahead : d.ahead.length ≤ d.tokens.length := Nat.le_succ _
    have hahead' : d'.ahead.length ≤ d'.tokens.length := Nat.le_succ _
    have hmore : moreArguments formula d.tokens.length d = moreArguments formula enough d :=
      moreArguments_fuel hformula.spec hd.closed hahead (Nat.le_add_right_of_le hahead)
    have hmore' : moreArguments formula' d'.tokens.length d' = moreArguments formula' enough d' :=
      moreArguments_fuel hformula.spec' hd.closed' hahead' (Nat.le_add_left_of_le hahead')
    rw [hmore, hmore']
    exact .andThen (moreArguments_mirrors hformula _ hd) fun xs e e' he ↦ .ofDone _ he

theorem finishCall_mirrors (hrelaxed : registry.RelaxedBy registry') (name : Token)
    (args : List Tree) (h : AgreeTo reach c c') :
    Mirrors registry registry' reach c (finishCall registry headroom name args c)
      (finishCall registry' headroom name args c') := by
  -- A complaint about the call is mirrored only by the registry that makes it.
  have hcall : ∀ {cause span} {second : Outcome Tree}, cause.isAboutCall = true →
      (registry' = registry → second = fail cause span headroom c') →
      Mirrors registry registry' reach c (fail cause span headroom c) second := by
    intro cause span second hcause hsecond
    refine ⟨Nat.le_refl _, fun _ hor ↦ ?_⟩
    rcases hor with hregistry | hnot
    · rw [hsecond hregistry, fail, h.index_eq]
      exact ⟨c', rfl, h.index_eq⟩
    · exact absurd (hnot.symm.trans hcause) (by decide)
  by_cases hclose : c.kind = .rightParen
  · rw [finishCall, finishCall, if_pos hclose, if_pos (h.kind_eq.trans hclose), h.current_eq]
    cases harity : registry.arity? name.text with
    | none =>
      refine hcall rfl ?_
      rintro rfl
      rw [harity]
    | some arity =>
      dsimp only
      by_cases haccepts : arity.accepts args.length = true
      · obtain ⟨arity', harity', haccepts'⟩ := hrelaxed _ _ _ harity haccepts
        rw [harity', if_pos haccepts]
        dsimp only
        rw [if_pos haccepts']
        exact .behind h (by rw [hclose]; decide) fun d d' hd ↦ .ofDone _ hd
      · rw [if_neg haccepts]
        refine hcall rfl ?_
        rintro rfl
        rw [harity]
        exact if_neg haccepts
  · rw [finishCall, finishCall, if_neg hclose, if_neg (h.kind_eq ▸ hclose)]
    exact unexpected_mirrors _ h

theorem primary_mirrors (hrelaxed : registry.RelaxedBy registry')
    (hformula : Mirrored registry registry' limit n reach formula formula')
    (h : AgreeTo reach c c') :
    Mirrors registry registry' reach c (primary registry headroom formula c)
      (primary registry' headroom formula' c') := by
  have hne : ∀ {kind : TokenKind}, c.kind = kind → kind ≠ .endOfInput → c.kind ≠ .endOfInput :=
    fun hkind hne ↦ hkind ▸ hne
  rw [primary, primary, h.kind_eq, h.current_eq]
  split
  · next hkind => exact .behind h (hne hkind (by decide)) fun d d' hd ↦ .ofDone _ hd
  · next hkind => exact .behind h (hne hkind (by decide)) fun d d' hd ↦ .ofDone _ hd
  · next hkind =>
    have hopening : Mirrors registry registry' reach c (expect .leftParen headroom c.advance)
        (expect .leftParen headroom c'.advance) :=
      .behind h (hne hkind (by decide)) fun d d' hd ↦ expect_mirrors (by decide) hd
    refine .andThen hopening fun _ d d' hd ↦ .andThen (arguments_mirrors hformula hd) ?_
    exact fun args e e' he ↦ finishCall_mirrors hrelaxed c.current args he
  · next hkind =>
    refine .andThen (.behind h (hne hkind (by decide)) hformula.mirrors) fun x d d' hd ↦ ?_
    exact .andThen (expect_mirrors (by decide) hd) fun _ e e' he ↦ .ofDone x he
  · exact unexpected_mirrors _ h

/-- **Runs that agree are alike**, by induction on the headroom. -/
theorem parseLevel_mirrors (hrelaxed : registry.RelaxedBy registry') (level : Level)
    (h : AgreeTo reach c c') :
    Mirrors registry registry' reach c (parseLevel registry limit headroom level c)
      (parseLevel registry' limit headroom level c') := by
  induction headroom generalizing c c' level with
  | zero =>
    rw [parseLevel, parseLevel, h.current_eq]
    exact .ofFail _ _ _ h
  | succ headroom ih =>
    by_cases hlevel : level = .primary
    · subst hlevel
      have hformula : Mirrored registry registry' limit headroom reach
          (parseLevel registry limit headroom .disjunction)
          (parseLevel registry' limit headroom .disjunction) :=
        ⟨fun c hc ↦ parseLevel_meets .disjunction hc (by simp),
          fun c hc ↦ parseLevel_meets .disjunction hc (by simp), fun c c' h ↦ ih .disjunction h⟩
      rw [parseLevel_primary, parseLevel_primary]
      exact primary_mirrors hrelaxed hformula h
    rw [parseLevel_succ hlevel, parseLevel_succ hlevel, h.kind_eq, h.current_eq]
    cases ho : level.sign? c.kind with
    | some o =>
      refine .andThen (.behind h (Level.ne_endOfInput_of_sign? ho) fun d d' ↦ ih level) ?_
      exact fun x d d' hd ↦ .ofDone _ hd
    | none =>
      refine .andThen (ih level.tighter h) fun x d d' hd ↦ ?_
      rw [hd.kind_eq, hd.current_eq]
      cases ho' : level.operator? d.kind with
      | none => exact .ofDone x hd
      | some o =>
        have hkind := Level.ne_endOfInput_of_operator? ho'
        refine .andThen (.behind hd hkind fun e e' ↦ ih level.right) ?_
        exact fun y e e' he ↦ .ofDone _ he

/-! ## Whole formulas -/

theorem wholeFormula_mirrors (hrelaxed : registry.RelaxedBy registry') (h : AgreeTo reach c c') :
    Mirrors registry registry' reach c (wholeFormula registry limit headroom c)
      (wholeFormula registry' limit headroom c') := by
  refine .andThen (parseLevel_mirrors hrelaxed .disjunction h) fun x d d' hd ↦ ?_
  rw [hd.current_eq]
  split
  · exact .ofDone x hd
  · exact .ofFail _ _ _ hd

variable {tokens tokens' : List Token}

theorem agreeTo_start (h : ∀ j ≤ reach, (closed tokens')[j]? = (closed tokens)[j]?) :
    AgreeTo reach (start tokens) (start tokens') := by
  have htokens : ∀ k ≤ reach, (start tokens').tokens[k]? = (start tokens).tokens[k]? := by
    rw [tokens_start, tokens_start]
    exact h
  refine ⟨closed_start _, closed_start _, ?_, ?_, ?_⟩
  · rw [index_start, index_start]
  · exact Option.some.inj (htokens 0 (Nat.zero_le _))
  · rw [index_start]
    exact fun k hk ↦ htokens k (by omega)

theorem parse_ofTokens_congr (h : ∀ j ≤ (ofTokens registry limit tokens).parse.2.index,
    (closed tokens')[j]? = (closed tokens)[j]?) :
    (ofTokens registry limit tokens').parse.1 = (ofTokens registry limit tokens).parse.1 ∧
      (ofTokens registry limit tokens').parse.2.index =
        (ofTokens registry limit tokens).parse.2.index := by
  have hmirrors : Outcome.Mirrors registry registry _ _
      (wholeFormula registry limit limit (start tokens)) _ :=
    wholeFormula_mirrors (.refl registry) (agreeTo_start h)
  rw [parse_ofTokens, parse_ofTokens] at *
  cases hrun : wholeFormula registry limit limit (start tokens) with
  | done x d =>
    rw [hrun] at hmirrors
    obtain ⟨-, -, hsame⟩ := hmirrors
    obtain ⟨d', hrun', hagree⟩ := hsame (Nat.le_refl _)
    rw [hrun']
    exact ⟨rfl, hagree.index_eq⟩
  | stop e d left =>
    rw [hrun] at hmirrors
    obtain ⟨-, hsame⟩ := hmirrors
    obtain ⟨d', hrun', hindex⟩ := hsame (Nat.le_refl _) (.inl rfl)
    rw [hrun']
    exact ⟨rfl, hindex⟩

theorem exists_closed_append_cons (body : List Token) (t : Token) (rest : List Token) :
    ∃ rest', closed (body ++ t :: rest) = body ++ t :: rest' := by
  rw [closed]
  split
  · next hnil => simp at hnil
  · next last hlast =>
    split
    · exact ⟨rest, rfl⟩
    · exact ⟨rest ++ [.endAt last.span.stop], by rw [List.append_assoc, List.cons_append]⟩

theorem getElem?_append_cons {ts : List Token} {j : Nat} (hj : j ≤ ts.length) {t : Token}
    {us : List Token} : (ts ++ t :: us)[j]? = (ts ++ [t])[j]? := by
  rw [← List.singleton_append, ← List.append_assoc]
  refine List.getElem?_append_left ?_
  rw [List.length_append, List.length_singleton]
  exact Nat.lt_succ_of_le hj

theorem ofTokens_eq_of_closed_eq (registry : Registry) (limit : Nat)
    (h : closed tokens = closed tokens') :
    ofTokens registry limit tokens = ofTokens registry limit tokens' := by
  rw [ofTokens, ofTokens, start, start, h]

/-- **A parser looks at nothing behind its cursor.** On tokens that agree with others up to where a
fresh parser stops on those, it gives the same answer and stops at the same place. So nothing behind
an end of input makes a difference. Tokens without an end of input are the same to a parser as with
one where the last of them stops. -/
theorem parse_looks_no_further (registry : Registry) (limit : Nat) {eof eof' : Token}
    (heof : eof.isEnd = true) (heof' : eof'.isEnd = true) :
    (∀ init init' : List Token,
      let p := ofTokens registry limit (init ++ [eof])
      let p' := ofTokens registry limit (init' ++ [eof'])
      (∀ j ≤ p.parse.2.index, (init' ++ [eof'])[j]? = (init ++ [eof])[j]?) →
      p'.parse.1 = p.parse.1 ∧ p'.parse.2.index = p.parse.2.index) ∧
    (∀ body rest : List Token,
      let p := ofTokens registry limit (body ++ [eof])
      let p' := ofTokens registry limit (body ++ eof :: rest)
      p'.parse.1 = p.parse.1 ∧ p'.parse.2.index = p.parse.2.index) ∧
    (∀ (init : List Token) (last : Token), last.isEnd = false →
      ofTokens registry limit (init ++ [last]) =
        ofTokens registry limit (init ++ [last] ++ [.endAt last.span.stop])) ∧
    ofTokens registry limit [] = ofTokens registry limit [.endAt 0] := by
  refine ⟨?_, ?_, ?_, ?_⟩
  · intro init init' p p' hagree
    refine parse_ofTokens_congr ?_
    rwa [closed_append heof, closed_append heof']
  · intro body rest p p'
    refine parse_ofTokens_congr ?_
    obtain ⟨ts, hprogress, -⟩ := parse_progress (p := p) (closed_start _) (Int.natCast_nonneg _)
    obtain ⟨hclosed, hindex⟩ := hprogress.closed_eq
    obtain ⟨rest', hrest⟩ := exists_closed_append_cons body eof rest
    -- The parser stops at the end of input at the latest.
    have hle : p.parse.2.index ≤ body.length := by
      have hlength := congrArg List.length hclosed
      rw [closed_append heof, tokens_eq_cons] at hlength
      simp only [List.length_append, List.length_cons, List.length_nil] at hlength
      omega
    intro j hj
    rw [closed_append heof, hrest, getElem?_append_cons (Nat.le_trans hj hle)]
  · intro init last hlast
    have hclosed : closed (init ++ [last]) = init ++ [last] ++ [.endAt last.span.stop] := by
      rw [closed, List.getLast?_concat]
      exact if_neg (by rw [hlast]; decide)
    exact ofTokens_eq_of_closed_eq registry limit (hclosed.trans (closed_append rfl).symm)
  · exact ofTokens_eq_of_closed_eq registry limit rfl

/-- Behind two numbers in a row anything may stand. -/
theorem parse_looks_no_further_two_numbers :
    let one : Token := ⟨.number, "1", ⟨0, 1⟩⟩
    let two : Token := ⟨.number, "2", ⟨2, 3⟩⟩
    let times : Token := ⟨.times, "*", ⟨3, 4⟩⟩
    let p := ofTokens .standard 8 ([one, two] ++ [.endAt 3])
    let p' := ofTokens .standard 8 ([one, two, .endAt 3, times] ++ [.endAt 4])
    (Token.endAt 3).isEnd = true ∧ (Token.endAt 4).isEnd = true ∧
      (∀ j ≤ p.parse.2.index,
        ([one, two, .endAt 3, times] ++ [.endAt 4])[j]? = ([one, two] ++ [.endAt 3])[j]?) ∧
      p'.parse.1 = p.parse.1 ∧ p'.parse.2.index = p.parse.2.index := by
  intro one two times p p'
  have heof : (Token.endAt 3).isEnd = true := rfl
  have heof' : (Token.endAt 4).isEnd = true := rfl
  have hagree : ∀ j ≤ p.parse.2.index,
      ([one, two, .endAt 3, times] ++ [.endAt 4])[j]? = ([one, two] ++ [.endAt 3])[j]? := by
    decide +kernel
  obtain ⟨hsame, -⟩ := parse_looks_no_further .standard 8 heof heof'
  exact ⟨heof, heof', hagree, hsame _ _ hagree⟩

end Parser

end DecimalFormula
