import DecimalFormula.Proofs.Grammar.Prefixes
import DecimalFormula.Proofs.Parsing.Lookahead

/-!
# Errors stand at the first token that cannot go on

Where a fresh parser complains about the shape of a formula, the tokens in front begin one, and with
the token it complains about they no longer do. Any token of a kind that the error names would have
been in place there (`Tree.error_at_first_unfit_token`).

## The two halves

That the tokens in front begin a formula is an invariant of the run. A part that stops has passed
the beginning of something of its own sort (`Outcome.StopsWithin`), and by the rules for beginnings
so has the production it is a part of.

That the next token cannot go on is no matter of the run. It follows from what is known of all runs:
a parser looks at nothing behind its cursor, and it reads every formula, if the registry accepts the
calls and there is headroom. So on a formula that goes on with that token it would have stopped at
the same place, with the same error.
-/

namespace DecimalFormula

variable {registry registry' : Registry} {limit headroom n : Nat} {c c' d : TokenCursor}
  {formula : TokenCursor → Outcome Tree} {ts tokens : List Token} {level : Level}
  {sort sort' : List Token → Prop}

/-- The kinds of token that would have been in place. -/
def ParseCause.expected : ParseCause → List TokenKind
  | unexpectedToken _ kinds | unexpectedEnd kinds => kinds
  | _ => []

/-- Whether the cause is that the tokens are no formula, not a call or the limit. -/
def ParseCause.isAboutShape : ParseCause → Bool
  | unexpectedToken .. | unexpectedEnd _ | incompleteParse _ => true
  | _ => false

/-- What a cause says of the token where the run stopped. -/
def ParseCause.IsAt (current : Token) : ParseCause → Prop
  | unexpectedToken t _ | incompleteParse t => t = current
  | unexpectedEnd _ => current.isEnd = true
  | _ => True

theorem ParseCause.isAboutCall_of_isAboutShape {cause : ParseCause}
    (h : cause.isAboutShape = true) : cause.isAboutCall = false := by
  cases cause with
  | unknownFunction | wrongArgumentCount => cases h
  | _ => rfl

/-! ## Runs that stop within something -/

namespace Outcome

variable {α β : Type} {outcome : Outcome α} {P : List Token → α → TokenCursor → Prop}

/-- If the run stops, what it has passed from a cursor on begins something of a sort, also with one
more token of any kind that the error names. -/
def StopsWithin (c : TokenCursor) (sort : List Token → Prop) : Outcome α → Prop
  | done .. => True
  | stop e d _ => ∃ ts, c.Passes ts d ∧ Begins sort ts ∧
      ∀ u, u.kind ∈ e.cause.expected → Begins sort (ts ++ [u])

namespace StopsWithin

theorem behind (hpass : c.Passes ts c') (h : outcome.StopsWithin c' sort)
    (hsort : ∀ us, sort us → Begins sort' (ts ++ us)) : outcome.StopsWithin c sort' := by
  cases outcome with
  | done => trivial
  | stop e d left =>
    obtain ⟨us, hus, hbegins, hexpected⟩ := h
    refine ⟨ts ++ us, hpass.trans hus, hbegins.behind ts hsort, fun u hu ↦ ?_⟩
    rw [List.append_assoc]
    exact (hexpected u hu).behind ts hsort

/-- **Sequences.** What follows a part is asked behind all that the part can have passed. -/
theorem andThen {next : α → TokenCursor → Outcome β} (hpass : c.Passes ts c')
    (hmeets : outcome.Meets registry limit c' P) (h : outcome.StopsWithin c sort)
    (hnext : ∀ us x d, P us x d → c.Passes (ts ++ us) d → (next x d).StopsWithin c sort) :
    (outcome.andThen next).StopsWithin c sort := by
  cases outcome with
  | done x d =>
    obtain ⟨us, hus, hx⟩ := hmeets
    exact hnext us x d hx (hpass.trans hus)
  | stop => exact h

theorem andThen_done {f : α → TokenCursor → β} (h : outcome.StopsWithin c sort) :
    (outcome.andThen fun x d ↦ done (f x d) d).StopsWithin c sort := by
  cases outcome with
  | done => trivial
  | stop => exact h

end StopsWithin

end Outcome

/-! ## The functions of the parser, one by one -/

namespace Parser

open Outcome

theorem expected_mismatch (c : TokenCursor) (kinds : List TokenKind) :
    (mismatch c kinds).expected = kinds := by
  rw [mismatch]
  split <;> rfl

theorem fail_stopsWithin {α : Type} {cause : ParseCause} {span : Span} (hpass : c.Passes ts d)
    (hbegins : Begins sort ts) (hcause : cause.expected = []) :
    (fail (α := α) cause span headroom d).StopsWithin c sort := by
  refine ⟨ts, hpass, hbegins, fun u hu ↦ ?_⟩
  rw [hcause] at hu
  exact absurd hu List.not_mem_nil

theorem unexpected_stopsWithin {α : Type} {kind : TokenKind} {kinds : List TokenKind}
    (hpass : c.Passes ts d) (h : ∀ u, u.kind ∈ kind :: kinds → Begins sort (ts ++ [u])) :
    (unexpected (α := α) (kind :: kinds) headroom d).StopsWithin c sort := by
  have hbegins : Begins sort ts := .of_append _ (h ⟨kind, "", .emptyAt 0⟩ List.mem_cons_self)
  refine ⟨ts, hpass, hbegins, fun u hu ↦ h u ?_⟩
  rwa [expected_mismatch] at hu

theorem expect_stopsWithin {kind : TokenKind} (hpass : c.Passes ts d)
    (h : ∀ u, u.kind = kind → Begins sort (ts ++ [u])) :
    (expect kind headroom d).StopsWithin c sort := by
  rw [expect]
  split
  · trivial
  · exact unexpected_stopsWithin hpass fun u hu ↦ h u (List.mem_singleton.mp hu)

theorem Reads.isFormula {x : Tree} (h : Reads registry n level ts x) : IsFormula level ts :=
  .of_within h.1

theorem ReadsArguments.areArguments {args : List Tree} (h : ReadsArguments registry n ts args) :
    AreArguments ts := by
  obtain ⟨rfl, -⟩ | ⟨us, x, vs, ys, rfl, -, hus, more, rfl, -, hcommas, hmore⟩ := h
  · exact .inl rfl
  · exact .inr ⟨us, _, rfl, hus.isFormula, more, rfl, hcommas, fun m hm ↦ (hmore m hm).1.derives⟩

/-- What the lemmas on calls and parentheses need to know of the function for formulas: what it
passes, and that it stops within a formula. -/
structure Viable (registry : Registry) (limit n : Nat) (formula : TokenCursor → Outcome Tree) :
    Prop where
  /-- A formula is read from tokens that are passed. -/
  spec : FormulaSpec registry limit n formula
  /-- A run that stops has passed the beginning of one. -/
  stopsWithin : ∀ c : TokenCursor, c.Closed → (formula c).StopsWithin c (IsFormula .disjunction)

theorem moreArguments_stopsWithin (hformula : Viable registry limit n formula) (fuel : Nat)
    (hc : c.Closed) : (moreArguments formula fuel c).StopsWithin c AreFurther := by
  induction fuel generalizing c with
  | zero => trivial
  | succ fuel ih =>
    rw [moreArguments]
    split
    · next hcomma =>
      have hpass := hc.passes_advance (by rw [hcomma]; decide)
      have hclosed := hpass.closed hc
      have hfirst : (formula c.advance).StopsWithin c AreFurther := by
        refine (hformula.stopsWithin _ hclosed).behind hpass fun us hus ↦ .of_complete ?_
        have hfurther := AreFurther.cons hcomma hus .nil
        rwa [List.append_nil] at hfurther
      refine .andThen hpass (hformula.spec _ hclosed) hfirst fun us x d hx hd ↦ ?_
      refine StopsWithin.andThen_done ((ih (hd.closed hc)).behind hd fun vs hvs ↦ .of_complete ?_)
      exact .cons hcomma hx.isFormula hvs
    · trivial

theorem arguments_stopsWithin (hformula : Viable registry limit n formula) (hc : c.Closed) :
    (arguments formula c).StopsWithin c AreArguments := by
  rw [arguments]
  split
  · trivial
  · have hfirst : (formula c).StopsWithin c AreArguments := by
      refine (hformula.stopsWithin c hc).behind (.refl c) fun us hus ↦ .of_complete ?_
      exact .inr ⟨us, [], (List.append_nil us).symm, hus, .nil⟩
    refine .andThen (.refl c) (hformula.spec c hc) hfirst fun us x d hx hd ↦ ?_
    refine StopsWithin.andThen_done ?_
    refine (moreArguments_stopsWithin hformula _ (hd.closed hc)).behind hd fun vs hvs ↦ ?_
    exact .of_complete (.inr ⟨us, vs, rfl, hx.isFormula, hvs⟩)

theorem finishCall_stopsWithin {name : Token} {args : List Tree} (hpass : c.Passes ts d)
    (hcomma : d.kind ≠ .rightParen → ∀ u, u.kind = .comma → Begins sort (ts ++ [u]))
    (hclose : ∀ u, u.kind = .rightParen → Begins sort (ts ++ [u])) :
    (finishCall registry headroom name args d).StopsWithin c sort := by
  have hbegins : Begins sort ts := .of_append _ (hclose ⟨.rightParen, ")", .emptyAt 0⟩ rfl)
  rw [finishCall]
  split
  · split
    · exact fail_stopsWithin hpass hbegins rfl
    · split
      · trivial
      · exact fail_stopsWithin hpass hbegins rfl
  · next hne =>
    refine unexpected_stopsWithin hpass fun u hu ↦ ?_
    rcases List.mem_pair.mp hu with hu | hu
    · exact hcomma hne u hu
    · exact hclose u hu

/-- A primary is a power, and a sign would have been in place as well. -/
theorem primary_stopsWithin (hformula : Viable registry limit n formula) (hc : c.Closed) :
    (primary registry headroom formula c).StopsWithin c (IsFormula .power) := by
  have hpower : ∀ {outcome : Outcome Tree}, outcome.StopsWithin c (IsFormula .primary) →
      outcome.StopsWithin c (IsFormula .power) :=
    fun h ↦ h.behind (.refl c) fun us hus ↦ .of_complete (hus.of_primary .power)
  rw [primary]
  split
  · trivial
  · trivial
  · next hkind =>
    refine hpower ?_
    have hname := hc.passes_advance (by rw [hkind]; decide)
    have hclosed := hname.closed hc
    have hopening : (expect .leftParen headroom c.advance).StopsWithin c (IsFormula .primary) := by
      refine expect_stopsWithin hname fun u hu ↦ ?_
      exact begins_call hkind hu (.inl rfl)
    have hmeets : (expect .leftParen headroom c.advance).Meets registry limit c.advance _ :=
      expect_meets (by decide) hclosed
    refine .andThen hname hmeets hopening ?_
    rintro _ t c₁ ⟨rfl, ht⟩ hbehind
    have hclosed := hbehind.closed hc
    have hargs : (arguments formula c₁).StopsWithin c (IsFormula .primary) := by
      refine (arguments_stopsWithin hformula hclosed).behind hbehind fun us hus ↦ ?_
      exact begins_call hkind ht hus
    refine .andThen hbehind (arguments_meets hformula.spec hclosed) hargs ?_
    rintro us args c₂ ⟨hus, -, hnil⟩ hpass
    refine finishCall_stopsWithin hpass (fun hne u hu ↦ ?_) fun u hu ↦ ?_
    · have hcomma := begins_comma hus.areArguments (mt hnil hne) hu
      exact hcomma.behind [c.current, t] fun vs hvs ↦ begins_call hkind ht hvs
    · exact .of_complete (.call hkind ht hus.areArguments hu)
  · next hkind =>
    refine hpower ?_
    have hopening := hc.passes_advance (by rw [hkind]; decide)
    have hclosed := hopening.closed hc
    have hinner : (formula c.advance).StopsWithin c (IsFormula .primary) := by
      refine (hformula.stopsWithin _ hclosed).behind hopening fun us hus ↦ ?_
      exact begins_parenthesized hkind hus
    refine .andThen hopening (hformula.spec _ hclosed) hinner fun us x c₁ hx hpass ↦ ?_
    refine StopsWithin.andThen_done (expect_stopsWithin hpass fun u hu ↦ ?_)
    exact .of_complete (.parenthesized hkind hx.isFormula hu)
  · exact unexpected_stopsWithin (.refl c) fun u hu ↦ begins_operand hu

end Parser

/-- The level that a run for a part of some level stops within: for a primary that is a power, as a
sign in front of it would make it one. -/
def Level.orPower : Level → Level
  | primary => power
  | level => level

theorem Level.orPower_of_ne (h : level ≠ .primary) : level.orPower = level := by
  cases level with
  | primary => exact absurd rfl h
  | _ => rfl

theorem IsFormula.of_tighter_orPower (hlevel : level ≠ .primary)
    (h : IsFormula level.tighter.orPower ts) : IsFormula level ts := by
  by_cases htighter : level.tighter = .primary
  · rw [htighter] at h
    rwa [Level.eq_power_of_tighter_eq_primary hlevel htighter]
  · rw [Level.orPower_of_ne htighter] at h
    exact h.tighter hlevel

namespace Parser

open Outcome

/-- **A run that stops** has passed the beginning of a formula, by induction along the run. -/
theorem parseLevel_stopsWithin (level : Level) (hc : c.Closed)
    (hsign : level = .primary → Level.power.sign? c.kind = none) :
    (parseLevel registry limit headroom level c).StopsWithin c (IsFormula level.orPower) := by
  induction headroom, level, c, hc, hsign using inductOnLevels with
  | exhausted level c =>
    rw [parseLevel]
    exact fail_stopsWithin (.refl c) (begins_nil _) rfl
  | primary headroom c hc hsign ih =>
    have hformula : Viable registry limit headroom
        (parseLevel registry limit headroom .disjunction) :=
      ⟨fun c hc ↦ parseLevel_meets .disjunction hc (by simp), ih⟩
    rw [parseLevel_primary]
    exact primary_stopsWithin hformula hc
  | sign headroom level c hc hsign hlevel o ho hpass ih =>
    rw [parseLevel_of_sign hlevel ho]
    rw [Level.orPower_of_ne hlevel] at ih ⊢
    exact StopsWithin.andThen_done (ih.behind hpass fun us hus ↦ .of_complete (hus.sign ho))
  | operand headroom level c hc hsign hlevel hnone ih ihright =>
    rw [parseLevel_of_operand hlevel hnone, Level.orPower_of_ne hlevel]
    have hmeets : (parseLevel registry limit headroom level.tighter c).Meets registry limit c _ :=
      parseLevel_meets level.tighter hc (Level.sign?_power_eq_none hlevel hnone)
    -- The left part of an operation begins a formula of the level by itself.
    have hleft := ih.behind (.refl c) fun us hus ↦ .of_complete (hus.of_tighter_orPower hlevel)
    refine .andThen (.refl c) hmeets hleft fun us x d hx hd ↦ ?_
    cases ho : level.operator? d.kind with
    | none => trivial
    | some o =>
      obtain ⟨hpass, hrun⟩ := ihright _ d o hd ho
      rw [Level.orPower_of_ne (Level.right_ne_primary hlevel)] at hrun
      refine StopsWithin.andThen_done (hrun.behind hpass fun vs hvs ↦ .of_complete ?_)
      have hjoin := hx.isFormula.join ho hvs
      rwa [List.append_assoc]

theorem wholeFormula_stopsWithin (hc : c.Closed) :
    (wholeFormula registry limit headroom c).StopsWithin c (IsFormula .disjunction) := by
  have hmeets : (parseLevel registry limit headroom .disjunction c).Meets registry limit c _ :=
    parseLevel_meets .disjunction hc (by simp)
  refine .andThen (.refl c) hmeets (parseLevel_stopsWithin .disjunction hc (by simp)) ?_
  intro us x d hx hd
  split
  · trivial
  · exact fail_stopsWithin hd (.of_complete hx.isFormula) rfl

/-! ## Where a run stops -/

theorem isAt_mismatch (c : TokenCursor) (kinds : List TokenKind) :
    (mismatch c kinds).IsAt c.current := by
  rw [mismatch]
  split
  · next hend => exact hend
  · rfl

theorem Fault.isAt {e : ParseError} (h : Fault registry limit ts d headroom e) :
    e.index = d.index ∧ e.cause.IsAt d.current := by
  cases h with
  | mismatch => exact ⟨rfl, isAt_mismatch _ _⟩
  | _ => exact ⟨rfl, trivial⟩

namespace Ends

variable {e : ParseError} {left : Nat}

theorem isAt (h : Ends registry limit headroom c (.stop e d left)) :
    e.index = d.index ∧ e.cause.IsAt d.current := by
  cases h with
  | incomplete => exact ⟨rfl, rfl⟩
  | fault _ hfault => exact hfault.isAt

theorem isFormula_of_incompleteParse (h : Ends registry limit headroom c (.stop e d left))
    (hpass : c.Passes ts d) {t : Token} (hcause : e.cause = .incompleteParse t) :
    IsFormula .disjunction ts := by
  cases h with
  | incomplete hpass' _ hreads =>
    rw [List.append_cancel_right (hpass.tokens_eq.symm.trans hpass'.tokens_eq)]
    exact hreads.isFormula
  | fault _ hfault => exact absurd hcause (hfault.cause_ne_incompleteParse t)

end Ends

end Parser

namespace Tree

variable {e : ParseError} {body formula : List Token} {eof t : Token}

theorem ofTokens_eq_error_iff : ofTokens registry limit tokens = .error e ↔
    ∃ d left, Parser.wholeFormula registry limit limit (.start tokens) = .stop e d left := by
  rw [ofTokens, Parser.parse_ofTokens]
  cases Parser.wholeFormula registry limit limit (.start tokens) with
  | done x d =>
    constructor
    · rintro ⟨⟩
    · rintro ⟨_, _, ⟨⟩⟩
  | stop e' d left =>
    constructor
    · rintro ⟨⟩
      exact ⟨d, left, rfl⟩
    · rintro ⟨_, _, ⟨⟩⟩
      rfl

/-- The tokens in front of an error begin a formula, also with one more token of any kind that the
error names. If it is that something follows a formula, they are that formula. -/
theorem exists_begins_of_error (h : ofTokens registry limit tokens = .error e) :
    ∃ ts d, (TokenCursor.start tokens).Passes ts d ∧ e.index = d.index ∧ e.cause.IsAt d.current ∧
      Begins (IsFormula .disjunction) ts ∧
      (∀ u, u.kind ∈ e.cause.expected → Begins (IsFormula .disjunction) (ts ++ [u])) ∧
      ∀ t, e.cause = .incompleteParse t → IsFormula .disjunction ts := by
  obtain ⟨d, left, hrun⟩ := ofTokens_eq_error_iff.mp h
  have hclosed := TokenCursor.closed_start tokens
  have hends : Parser.Ends registry limit limit (.start tokens) _ :=
    Parser.wholeFormula_ends hclosed
  have hstops : Outcome.StopsWithin (.start tokens) (IsFormula .disjunction)
      (Parser.wholeFormula registry limit limit (.start tokens)) :=
    Parser.wholeFormula_stopsWithin hclosed
  rw [hrun] at hends hstops
  obtain ⟨ts, hpass, hbegins, hexpected⟩ := hstops
  obtain ⟨hindex, hat⟩ := hends.isAt
  exact ⟨ts, d, hpass, hindex, hat, hbegins, hexpected,
    fun t ht ↦ hends.isFormula_of_incompleteParse hpass ht⟩

/-! ## What cannot go on -/

/-- A parser that knows more functions makes all complaints but those about calls on all tokens that
agree with the first ones up to where the complaint is made. -/
theorem ofTokens_eq_error_of_agree {tokens' : List Token} (hrelaxed : registry.RelaxedBy registry')
    (h : ofTokens registry limit tokens = .error e) (hcall : e.cause.isAboutCall = false)
    (hagree : ∀ j ≤ e.index, (TokenCursor.closed tokens')[j]? = (TokenCursor.closed tokens)[j]?) :
    ofTokens registry' limit tokens' = .error e := by
  obtain ⟨d, left, hrun⟩ := ofTokens_eq_error_iff.mp h
  have hends : Parser.Ends registry limit limit (.start tokens) _ :=
    Parser.wholeFormula_ends (TokenCursor.closed_start tokens)
  have hmirrors : Outcome.Mirrors registry registry' e.index _
      (Parser.wholeFormula registry limit limit (.start tokens)) _ :=
    Parser.wholeFormula_mirrors hrelaxed (Parser.agreeTo_start hagree)
  rw [hrun] at hends hmirrors
  obtain ⟨-, hsame⟩ := hmirrors
  obtain ⟨d', hrun', -⟩ := hsame (Nat.le_of_eq hends.isAt.1.symm) (.inr hcall)
  exact ofTokens_eq_error_iff.mpr ⟨d', left, hrun'⟩

/-- No formula starts as other tokens do up to where their shape turns out to be wrong. -/
theorem not_agree_of_error (h : ofTokens registry limit tokens = .error e)
    (hshape : e.cause.isAboutShape = true) (hformula : IsFormula .disjunction formula)
    (heof : eof.isEnd = true) :
    ¬ ∀ j ≤ e.index, (formula ++ [eof])[j]? = (TokenCursor.closed tokens)[j]? := by
  intro hagree
  obtain ⟨x, hx⟩ := hformula
  -- With more headroom the error stays, and so it does where all the calls are accepted.
  let names := formula.map Token.text
  let enough := max limit (8 * formula.length)
  have herror : ofTokens registry enough tokens = .error e := by
    obtain ⟨n, -, -, hn⟩ := exists_isThreshold registry tokens
    rcases hn.ofTokens_eq_or_tooDeep (Nat.le_max_left limit _) with heq | ⟨span, index, hlimit⟩
    · exact heq.symm.trans h
    · cases hlimit.symm.trans h
      cases hshape
  have hrelaxed : registry.RelaxedBy (registry.alsoPermitting names) := by
    intro name arity n harity haccepts
    rcases registry.arity?_alsoPermitting names name with hany | ⟨-, hsame⟩
    · exact ⟨.any, hany, rfl⟩
    · exact ⟨arity, hsame.trans harity, haccepts⟩
  have herror' : ofTokens (registry.alsoPermitting names) enough (formula ++ [eof]) = .error e := by
    refine ofTokens_eq_error_of_agree hrelaxed herror ?_ ?_
    · exact ParseCause.isAboutCall_of_isAboutShape hshape
    rwa [TokenCursor.closed_append heof]
  -- But there the parser reads the formula.
  have hwithin : DerivesWithin enough .disjunction formula x :=
    hx.within (Nat.le_trans (Nat.le_max_right limit _) (Nat.le_add_right _ _))
  have haccepted : x.Accepted (registry.alsoPermitting names) :=
    accepted_alsoPermitting registry hwithin.wellBuilt fun node hnode ↦
      List.mem_map_of_mem (hwithin.token_mem hnode)
  have hok := (ofTokens_append_eq_ok_iff (fun t ht ↦ hwithin.isEnd_eq_false ht) heof).mpr
    ⟨hwithin, haccepted⟩
  cases hok.symm.trans herror'

theorem not_begins_of_error {rest : List Token} (h : ofTokens registry limit tokens = .error e)
    (hshape : e.cause.isAboutShape = true)
    (hclosed : TokenCursor.closed tokens = ts ++ t :: rest) (hindex : e.index = ts.length) :
    ¬ Begins (IsFormula .disjunction) (ts ++ [t]) := by
  rintro ⟨more, hformula⟩
  have heof : (Token.endAt 0).isEnd = true := rfl
  refine not_agree_of_error h hshape hformula heof fun j hj ↦ ?_
  rw [hindex] at hj
  rw [hclosed, List.append_assoc, List.append_assoc, List.singleton_append]
  exact (Parser.getElem?_append_cons hj).trans (Parser.getElem?_append_cons hj).symm

theorem not_isFormula_of_error {rest : List Token} (h : ofTokens registry limit tokens = .error e)
    (hshape : e.cause.isAboutShape = true) (heof : eof.isEnd = true)
    (hclosed : TokenCursor.closed tokens = ts ++ eof :: rest) (hindex : e.index = ts.length) :
    ¬ IsFormula .disjunction ts := by
  intro hformula
  refine not_agree_of_error h hshape hformula heof fun j hj ↦ ?_
  rw [hindex] at hj
  rw [hclosed]
  exact (Parser.getElem?_append_cons hj).symm

/-- **Errors stand at the first token that cannot go on.** Whatever a fresh parser complains about,
the tokens in front begin a formula, also with one more token of any kind that the error names. If
it complains

* about a token, the tokens in front and this one do not begin a formula;
* about the end of the input, the tokens in front are all there are and are no formula;
* that something follows a formula, the tokens in front are that formula, and with the token that
  follows they do not begin one. -/
theorem error_at_first_unfit_token (hbody : ∀ t ∈ body, t.isEnd = false) (heof : eof.isEnd = true)
    (h : ofTokens registry limit (body ++ [eof]) = .error e) :
    let tokens := body ++ [eof]
    let before := tokens.take e.index
    Begins (IsFormula .disjunction) before ∧
    (∀ u, u.kind ∈ e.cause.expected → Begins (IsFormula .disjunction) (before ++ [u])) ∧
    (∀ t kinds, e.cause = .unexpectedToken t kinds →
      tokens[e.index]? = some t ∧ ¬ Begins (IsFormula .disjunction) (before ++ [t])) ∧
    (∀ kinds, e.cause = .unexpectedEnd kinds → before = body ∧ ¬ IsFormula .disjunction before) ∧
    ∀ t, e.cause = .incompleteParse t → tokens[e.index]? = some t ∧
      IsFormula .disjunction before ∧ ¬ Begins (IsFormula .disjunction) (before ++ [t]) := by
  intro tokens before
  obtain ⟨ts, d, hpass, hindex, hat, hbegins, hexpected, hformula⟩ := exists_begins_of_error h
  have hclosed : TokenCursor.closed tokens = ts ++ d.current :: d.ahead := by
    rw [← TokenCursor.tokens_eq_cons, ← hpass.tokens_eq, TokenCursor.tokens_start]
  have htokens : tokens = ts ++ d.current :: d.ahead :=
    (TokenCursor.closed_append heof).symm.trans hclosed
  have hlength : e.index = ts.length := by
    rw [hindex, hpass.index_eq, Parser.index_start, Nat.zero_add]
  obtain rfl : before = ts := by rw [show before = tokens.take e.index from rfl, htokens, hlength,
    List.take_left]
  -- So the cursor stands at the token with the index of the error.
  have hcurrent : tokens[e.index]? = some d.current := by
    rw [htokens, hlength, List.getElem?_append_right (Nat.le_refl _), Nat.sub_self,
      List.getElem?_cons_zero]
  refine ⟨hbegins, hexpected, fun t kinds hcause ↦ ?_, fun kinds hcause ↦ ?_, fun t hcause ↦ ?_⟩
  · have hshape : e.cause.isAboutShape = true := by rw [hcause]; rfl
    obtain rfl : t = d.current := by rwa [hcause] at hat
    exact ⟨hcurrent, not_begins_of_error h hshape hclosed hlength⟩
  · have hshape : e.cause.isAboutShape = true := by rw [hcause]; rfl
    have hend : d.current.isEnd = true := by rwa [hcause] at hat
    obtain ⟨c, hall, hc⟩ := TokenCursor.exists_passes_start hbody heof
    refine ⟨hpass.eq_of_isEnd hall hend (hc ▸ heof), ?_⟩
    exact not_isFormula_of_error h hshape hend hclosed hlength
  · have hshape : e.cause.isAboutShape = true := by rw [hcause]; rfl
    have hbefore := hformula t hcause
    obtain rfl : t = d.current := by rwa [hcause] at hat
    exact ⟨hcurrent, hbefore, not_begins_of_error h hshape hclosed hlength⟩

/-- In `2*)` a sign could stand where the parenthesis is. -/
theorem error_at_first_unfit_token_parenthesis :
    let two : Token := ⟨.number, "2", ⟨0, 1⟩⟩
    let times : Token := ⟨.times, "*", ⟨1, 2⟩⟩
    let close : Token := ⟨.rightParen, ")", ⟨2, 3⟩⟩
    let minus : Token := ⟨.minus, "-", ⟨2, 3⟩⟩
    (∀ t ∈ [two, times, close], t.isEnd = false) ∧ (Token.endAt 3).isEnd = true ∧
    ofTokens .standard 32 ([two, times, close] ++ [.endAt 3]) =
      .error ⟨.unexpectedToken close Level.operandKinds, ⟨2, 3⟩, 2⟩ ∧
    Begins (IsFormula .disjunction) [two, times] ∧
    Begins (IsFormula .disjunction) [two, times, minus] ∧
    ¬ Begins (IsFormula .disjunction) [two, times, close] := by
  intro two times close minus
  have hbody : ∀ t ∈ [two, times, close], t.isEnd = false := by decide
  have heof : (Token.endAt 3).isEnd = true := rfl
  have hanswer : ofTokens .standard 32 ([two, times, close] ++ [.endAt 3]) =
      .error ⟨.unexpectedToken close Level.operandKinds, ⟨2, 3⟩, 2⟩ := by
    decide +kernel
  obtain ⟨hbegins, hexpected, htoken, -⟩ := error_at_first_unfit_token hbody heof hanswer
  exact ⟨hbody, heof, hanswer, hbegins, hexpected minus (by decide), (htoken close _ rfl).2⟩

end Tree

end DecimalFormula
